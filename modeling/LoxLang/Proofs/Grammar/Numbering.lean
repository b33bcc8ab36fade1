import Mathlib.Data.List.Nodup
import Mathlib.Data.List.Perm.Subperm
import LoxLang.Proofs.Grammar.Progress
import LoxLang.Proofs.Syntax.Nodes

/-!
Every node gets a number of its own. `Makes used reader made` says of a reader that it may throw away
nodes numbered `used`, and that the nodes of its result are among those and the ones it numbers
itself, without repetition. Programs that are read are regular as well.
-/
namespace LoxLang

/-- Different numbers, all from `low` on and below `high`. -/
def Numbered (low high : Nat) (ids : List Nat) : Prop :=
  ids.Nodup ∧ ∀ id ∈ ids, low ≤ id ∧ id < high

namespace Numbered

theorem subperm {low high : Nat} {ids fewer : List Nat} (numbered : Numbered low high ids)
    (among : fewer.Subperm ids) : Numbered low high fewer := by
  obtain ⟨part, order, sublist⟩ := among
  exact ⟨order.nodup_iff.mp (numbered.1.sublist sublist),
    fun id member => numbered.2 id (sublist.subset (order.mem_iff.mpr member))⟩

theorem raise {low high higher : Nat} {ids : List Nat} (numbered : Numbered low high ids)
    (above : high ≤ higher) : Numbered low higher ids :=
  ⟨numbered.1, fun id member =>
    ⟨(numbered.2 id member).1, Nat.lt_of_lt_of_le (numbered.2 id member).2 above⟩⟩

theorem push {low high : Nat} {ids : List Nat} (numbered : Numbered low high ids)
    (order : low ≤ high) : Numbered low (high + 1) (ids ++ [high]) := by
  refine ⟨List.nodup_append.mpr ⟨numbered.1, List.nodup_singleton high, ?_⟩, ?_⟩
  · intro id member other single
    have below := (numbered.2 id member).2
    rw [List.mem_singleton.mp single]
    exact Nat.ne_of_lt below
  · intro id member
    rcases List.mem_append.mp member with old | new
    · exact ⟨(numbered.2 id old).1, Nat.lt_succ_of_lt (numbered.2 id old).2⟩
    · rw [List.mem_singleton.mp new]
      exact ⟨order, Nat.lt_succ_self high⟩

theorem append {low middle high : Nat} {ids others : List Nat} (first : Numbered low middle ids)
    (last : Numbered middle high others) (below : low ≤ middle) (above : middle ≤ high) :
    Numbered low high (ids ++ others) := by
  constructor
  · refine List.nodup_append.mpr ⟨first.1, last.1, fun id member other further => ?_⟩
    have before := (first.2 id member).2
    have after := (last.2 other further).1
    omega
  · intro id member
    rcases List.mem_append.mp member with early | late
    · have range := first.2 id early
      omega
    · have range := last.2 id late
      omega

end Numbered

namespace Grammar

variable {α β : Type}

/-- `old` stands for nodes that are somewhere else. -/
def Reader.Makes (used : List Nat) (reader : Reader α) (made : α → List Nat) : Prop :=
  ∀ (low : Nat) (old : List Nat) (cursor : Cursor) (value : α) (after : Cursor),
    low ≤ cursor.nextId → Numbered low cursor.nextId (old ++ used) →
    reader cursor = .read value after → Numbered low after.nextId (old ++ made value)

namespace Reader.Makes

variable {used : List Nat} {made : α → List Nat}

theorem pure (made : α → List Nat) (value : α) : Makes (made value) (Pure.pure value) made := by
  intro low old cursor result after _ numbered read
  cases read
  exact numbered

theorem fails {reader : Reader α} (never : ∀ cursor value after, reader cursor ≠ .read value after) :
    Makes used reader made := by
  intro low old cursor value after _ _ read
  exact absurd read (never cursor value after)

theorem fail (cause : StaticCause) : Makes used (Grammar.fail cause) made :=
  fails fun _ _ _ => nofun

theorem bind {first : Reader α} {next : α → Reader β} {result : β → List Nat}
    (forward : first.Forward) (start : Makes used first made)
    (further : ∀ value, Makes (made value) (next value) result) :
    Makes used (first >>= next) result := by
  intro low old cursor value after order numbered read
  obtain ⟨found, middle, readFound, readValue⟩ := bind_eq_read.mp read
  have ahead := forward.read readFound
  exact further found low old middle value after (Nat.le_trans order ahead.nextId)
    (start low old cursor found middle order numbered readFound) readValue

theorem neutral {reader : Reader α} (forward : reader.Forward) :
    Makes used reader fun _ => used := by
  intro low old cursor value after _ numbered read
  exact numbered.raise (forward.read read).nextId

theorem past {first : Reader α} {next : α → Reader β} {result : β → List Nat}
    (forward : first.Forward) (further : ∀ value, Makes used (next value) result) :
    Makes used (first >>= next) result :=
  .bind forward (.neutral forward) further

theorem frame {reader : Reader α} (others : List Nat) (start : Makes used reader made) :
    Makes (others ++ used) reader fun value => others ++ made value := by
  intro low old cursor value after order numbered read
  rw [← List.append_assoc] at numbered ⊢
  exact start low (old ++ others) cursor value after order numbered read

theorem fewer {reader : Reader α} {more : List Nat} (among : used.Subperm more)
    (start : Makes used reader made) : Makes more reader made := by
  intro low old cursor value after order numbered read
  exact start low old cursor value after order
    (numbered.subperm ((List.subperm_append_left old).mpr among)) read

theorem map {reader : Reader α} {change : α → β} {result : β → List Nat} (forward : reader.Forward)
    (same : ∀ value, result (change value) = made value) (start : Makes used reader made) :
    Makes used (change <$> reader) result :=
  start.bind forward fun value => same value ▸ pure result (change value)

end Reader.Makes

theorem makes_newSite (used : List Nat) (line : Nat) :
    (newSite line).Makes used fun site => used ++ [site.id] := by
  intro low old cursor site after order numbered read
  cases read
  rw [← List.append_assoc]
  exact numbered.push order

section Expressions

theorem ids_apply (operator : Operator) (site : Site) (left right : Expr) :
    (operator.apply site left right).ids = site.id :: (left.ids ++ right.ids) := by
  cases operator <;> rfl

theorem makes_chainFrom (level : Level) {operand : Reader Expr} (forward : operand.Forward)
    (makes : operand.Makes [] Expr.ids) (bound : Nat) (left : Expr) :
    (chainFrom level operand bound left).Makes left.ids Expr.ids := by
  induction bound generalizing left with
  | zero => exact .pure _ left
  | succ bound ih =>
    refine .past (forward_takeIf? _) fun found => ?_
    match found with
    | none => exact .pure _ left
    | some (operator, token) =>
      have right := makes.frame left.ids
      rw [List.append_nil] at right
      refine right.bind forward fun right => (makes_newSite _ _).bind (forward_newSite _)
        fun site => (ih (operator.apply site left right)).fewer ?_
      rw [ids_apply]
      exact (List.perm_append_singleton site.id _).symm.subperm

theorem makes_chain (bound : Nat) (level : Level) {operand : Reader Expr}
    (forward : operand.Forward) (makes : operand.Makes [] Expr.ids) :
    (chain bound level operand).Makes [] Expr.ids :=
  makes.bind forward fun left => makes_chainFrom level forward makes bound left

theorem makes_comparison (bound : Nat) {operand : Reader Expr} (forward : operand.Forward)
    (makes : operand.Makes [] Expr.ids) : (comparison bound operand).Makes [] Expr.ids := by
  have factorForward := forwards.chain bound .factor forward
  have termForward := forwards.chain bound .term factorForward
  exact makes_chain bound .comparison termForward
    (makes_chain bound .term factorForward (makes_chain bound .factor forward makes))

theorem makes_disjunction (bound : Nat) {operand : Reader Expr} (forward : operand.Forward)
    (makes : operand.Makes [] Expr.ids) : (disjunction bound operand).Makes [] Expr.ids := by
  have comparisonForward := forwards.comparison bound forward
  have equalityForward := forwards.chain bound .equality comparisonForward
  have conjunctionForward := forwards.chain bound .conjunction equalityForward
  exact makes_chain bound .disjunction conjunctionForward
    (makes_chain bound .conjunction equalityForward
      (makes_chain bound .equality comparisonForward (makes_comparison bound forward makes)))

theorem makes_assignment {target value : Reader Expr} (targetForward : target.Forward)
    (valueForward : value.Forward) (targetMakes : target.Makes [] Expr.ids)
    (valueMakes : value.Makes [] Expr.ids) : (assignment target value).Makes [] Expr.ids := by
  refine targetMakes.bind targetForward fun left =>
    .past (forward_takeKind? _) fun found => ?_
  match found with
  | none => exact .pure _ left
  | some sign =>
    have fresh : value.Makes left.ids Expr.ids :=
      valueMakes.fewer (List.nil_subperm)
    refine fresh.bind valueForward fun right => ?_
    split
    · refine (makes_newSite _ _).bind (forward_newSite _) fun site => ?_
      refine (Reader.Makes.pure Expr.ids (.assign site _ right)).fewer ?_
      exact (List.perm_append_singleton site.id _).symm.subperm
    · exact .past (forward_report _ _) fun _ => .pure _ right

theorem makes_argumentsFrom {argument : Reader Expr} (forward : argument.Forward)
    (makes : argument.Makes [] Expr.ids) (bound count : Nat) (done : List Expr) :
    (argumentsFrom argument bound count done).Makes (Expr.idsAll done.reverse) Expr.idsAll := by
  induction bound generalizing count done with
  | zero => exact .fail _
  | succ bound ih =>
    have further := makes.frame (Expr.idsAll done.reverse)
    rw [List.append_nil] at further
    refine .past (forward_checkLimit _ _) fun _ =>
      further.bind forward fun next => ?_
    have joined : Expr.idsAll done.reverse ++ next.ids = Expr.idsAll (next :: done).reverse := by
      simp [Expr.idsAll_append, Expr.idsAll]
    rw [joined]
    refine .past (forward_takeKind? _) fun found => ?_
    cases found with
    | none => exact .pure _ _
    | some _ => exact ih _ _

theorem makes_arguments (bound : Nat) {argument : Reader Expr} (forward : argument.Forward)
    (makes : argument.Makes [] Expr.ids) : (arguments bound argument).Makes [] Expr.idsAll := by
  refine .past forward_peek fun token => ?_
  split
  · exact .pure Expr.idsAll []
  · exact makes_argumentsFrom forward makes bound 0 []

theorem makes_callsFrom {argument : Reader Expr} (forward : argument.Forward)
    (makes : argument.Makes [] Expr.ids) (bound : Nat) (callee : Expr) :
    (callsFrom argument bound callee).Makes callee.ids Expr.ids := by
  induction bound generalizing callee with
  | zero => exact .pure _ callee
  | succ bound ih =>
    refine .past (forward_takeKind? _) fun found => ?_
    match found with
    | none => exact .pure _ callee
    | some _ =>
      have values := (makes_arguments bound forward makes).frame callee.ids
      rw [List.append_nil] at values
      refine values.bind (forwards.arguments bound forward) fun values =>
        .past (forwards.needSymbol _ _) fun close =>
          (makes_newSite _ _).bind (forward_newSite _) fun site => (ih _).fewer ?_
      exact (List.perm_append_singleton site.id _).symm.subperm

theorem makes_literal (token : Token) (value : Literal) :
    (literal token value).Makes [] Expr.ids :=
  .past forward_take fun _ =>
    (makes_newSite _ _).bind (forward_newSite _) fun site =>
      .pure Expr.ids (.literal site value)

theorem makes_group {inner : Reader Expr} (forward : inner.Forward)
    (makes : inner.Makes [] Expr.ids) : (group inner).Makes [] Expr.ids := by
  refine .past forward_take fun paren => makes.bind forward fun value =>
    .past (forwards.needSymbol _ _) fun _ =>
      (makes_newSite _ _).bind (forward_newSite _) fun site => ?_
  refine (Reader.Makes.pure Expr.ids (.group site value)).fewer ?_
  exact (List.perm_append_singleton site.id _).symm.subperm

theorem makes_misplaced (right : Reader Expr) : (misplaced right).Makes [] Expr.ids :=
  .fails fun _ _ _ => nofun

theorem makes_primary {inner : Reader Expr} (right : Reader Expr) (forward : inner.Forward)
    (makes : inner.Makes [] Expr.ids) : (primary inner right).Makes [] Expr.ids := by
  refine .past forward_peek fun token => ?_
  split
  case h_4 | h_5 =>
    split
    · exact makes_literal token _
    · exact .fail _
  case h_6 =>
    exact .past forward_take fun _ =>
      (makes_newSite _ _).bind (forward_newSite _) fun site =>
        .pure Expr.ids (.variable site token.lexeme)
  case h_7 => exact makes_group forward makes
  case h_8 =>
    split
    · exact makes_misplaced right
    · exact .fail _
  case h_9 => exact .fail _
  all_goals exact makes_literal token _

theorem makes_call (bound : Nat) {inner right : Reader Expr} (innerForward : inner.Forward)
    (rightForward : right.Forward) (makes : inner.Makes [] Expr.ids) :
    (call bound inner right).Makes [] Expr.ids :=
  (makes_primary right innerForward makes).bind (forwards.primary innerForward rightForward)
    fun callee => makes_callsFrom innerForward makes bound callee

theorem makes_unaryOr {operand otherwise : Reader Expr} (forward : operand.Forward)
    (operandMakes : operand.Makes [] Expr.ids) (otherwiseMakes : otherwise.Makes [] Expr.ids) :
    (unaryOr operand otherwise).Makes [] Expr.ids := by
  refine .past (forward_takeIf? _) fun found => ?_
  match found with
  | none => exact otherwiseMakes
  | some (op, token) =>
    refine operandMakes.bind forward fun value =>
      (makes_newSite _ _).bind (forward_newSite _) fun site => ?_
    refine (Reader.Makes.pure Expr.ids (.unary site op value)).fewer ?_
    exact (List.perm_append_singleton site.id _).symm.subperm

theorem makes_expression_unary (bound : Nat) :
    Reader.Makes [] (expression bound) Expr.ids ∧ Reader.Makes [] (unary bound) Expr.ids := by
  induction bound with
  | zero => exact ⟨.fail _, .fail _⟩
  | succ bound ih =>
    obtain ⟨expressionMakes, unaryMakes⟩ := ih
    have expressionForward := forwards.expression bound
    have unaryForward := forwards.unary bound
    exact ⟨makes_assignment (forwards.disjunction bound unaryForward) expressionForward
        (makes_disjunction bound unaryForward unaryMakes) expressionMakes,
      makes_unaryOr unaryForward unaryMakes
        (makes_call bound expressionForward (forwards.comparison bound unaryForward)
          expressionMakes)⟩

theorem makes_expression (bound : Nat) : Reader.Makes [] (expression bound) Expr.ids :=
  (makes_expression_unary bound).1

end Expressions

section Statements

variable {value : Reader Expr} {inner item : Reader Stmt} {block : Reader (List Stmt)}

theorem makes_orRecover (forward : item.Forward) (makes : item.Makes [] Stmt.ids) :
    (orRecover item).Makes [] fun found => Stmt.idsAll found.toList := by
  intro low old cursor found after order numbered read
  unfold orRecover at read
  split at read
  · rename_i statement final result
    cases read
    simpa [Stmt.idsAll] using makes low old cursor statement after order numbered result
  · rename_i final result
    cases read
    exact numbered.raise (forward.failed result).1.nextId

theorem makes_statementsUntil (stop : TokenKind → Bool) (forward : item.Forward)
    (makes : item.Makes [] Stmt.ids) (bound : Nat) (done : List Stmt) :
    (statementsUntil stop item bound done).Makes (Stmt.idsAll done.reverse) Stmt.idsAll := by
  induction bound generalizing done with
  | zero => exact .pure _ _
  | succ bound ih =>
    refine .past forward_peek fun token => ?_
    split
    · exact .pure _ _
    · have further := (makes_orRecover forward makes).frame (Stmt.idsAll done.reverse)
      rw [List.append_nil] at further
      refine further.bind (forward_orRecover forward) fun found => ?_
      have joined : Stmt.idsAll done.reverse ++ Stmt.idsAll found.toList =
          Stmt.idsAll (found.toList ++ done).reverse := by
        cases found <;> simp [Stmt.idsAll_append, Stmt.idsAll]
      rw [joined]
      exact ih _

theorem makes_restOfBlock (bound : Nat) (forward : item.Forward) (makes : item.Makes [] Stmt.ids) :
    (restOfBlock bound item).Makes [] Stmt.idsAll :=
  (makes_statementsUntil endsBlock forward makes bound []).bind
    (forwards.statementsUntil _ forward _ _) fun statements =>
      .past (forwards.needSymbol _ _) fun _ => .pure _ statements

theorem makes_initializer (forward : value.Forward) (makes : value.Makes [] Expr.ids) :
    (initializer value).Makes [] Expr.idsOptional :=
  .past (forward_takeKind? _) fun found =>
    match found with
    | none => .pure Expr.idsOptional none
    | some _ => makes.map forward fun _ => rfl

theorem makes_restOfVariable (forward : value.Forward) (makes : value.Makes [] Expr.ids) :
    (restOfVariable value).Makes [] Stmt.ids :=
  .past (forwards.needName _) fun name =>
    (makes_initializer forward makes).bind (forwards.initializer forward) fun initial =>
      .past (forwards.needSymbol _ _) fun _ => .pure Stmt.ids (.var name initial)

theorem makes_restOfFunction (bound : Nat) (forward : block.Forward)
    (makes : block.Makes [] Stmt.idsAll) : (restOfFunction bound block).Makes [] Stmt.ids :=
  .past (forwards.needName _) fun name => .past (forwards.needSymbol _ _) fun _ =>
    .past (forwards.parameters bound) fun names => .past (forwards.needSymbol _ _) fun _ =>
      makes.bind forward fun body => .pure Stmt.ids (.function name names body)

theorem makes_restOfExpression (forward : value.Forward) (makes : value.Makes [] Expr.ids) :
    (restOfExpression value).Makes [] Stmt.ids :=
  makes.bind forward fun result => .past (forwards.needSymbol _ _) fun _ =>
    .pure Stmt.ids (.expression result)

theorem makes_restOfPrint (forward : value.Forward) (makes : value.Makes [] Expr.ids) :
    (restOfPrint value).Makes [] Stmt.ids :=
  makes.bind forward fun result => .past (forwards.needSymbol _ _) fun _ =>
    .pure Stmt.ids (.print result)

theorem makes_restOfReturn (line : Nat) (forward : value.Forward)
    (makes : value.Makes [] Expr.ids) : (restOfReturn line value).Makes [] Stmt.ids := by
  refine .past (forward_takeKind? _) fun found => ?_
  match found with
  | some _ => exact .pure Stmt.ids (.return line none)
  | none =>
    exact makes.bind forward fun result => .past (forwards.needSymbol _ _) fun _ =>
      .pure Stmt.ids (.return line (some result))

theorem makes_restOfIf (valueForward : value.Forward) (innerForward : inner.Forward)
    (valueMakes : value.Makes [] Expr.ids) (innerMakes : inner.Makes [] Stmt.ids) :
    (restOfIf value inner).Makes [] Stmt.ids := by
  refine .past (forwards.needSymbol _ _) fun _ => valueMakes.bind valueForward fun test =>
    .past (forwards.needSymbol _ _) fun _ => ?_
  have yesMakes := innerMakes.frame test.ids
  rw [List.append_nil] at yesMakes
  refine yesMakes.bind innerForward fun yes => .past (forward_takeKind? _) fun found => ?_
  match found with
  | none => exact .pure Stmt.ids (.ifThen test yes)
  | some _ =>
    have noMakes := innerMakes.frame (test.ids ++ yes.ids)
    rw [List.append_nil] at noMakes
    exact noMakes.map innerForward fun no => by simp [Stmt.ids]

theorem makes_restOfWhile (valueForward : value.Forward) (innerForward : inner.Forward)
    (valueMakes : value.Makes [] Expr.ids) (innerMakes : inner.Makes [] Stmt.ids) :
    (restOfWhile value inner).Makes [] Stmt.ids := by
  refine .past (forwards.needSymbol _ _) fun _ => valueMakes.bind valueForward fun test =>
    .past (forwards.needSymbol _ _) fun _ => ?_
  have bodyMakes := innerMakes.frame test.ids
  rw [List.append_nil] at bodyMakes
  exact bodyMakes.bind innerForward fun body => .pure Stmt.ids (.loop test body)

theorem makes_forInitializer (forward : value.Forward) (makes : value.Makes [] Expr.ids) :
    (forInitializer value).Makes [] fun found => Stmt.idsAll found.toList := by
  refine .past (forward_takeKind? _) fun empty => ?_
  match empty with
  | some _ => exact .pure (fun found => Stmt.idsAll found.toList) none
  | none =>
    refine .past (forward_takeKind? _) fun found => ?_
    match found with
    | some _ =>
      exact (makes_restOfVariable forward makes).map (forwards.restOfVariable forward)
        fun _ => by simp [Stmt.idsAll]
    | none =>
      exact (makes_restOfExpression forward makes).map (forwards.restOfExpression forward)
        fun _ => by simp [Stmt.idsAll]

theorem makes_forCondition (line : Nat) (makes : value.Makes [] Expr.ids) :
    (forCondition line value).Makes [] Expr.ids := by
  refine .past forward_peek fun token => ?_
  split
  · exact (makes_newSite _ _).bind (forward_newSite _) fun site =>
      .pure Expr.ids (.literal site (.boolean true))
  · exact makes

theorem makes_forIncrement (forward : value.Forward) (makes : value.Makes [] Expr.ids) :
    (forIncrement value).Makes [] Expr.idsOptional := by
  refine .past forward_peek fun token => ?_
  split
  · exact .pure Expr.idsOptional none
  · exact makes.map forward fun _ => rfl

theorem ids_forLoop (initializer : Option Stmt) (condition : Expr) (increment : Option Expr)
    (body : Stmt) :
    (forLoop initializer condition increment body).ids =
      Stmt.idsAll initializer.toList ++
        (condition.ids ++ (body.ids ++ Expr.idsOptional increment)) := by
  cases initializer <;> cases increment <;>
    simp [forLoop, Stmt.ids, Stmt.idsAll, Expr.idsOptional]

theorem makes_restOfFor (valueForward : value.Forward) (innerForward : inner.Forward)
    (valueMakes : value.Makes [] Expr.ids) (innerMakes : inner.Makes [] Stmt.ids) :
    (restOfFor value inner).Makes [] Stmt.ids := by
  refine .past forward_peek fun next => .past (forwards.needSymbol _ _) fun _ =>
    (makes_forInitializer valueForward valueMakes).bind (forwards.forInitializer valueForward)
      fun initial => ?_
  have conditionMakes := (makes_forCondition next.line valueMakes).frame (Stmt.idsAll initial.toList)
  rw [List.append_nil] at conditionMakes
  refine conditionMakes.bind (forwards.forCondition _ valueForward) fun condition =>
    .past (forwards.needSymbol _ _) fun _ => ?_
  have incrementMakes := (makes_forIncrement valueForward valueMakes).frame
    (Stmt.idsAll initial.toList ++ condition.ids)
  rw [List.append_nil] at incrementMakes
  refine incrementMakes.bind (forwards.forIncrement valueForward) fun increment =>
    .past (forwards.needSymbol _ _) fun _ => ?_
  have bodyMakes := innerMakes.frame
    (Stmt.idsAll initial.toList ++ condition.ids ++ Expr.idsOptional increment)
  rw [List.append_nil] at bodyMakes
  refine bodyMakes.bind innerForward fun body =>
    (Reader.Makes.pure Stmt.ids (forLoop initial condition increment body)).fewer ?_
  rw [ids_forLoop, List.append_assoc, List.append_assoc]
  exact ((List.perm_append_comm.append_left condition.ids).append_left _).subperm

theorem makes_statementWith (valueForward : value.Forward) (blockForward : block.Forward)
    (innerForward : inner.Forward) (valueMakes : value.Makes [] Expr.ids)
    (blockMakes : block.Makes [] Stmt.idsAll) (innerMakes : inner.Makes [] Stmt.ids) :
    (statementWith value block inner).Makes [] Stmt.ids := by
  refine .past (forward_takeIf? _) fun found => ?_
  match found with
  | none => exact makes_restOfExpression valueForward valueMakes
  | some (.if, _) => exact makes_restOfIf valueForward innerForward valueMakes innerMakes
  | some (.while, _) => exact makes_restOfWhile valueForward innerForward valueMakes innerMakes
  | some (.for, _) => exact makes_restOfFor valueForward innerForward valueMakes innerMakes
  | some (.print, _) => exact makes_restOfPrint valueForward valueMakes
  | some (.return, token) => exact makes_restOfReturn token.line valueForward valueMakes
  | some (.block, _) => exact blockMakes.map blockForward fun _ => rfl

theorem makes_declarationWith (bound : Nat) (valueForward : value.Forward)
    (blockForward : block.Forward) (valueMakes : value.Makes [] Expr.ids)
    (blockMakes : block.Makes [] Stmt.idsAll) (innerMakes : inner.Makes [] Stmt.ids) :
    (declarationWith bound value block inner).Makes [] Stmt.ids := by
  refine .past (forward_takeKind? _) fun found => ?_
  match found with
  | some _ => exact makes_restOfVariable valueForward valueMakes
  | none =>
    refine .past (forward_takeKind? _) fun found => ?_
    match found with
    | some _ => exact makes_restOfFunction bound blockForward blockMakes
    | none => exact innerMakes

theorem makes_declaration_statement (bound : Nat) :
    Reader.Makes [] (declaration bound) Stmt.ids ∧ Reader.Makes [] (statement bound) Stmt.ids := by
  induction bound with
  | zero => exact ⟨.fail _, .fail _⟩
  | succ bound ih =>
    obtain ⟨declarationMakes, statementMakes⟩ := ih
    have valueForward := forwards.expression bound
    have blockForward := forwards.restOfBlock bound (forwards.declaration bound)
    have blockMakes := makes_restOfBlock bound (forwards.declaration bound) declarationMakes
    exact ⟨makes_declarationWith bound valueForward blockForward (makes_expression bound)
        blockMakes statementMakes,
      makes_statementWith valueForward blockForward (forwards.statement bound)
        (makes_expression bound) blockMakes statementMakes⟩

/-- Nodes of a program are numbered from where the reading starts to where it ends, each once. -/
theorem parse_numbered (nextId : Nat) (tokens : List Token) :
    Numbered nextId (parse nextId tokens).nextId (Stmt.idsAll (parse nextId tokens).program) := by
  obtain ⟨program, after, read, result⟩ := parse_eq nextId tokens
  have makes := makes_statementsUntil (· == .finish) (forwards.declaration (enough tokens))
    (makes_declaration_statement (enough tokens)).1 (enough tokens) []
  have unused : Numbered nextId nextId [] := ⟨List.nodup_nil, nofun⟩
  rw [result]
  exact makes nextId [] _ program after (Nat.le_refl _) unused read

theorem parse_nextId_le (nextId : Nat) (tokens : List Token) :
    nextId ≤ (parse nextId tokens).nextId := by
  obtain ⟨program, after, read, result⟩ := parse_eq nextId tokens
  rw [result]
  exact ((forwards.statementsUntil _ (forwards.declaration _) _ _).read read).nextId

end Statements

end Grammar
end LoxLang
