import LoxLang.Proofs.Grammar.SeamPrograms

/-!
The grammar without a bound. The readers of phrases call one another, but each call that is not of a
smaller phrase comes behind a token that was taken, and so does each round of a loop. Hence what the
grammar says of its readers leaves no choice: only one reading of each phrase follows it, and that is
the reading with any bound that the tokens pay for.
-/
namespace LoxLang.Grammar

variable {α β : Type}

/-- In front of fewer tokens than `length` both readers do the same. -/
def Reader.Same (length : Nat) (first second : Reader α) : Prop :=
  ∀ cursor : Cursor, cursor.finish.kind = .finish → cursor.rest.length < length →
    first cursor = second cursor

namespace Reader.Same

variable {length : Nat} {first second : Reader α} {next twin : α → Reader β}

theorem refl (reader : Reader α) : reader.Same length reader := fun _ _ _ => rfl

theorem symm (same : first.Same length second) : second.Same length first :=
  fun cursor ends short => (same cursor ends short).symm

theorem trans {third : Reader α} (same : first.Same length second)
    (further : second.Same length third) : first.Same length third :=
  fun cursor ends short => (same cursor ends short).trans (further cursor ends short)

theorem shorter {more : Nat} (same : first.Same more second) (fewer : length ≤ more) :
    first.Same length second :=
  fun cursor ends short => same cursor ends (Nat.lt_of_lt_of_le short fewer)

theorem zero (first second : Reader α) : first.Same 0 second :=
  fun _ _ short => absurd short (Nat.not_lt_zero _)

theorem bind (forward : first.Forward) (same : first.Same length second)
    (further : ∀ value, (next value).Same length (twin value)) :
    (first >>= next).Same length (second >>= twin) := by
  intro cursor ends short
  have ahead := forward cursor
  rw [bind_apply, bind_apply, ← same cursor ends short]
  cases result : first cursor with
  | read value after =>
    rw [result] at ahead
    have onward : cursor.Onward after := ahead
    exact further value after (onward.finish ▸ ends)
      (Nat.lt_of_le_of_lt onward.rest.length_le short)
  | failed after => rfl

theorem after (forward : first.Forward)
    (further : ∀ value, (next value).Same length (twin value)) :
    (first >>= next).Same length (first >>= twin) :=
  bind forward (refl first) further

theorem map {change : α → β} (forward : first.Forward) (same : first.Same length second) :
    (change <$> first).Same length (change <$> second) :=
  bind forward same fun _ => refl _

theorem bind_takeIf {choose : TokenKind → Option α} {next twin : Option (α × Token) → Reader β}
    (leaves : (next none).Same length (twin none))
    (takes : ∀ use token, (next (some (use, token))).Same (length - 1) (twin (some (use, token)))) :
    (takeIf? choose >>= next).Same length (takeIf? choose >>= twin) := by
  rintro ⟨rest, finish, faults, nextId⟩ ends short
  rw [bind_apply, bind_apply]
  cases rest with
  | nil => exact leaves _ ends short
  | cons token rest =>
    simp only [takeIf?]
    cases choose token.kind with
    | none => exact leaves _ ends short
    | some use => exact takes use token _ ends (Nat.lt_sub_of_add_lt short)

theorem bind_takeKind {kind : TokenKind} {next twin : Option Token → Reader β}
    (leaves : (next none).Same length (twin none))
    (takes : ∀ token, (next (some token)).Same (length - 1) (twin (some token))) :
    (takeKind? kind >>= next).Same length (takeKind? kind >>= twin) := by
  rw [takeKind?, bind_assoc, bind_assoc]
  exact bind_takeIf leaves fun _ token => takes token

theorem bind_peek {next twin : Token → Reader β}
    (further : ∀ token, (next token).Same length (twin token)) :
    (peek >>= next).Same length (peek >>= twin) :=
  after forward_peek further

theorem silently (same : first.Same length second) :
    (Grammar.silently first).Same length (Grammar.silently second) := by
  intro cursor ends short
  rw [Grammar.silently, Grammar.silently, same { cursor with faults := #[] } ends short]

end Reader.Same

section Expressions

variable {length bound bound' : Nat} {operand operand' value value' : Reader Expr}

/-- A round of the loop takes an operator, so that there are as many rounds as there are tokens. -/
theorem same_chainFrom (level : Level) (forward : operand.Forward)
    (operands : operand.Same length operand') (enough : length ≤ bound) (enough' : length ≤ bound')
    (left : Expr) :
    (chainFrom level operand bound left).Same length (chainFrom level operand' bound' left) := by
  induction length generalizing bound bound' left with
  | zero => exact .zero _ _
  | succ length ih =>
    obtain ⟨bound, rfl⟩ := Nat.exists_eq_add_one_of_ne_zero (Nat.ne_zero_of_lt enough)
    obtain ⟨bound', rfl⟩ := Nat.exists_eq_add_one_of_ne_zero (Nat.ne_zero_of_lt enough')
    have fewer := operands.shorter (Nat.le_succ length)
    refine .bind_takeIf (.refl _) fun operator token => ?_
    refine .bind forward fewer fun right => ?_
    refine .after (forward_newSite _) fun site => ?_
    exact ih fewer (Nat.le_of_succ_le_succ enough) (Nat.le_of_succ_le_succ enough') _

theorem same_chain (level : Level) (forward : operand.Forward)
    (operands : operand.Same length operand') (enough : length ≤ bound) (enough' : length ≤ bound') :
    (chain bound level operand).Same length (chain bound' level operand') :=
  .bind forward operands (same_chainFrom level forward operands enough enough')

theorem same_comparison (forward : operand.Forward) (operands : operand.Same length operand')
    (enough : length ≤ bound) (enough' : length ≤ bound') :
    (comparison bound operand).Same length (comparison bound' operand') := by
  have factors := same_chain .factor forward operands enough enough'
  have terms := same_chain .term (forwards.chain bound .factor forward) factors enough enough'
  exact same_chain .comparison
    (forwards.chain bound .term (forwards.chain bound .factor forward)) terms enough enough'

theorem same_disjunction (forward : operand.Forward) (operands : operand.Same length operand')
    (enough : length ≤ bound) (enough' : length ≤ bound') :
    (disjunction bound operand).Same length (disjunction bound' operand') := by
  have comparisonForward := forwards.comparison bound forward
  have equalityForward := forwards.chain bound .equality comparisonForward
  have comparisons := same_comparison forward operands enough enough'
  have equalities := same_chain .equality comparisonForward comparisons enough enough'
  have conjunctions := same_chain .conjunction equalityForward equalities enough enough'
  exact same_chain .disjunction (forwards.chain bound .conjunction equalityForward) conjunctions
    enough enough'

theorem same_assignment {target target' : Reader Expr} (targetForward : target.Forward)
    (targets : target.Same length target') (forward : value.Forward)
    (values : value.Same (length - 1) value') :
    (assignment target value).Same length (assignment target' value') := by
  refine .bind targetForward targets fun left => ?_
  refine .bind_takeKind (.refl _) fun sign => ?_
  exact .bind forward values fun right => .refl _

theorem same_argumentsFrom (forward : value.Forward) (values : value.Same length value')
    (enough : length ≤ bound) (enough' : length ≤ bound') (count : Nat) (done : List Expr) :
    (argumentsFrom value bound count done).Same length (argumentsFrom value' bound' count done) := by
  induction length generalizing bound bound' count done with
  | zero => exact .zero _ _
  | succ length ih =>
    obtain ⟨bound, rfl⟩ := Nat.exists_eq_add_one_of_ne_zero (Nat.ne_zero_of_lt enough)
    obtain ⟨bound', rfl⟩ := Nat.exists_eq_add_one_of_ne_zero (Nat.ne_zero_of_lt enough')
    refine .after (forward_checkLimit _ _) fun _ => ?_
    refine .bind forward values fun next => ?_
    refine .bind_takeKind (.refl _) fun comma => ?_
    exact ih (values.shorter (Nat.le_succ length)) (Nat.le_of_succ_le_succ enough)
      (Nat.le_of_succ_le_succ enough') _ _

theorem same_arguments (forward : value.Forward) (values : value.Same length value')
    (enough : length ≤ bound) (enough' : length ≤ bound') :
    (arguments bound value).Same length (arguments bound' value') := by
  refine .bind_peek fun token => ?_
  split
  · exact .refl _
  · exact same_argumentsFrom forward values enough enough' 0 []

theorem same_callsFrom (forward : value.Forward) (values : value.Same (length - 1) value')
    (enough : length ≤ bound) (enough' : length ≤ bound') (callee : Expr) :
    (callsFrom value bound callee).Same length (callsFrom value' bound' callee) := by
  induction length generalizing bound bound' callee with
  | zero => exact .zero _ _
  | succ length ih =>
    obtain ⟨bound, rfl⟩ := Nat.exists_eq_add_one_of_ne_zero (Nat.ne_zero_of_lt enough)
    obtain ⟨bound', rfl⟩ := Nat.exists_eq_add_one_of_ne_zero (Nat.ne_zero_of_lt enough')
    have room := Nat.le_of_succ_le_succ enough
    have room' := Nat.le_of_succ_le_succ enough'
    refine .bind_takeKind (.refl _) fun opening => ?_
    refine .bind (forwards.arguments bound forward) (same_arguments forward values room room')
      fun given => ?_
    refine .after (forwards.needSymbol _ _) fun close => .after (forward_newSite _) fun site => ?_
    exact ih (values.shorter (Nat.sub_le length 1)) room room' _

/-- The token that decides is taken before anything else is read, and the end token never decides. -/
theorem same_primary {inner inner' right right' : Reader Expr} (innerForward : inner.Forward)
    (inners : inner.Same (length - 1) inner') (rightForward : right.Forward)
    (rights : right.Same (length - 1) right') :
    (primary inner right).Same length (primary inner' right') := by
  intro cursor ends short
  rw [primary, primary, Reader.bind_apply, Reader.bind_apply]
  simp only [peek]
  cases kind : cursor.token.kind with
  | symbol sign =>
    have later : cursor.advance.rest.length < length - 1 := by
      have some := List.length_pos_iff.mpr (Cursor.rest_ne_nil ends (by simp [kind]))
      rw [Cursor.advance, List.length_tail]
      omega
    have groups : group inner cursor = group inner' cursor :=
      Reader.Same.bind innerForward inners (fun _ => .refl _) cursor.advance ends later
    have passing : (silently right >>= fun _ => (giveUp : Reader Expr)).Same (length - 1)
        (silently right' >>= fun _ => giveUp) :=
      .bind (forward_silently rightForward) (.silently rights) fun _ => .refl giveUp
    have passes : misplaced right cursor = misplaced right' cursor :=
      passing (cursor.reportAt cursor.token (.missing .leftOperand)).advance ends later
    cases sign <;> first | rfl | exact groups | exact passes
  | keyword word => cases word <;> rfl
  | _ => rfl

theorem same_call {inner inner' right right' : Reader Expr} (innerForward : inner.Forward)
    (inners : inner.Same (length - 1) inner') (rightForward : right.Forward)
    (rights : right.Same (length - 1) right') (enough : length ≤ bound) (enough' : length ≤ bound') :
    (call bound inner right).Same length (call bound' inner' right') :=
  .bind (forwards.primary innerForward rightForward)
    (same_primary innerForward inners rightForward rights)
    (same_callsFrom innerForward inners enough enough')

theorem same_unaryOr {otherwise otherwise' : Reader Expr} (forward : operand.Forward)
    (operands : operand.Same (length - 1) operand') (others : otherwise.Same length otherwise') :
    (unaryOr operand otherwise).Same length (unaryOr operand' otherwise') := by
  refine .bind_takeIf others fun op token => ?_
  exact .bind forward operands fun value => .refl _

end Expressions

section Statements

variable {length bound bound' : Nat} {value value' : Reader Expr} {inner inner' item item' : Reader Stmt}
  {block block' : Reader (List Stmt)}

theorem same_initializer (forward : value.Forward) (values : value.Same length value') :
    (initializer value).Same length (initializer value') :=
  .bind_takeKind (.refl _) fun _ => .map forward (values.shorter (Nat.sub_le length 1))

theorem same_restOfVariable (forward : value.Forward) (values : value.Same length value') :
    (restOfVariable value).Same length (restOfVariable value') := by
  refine .after (forwards.needName _) fun name => ?_
  exact .bind (forwards.initializer forward) (same_initializer forward values) fun _ => .refl _

theorem same_parametersFrom (enough : length ≤ bound) (enough' : length ≤ bound') (count : Nat)
    (done : List Ident) :
    (parametersFrom bound count done).Same length (parametersFrom bound' count done) := by
  induction length generalizing bound bound' count done with
  | zero => exact .zero _ _
  | succ length ih =>
    obtain ⟨bound, rfl⟩ := Nat.exists_eq_add_one_of_ne_zero (Nat.ne_zero_of_lt enough)
    obtain ⟨bound', rfl⟩ := Nat.exists_eq_add_one_of_ne_zero (Nat.ne_zero_of_lt enough')
    refine .bind_takeKind (.refl _) fun comma => ?_
    refine .after (forward_checkLimit _ _) fun _ => .after (forwards.needName _) fun next => ?_
    exact ih (Nat.le_of_succ_le_succ enough) (Nat.le_of_succ_le_succ enough') _ _

theorem same_parameters (enough : length ≤ bound) (enough' : length ≤ bound') :
    (parameters bound).Same length (parameters bound') := by
  refine .bind_takeKind ?_ fun closing => .refl _
  refine .after (forwards.needName _) fun first => ?_
  exact .bind (forwards.parametersFrom bound 1 [first]) (same_parametersFrom enough enough' 1 [first])
    fun names => .refl _

theorem same_restOfFunction (forward : block.Forward) (blocks : block.Same length block')
    (enough : length ≤ bound) (enough' : length ≤ bound') :
    (restOfFunction bound block).Same length (restOfFunction bound' block') := by
  refine .after (forwards.needName _) fun name => .after (forwards.needSymbol _ _) fun _ => ?_
  refine .bind (forwards.parameters bound) (same_parameters enough enough') fun names => ?_
  refine .after (forwards.needSymbol _ _) fun _ => ?_
  exact .bind forward blocks fun body => .refl _

theorem same_statementsUntil {stop : TokenKind → Bool} (stops : stop .finish = true)
    (forward : item.Forward) (closes : item.Closes) (items : item.Same length item')
    (enough : length ≤ bound) (enough' : length ≤ bound') (done : List Stmt) :
    (statementsUntil stop item bound done).Same length (statementsUntil stop item' bound' done) := by
  induction length generalizing bound bound' done with
  | zero => exact .zero _ _
  | succ length ih =>
    obtain ⟨bound, rfl⟩ := Nat.exists_eq_add_one_of_ne_zero (Nat.ne_zero_of_lt enough)
    obtain ⟨bound', rfl⟩ := Nat.exists_eq_add_one_of_ne_zero (Nat.ne_zero_of_lt enough')
    intro cursor ends short
    cases goes : stop cursor.token.kind with
    | true => rw [statementsUntil_stops _ done goes, statementsUntil_stops _ done goes]
    | false =>
      have same : orRecover item cursor = orRecover item' cursor := by
        rw [orRecover, orRecover, items cursor ends short]
      obtain ⟨found, after, read⟩ := orRecover_reads item cursor
      rw [statementsUntil_next bound done goes read,
        statementsUntil_next bound' done goes (same.symm.trans read)]
      have onward := (forward_orRecover forward).read read
      have less := orRecover_length_lt forward closes
        (Cursor.rest_ne_nil_of_goes stops ends goes) read
      exact ih (items.shorter (Nat.le_succ length)) (Nat.le_of_succ_le_succ enough)
        (Nat.le_of_succ_le_succ enough') _ after (onward.finish ▸ ends) (by omega)

theorem same_restOfBlock (forward : item.Forward) (closes : item.Closes)
    (items : item.Same length item') (enough : length ≤ bound) (enough' : length ≤ bound') :
    (restOfBlock bound item).Same length (restOfBlock bound' item') :=
  .bind (forwards.statementsUntil _ forward bound [])
    (same_statementsUntil rfl forward closes items enough enough' []) fun _ => .refl _

theorem same_restOfExpression (forward : value.Forward) (values : value.Same length value') :
    (restOfExpression value).Same length (restOfExpression value') :=
  .bind forward values fun _ => .refl _

theorem same_restOfPrint (forward : value.Forward) (values : value.Same length value') :
    (restOfPrint value).Same length (restOfPrint value') :=
  .bind forward values fun _ => .refl _

theorem same_restOfReturn (line : Nat) (forward : value.Forward) (values : value.Same length value') :
    (restOfReturn line value).Same length (restOfReturn line value') :=
  .bind_takeKind (.bind forward values fun _ => .refl _) fun _ => .refl _

theorem same_restOfIf (forward : value.Forward) (values : value.Same length value')
    (innerForward : inner.Forward) (inners : inner.Same length inner') :
    (restOfIf value inner).Same length (restOfIf value' inner') := by
  refine .after (forwards.needSymbol _ _) fun _ => .bind forward values fun test => ?_
  refine .after (forwards.needSymbol _ _) fun _ => .bind innerForward inners fun yes => ?_
  exact .bind_takeKind (.refl _) fun _ => .map innerForward (inners.shorter (Nat.sub_le length 1))

theorem same_restOfWhile (forward : value.Forward) (values : value.Same length value')
    (innerForward : inner.Forward) (inners : inner.Same length inner') :
    (restOfWhile value inner).Same length (restOfWhile value' inner') := by
  refine .after (forwards.needSymbol _ _) fun _ => .bind forward values fun test => ?_
  exact .after (forwards.needSymbol _ _) fun _ => .bind innerForward inners fun body => .refl _

theorem same_forInitializer (forward : value.Forward) (values : value.Same length value') :
    (forInitializer value).Same length (forInitializer value') := by
  refine .bind_takeKind ?_ fun _ => .refl _
  have fewer := values.shorter (Nat.sub_le length 1)
  refine .bind_takeKind ?_ fun _ => ?_
  · exact .map (forwards.restOfExpression forward) (same_restOfExpression forward values)
  · exact .map (forwards.restOfVariable forward) (same_restOfVariable forward fewer)

theorem same_forCondition (line : Nat) (values : value.Same length value') :
    (forCondition line value).Same length (forCondition line value') := by
  refine .bind_peek fun token => ?_
  split
  · exact .refl _
  · exact values

theorem same_forIncrement (forward : value.Forward) (values : value.Same length value') :
    (forIncrement value).Same length (forIncrement value') := by
  refine .bind_peek fun token => ?_
  split
  · exact .refl _
  · exact .map forward values

theorem same_restOfFor (forward : value.Forward) (values : value.Same length value')
    (innerForward : inner.Forward) (inners : inner.Same length inner') :
    (restOfFor value inner).Same length (restOfFor value' inner') := by
  refine .bind_peek fun token => .after (forwards.needSymbol _ _) fun _ => ?_
  refine .bind (forwards.forInitializer forward) (same_forInitializer forward values) fun first => ?_
  refine .bind (forwards.forCondition _ forward) (same_forCondition _ values) fun test => ?_
  refine .after (forwards.needSymbol _ _) fun _ => ?_
  refine .bind (forwards.forIncrement forward) (same_forIncrement forward values) fun step => ?_
  exact .after (forwards.needSymbol _ _) fun _ => .bind innerForward inners fun body => .refl _

theorem same_statementWith (forward : value.Forward) (values : value.Same length value')
    (blockForward : block.Forward) (blocks : block.Same (length - 1) block')
    (innerForward : inner.Forward) (inners : inner.Same (length - 1) inner') :
    (statementWith value block inner).Same length (statementWith value' block' inner') := by
  have fewer := values.shorter (Nat.sub_le length 1)
  refine .bind_takeIf (same_restOfExpression forward values) fun opening token => ?_
  cases opening with
  | «if» => exact same_restOfIf forward fewer innerForward inners
  | «while» => exact same_restOfWhile forward fewer innerForward inners
  | «for» => exact same_restOfFor forward fewer innerForward inners
  | print => exact same_restOfPrint forward fewer
  | «return» => exact same_restOfReturn token.line forward fewer
  | block => exact .map blockForward blocks

theorem same_declarationWith (forward : value.Forward) (values : value.Same length value')
    (blockForward : block.Forward) (blocks : block.Same (length - 1) block')
    (inners : inner.Same length inner') (enough : length ≤ bound) (enough' : length ≤ bound') :
    (declarationWith bound value block inner).Same length
      (declarationWith bound' value' block' inner') := by
  have less := Nat.sub_le length 1
  refine .bind_takeKind (.bind_takeKind inners fun _ => ?_) fun _ => ?_
  · exact same_restOfFunction blockForward blocks (Nat.le_trans less enough) (Nat.le_trans less enough')
  · exact same_restOfVariable forward (values.shorter less)

end Statements

section Bounds

variable {length bound bound' : Nat} {value value' operand operand' : Reader Expr}
  {item item' inner inner' : Reader Stmt}

theorem same_unaryStep (forward : value.Forward) (values : value.Same (length - 1) value')
    (operandForward : operand.Forward) (operands : operand.Same (length - 1) operand')
    (enough : length ≤ bound) (enough' : length ≤ bound') :
    (unaryOr operand (call bound value (comparison bound operand))).Same length
      (unaryOr operand' (call bound' value' (comparison bound' operand'))) := by
  have less := Nat.sub_le length 1
  have rights := same_comparison operandForward operands (Nat.le_trans less enough)
    (Nat.le_trans less enough')
  have rightForward := forwards.comparison bound operandForward
  exact same_unaryOr operandForward operands
    (same_call forward values rightForward rights enough enough')

theorem same_expressionStep (forward : value.Forward) (values : value.Same (length - 1) value')
    (operandForward : operand.Forward) (operands : operand.Same length operand')
    (enough : length ≤ bound) (enough' : length ≤ bound') :
    (assignment (disjunction bound operand) value).Same length
      (assignment (disjunction bound' operand') value') :=
  same_assignment (forwards.disjunction bound operandForward)
    (same_disjunction operandForward operands enough enough') forward values

theorem same_statementStep (forward : value.Forward) (values : value.Same length value')
    (itemForward : item.Forward) (closes : item.Closes) (items : item.Same (length - 1) item')
    (innerForward : inner.Forward) (inners : inner.Same (length - 1) inner')
    (enough : length ≤ bound) (enough' : length ≤ bound') :
    (statementWith value (restOfBlock bound item) inner).Same length
      (statementWith value' (restOfBlock bound' item') inner') := by
  have less := Nat.sub_le length 1
  have blocks := same_restOfBlock itemForward closes items (Nat.le_trans less enough)
    (Nat.le_trans less enough')
  exact same_statementWith forward values (forwards.restOfBlock bound itemForward) blocks
    innerForward inners

theorem same_declarationStep (forward : value.Forward) (values : value.Same length value')
    (itemForward : item.Forward) (closes : item.Closes) (items : item.Same (length - 1) item')
    (inners : inner.Same length inner') (enough : length ≤ bound) (enough' : length ≤ bound') :
    (declarationWith bound value (restOfBlock bound item) inner).Same length
      (declarationWith bound' value' (restOfBlock bound' item') inner') := by
  have less := Nat.sub_le length 1
  have blocks := same_restOfBlock itemForward closes items (Nat.le_trans less enough)
    (Nat.le_trans less enough')
  exact same_declarationWith forward values (forwards.restOfBlock bound itemForward) blocks inners
    enough enough'

/-- The bound does not matter once the tokens pay for it. The induction is on their number; a unary
expression comes first, for an expression begins with one in front of the same tokens. -/
theorem same_expression_unary (length : Nat) :
    (∀ bound bound', 2 * length < bound → 2 * length < bound' →
      Reader.Same length (expression bound) (expression bound')) ∧
    (∀ bound bound', 2 * length ≤ bound → 2 * length ≤ bound' →
      Reader.Same length (unary bound) (unary bound')) := by
  induction length with
  | zero => exact ⟨fun _ _ _ _ => .zero _ _, fun _ _ _ _ => .zero _ _⟩
  | succ length ih =>
    obtain ⟨expressions, unaries⟩ := ih
    -- The unary phrase first, as an expression begins with one at the same place.
    have longer : ∀ bound bound', 2 * (length + 1) ≤ bound → 2 * (length + 1) ≤ bound' →
        Reader.Same (length + 1) (unary bound) (unary bound') := by
      rintro (_ | bound) (_ | bound') enough enough'
      case succ.succ =>
        exact same_unaryStep (forwards.expression bound)
          (expressions bound bound' (by omega) (by omega)) (forwards.unary bound)
          (unaries bound bound' (by omega) (by omega)) (by omega) (by omega)
      all_goals omega
    refine ⟨?_, longer⟩
    rintro (_ | bound) (_ | bound') enough enough'
    case succ.succ =>
      exact same_expressionStep (forwards.expression bound)
        (expressions bound bound' (by omega) (by omega)) (forwards.unary bound)
        (longer bound bound' (by omega) (by omega)) (by omega) (by omega)
    all_goals omega

theorem same_expression (enough : 2 * length < bound) (enough' : 2 * length < bound') :
    Reader.Same length (expression bound) (expression bound') :=
  (same_expression_unary length).1 bound bound' enough enough'

theorem same_unary (enough : 2 * length ≤ bound) (enough' : 2 * length ≤ bound') :
    Reader.Same length (unary bound) (unary bound') :=
  (same_expression_unary length).2 bound bound' enough enough'

theorem same_declaration_statement (length : Nat) :
    (∀ bound bound', 2 * length + 2 < bound → 2 * length + 2 < bound' →
      Reader.Same length (declaration bound) (declaration bound')) ∧
    (∀ bound bound', 2 * length + 1 < bound → 2 * length + 1 < bound' →
      Reader.Same length (statement bound) (statement bound')) := by
  induction length with
  | zero => exact ⟨fun _ _ _ _ => .zero _ _, fun _ _ _ _ => .zero _ _⟩
  | succ length ih =>
    obtain ⟨declarations, statements⟩ := ih
    have longer : ∀ bound bound', 2 * (length + 1) + 1 < bound → 2 * (length + 1) + 1 < bound' →
        Reader.Same (length + 1) (statement bound) (statement bound') := by
      rintro (_ | bound) (_ | bound') enough enough'
      case succ.succ =>
        exact same_statementStep (forwards.expression bound)
          (same_expression (by omega) (by omega)) (forwards.declaration bound)
          (closes_declaration_statement bound).1
          (declarations bound bound' (by omega) (by omega)) (forwards.statement bound)
          (statements bound bound' (by omega) (by omega)) (by omega) (by omega)
      all_goals omega
    refine ⟨?_, longer⟩
    rintro (_ | bound) (_ | bound') enough enough'
    case succ.succ =>
      exact same_declarationStep (forwards.expression bound)
        (same_expression (by omega) (by omega)) (forwards.declaration bound)
        (closes_declaration_statement bound).1
        (declarations bound bound' (by omega) (by omega))
        (longer bound bound' (by omega) (by omega)) (by omega) (by omega)
    all_goals omega

theorem same_declaration (enough : 2 * length + 2 < bound) (enough' : 2 * length + 2 < bound') :
    Reader.Same length (declaration bound) (declaration bound') :=
  (same_declaration_statement length).1 bound bound' enough enough'

theorem same_statement (enough : 2 * length + 1 < bound) (enough' : 2 * length + 1 < bound') :
    Reader.Same length (statement bound) (statement bound') :=
  (same_declaration_statement length).2 bound bound' enough enough'

end Bounds

section Equations

/-- Readers of the phrases that call one another. -/
structure Phrases where
  expression : Reader Expr
  unary : Reader Expr
  declaration : Reader Stmt
  statement : Reader Stmt

/-- The readers follow the grammar, with no bound on how deep they call one another, and with as many
rounds for every loop as one likes beyond the tokens that are left. -/
structure Phrases.Recursive (phrases : Phrases) : Prop where
  expression : ∀ rounds, phrases.expression.Same rounds
    (assignment (disjunction rounds phrases.unary) phrases.expression)
  unary : ∀ rounds, phrases.unary.Same rounds (unaryOr phrases.unary
    (call rounds phrases.expression (comparison rounds phrases.unary)))
  declaration : ∀ rounds, phrases.declaration.Same rounds (declarationWith rounds phrases.expression
    (restOfBlock rounds phrases.declaration) phrases.statement)
  statement : ∀ rounds, phrases.statement.Same rounds (statementWith phrases.expression
    (restOfBlock rounds phrases.declaration) phrases.statement)

structure Phrases.Same (length : Nat) (first second : Phrases) : Prop where
  expression : first.expression.Same length second.expression
  unary : first.unary.Same length second.unary
  declaration : first.declaration.Same length second.declaration
  statement : first.statement.Same length second.statement

def Phrases.bounded (bound : Nat) : Phrases :=
  ⟨Grammar.expression bound, Grammar.unary bound, Grammar.declaration bound, Grammar.statement bound⟩

/-- A reader with a bound, used with as much as the tokens that are left can need. -/
def paid (reader : Nat → Reader α) : Reader α := fun cursor =>
  reader (2 * (cursor.rest.length + 3)) cursor

def Phrases.whole : Phrases :=
  ⟨paid Grammar.expression, paid Grammar.unary, paid Grammar.declaration, paid Grammar.statement⟩

theorem forward_paid {reader : Nat → Reader α} (forward : ∀ bound, (reader bound).Forward) :
    (paid reader).Forward :=
  fun cursor => forward _ cursor

theorem closes_paid {reader : Nat → Reader Stmt} (closes : ∀ bound, (reader bound).Closes) :
    (paid reader).Closes :=
  fun cursor => closes _ cursor

variable {length bound : Nat} {phrases : Phrases}

theorem same_paid {reader : Nat → Reader α}
    (same : ∀ {length bound bound'}, 2 * length + 2 < bound → 2 * length + 2 < bound' →
      (reader bound).Same length (reader bound'))
    (enough : 2 * length + 2 < bound) : (reader bound).Same length (paid reader) := by
  intro cursor ends short
  exact same (by omega) (by omega) cursor ends (Nat.lt_succ_self cursor.rest.length)

theorem Phrases.same_whole (enough : 2 * length + 2 < bound) :
    (bounded bound).Same length whole where
  expression := same_paid (fun some some' => same_expression (by omega) (by omega)) enough
  unary := same_paid (fun some some' => same_unary (by omega) (by omega)) enough
  declaration := same_paid same_declaration enough
  statement := same_paid (fun some some' => same_statement (by omega) (by omega)) enough

theorem Phrases.whole_recursive : whole.Recursive := by
  constructor
  all_goals intro rounds
  all_goals have enough : 2 * rounds + 2 < 2 * rounds + 3 := Nat.lt_succ_self _
  all_goals have here := same_whole (Nat.lt_succ_of_lt enough)
  all_goals have ⟨expressions, unaries, declarations, statements⟩ := same_whole enough
  all_goals have less := Nat.sub_le rounds 1
  case expression =>
    exact here.expression.symm.trans <| same_expressionStep (forwards.expression _)
      (expressions.shorter less) (forwards.unary _) unaries (by omega) (Nat.le_refl rounds)
  case unary =>
    exact here.unary.symm.trans <| same_unaryStep (forwards.expression _)
      (expressions.shorter less) (forwards.unary _) (unaries.shorter less) (by omega)
      (Nat.le_refl rounds)
  case declaration =>
    exact here.declaration.symm.trans <| same_declarationStep (forwards.expression _) expressions
      (forwards.declaration _) (closes_declaration_statement _).1 (declarations.shorter less)
      statements (by omega) (Nat.le_refl rounds)
  case statement =>
    exact here.statement.symm.trans <| same_statementStep (forwards.expression _) expressions
      (forwards.declaration _) (closes_declaration_statement _).1 (declarations.shorter less)
      (forwards.statement _) (statements.shorter less) (by omega) (Nat.le_refl rounds)

/-- Whatever follows the grammar reads as the bounded readers do. The induction is on the tokens, and
goes from the tightest phrase to the loosest. -/
theorem Phrases.Recursive.same (recursive : phrases.Recursive) (length : Nat) :
    whole.Same length phrases := by
  induction length with
  | zero => exact ⟨.zero _ _, .zero _ _, .zero _ _, .zero _ _⟩
  | succ length ih =>
    obtain ⟨expressions, unaries, declarations, statements⟩ := ih
    have enough := Nat.le_refl (length + 1)
    have forward := forward_paid forwards.expression
    have itemForward := forward_paid forwards.declaration
    have closes := closes_paid fun bound => (closes_declaration_statement bound).1
    -- Each phrase follows the grammar on both sides, with smaller parts that are the same by now.
    have unary : whole.unary.Same (length + 1) phrases.unary := by
      refine ((whole_recursive.unary _).trans ?_).trans (recursive.unary _).symm
      exact same_unaryStep forward expressions (forward_paid forwards.unary) unaries enough enough
    have expression : whole.expression.Same (length + 1) phrases.expression := by
      refine ((whole_recursive.expression _).trans ?_).trans (recursive.expression _).symm
      exact same_expressionStep forward expressions (forward_paid forwards.unary) unary enough enough
    have statement : whole.statement.Same (length + 1) phrases.statement := by
      refine ((whole_recursive.statement _).trans ?_).trans (recursive.statement _).symm
      exact same_statementStep forward expression itemForward closes declarations
        (forward_paid forwards.statement) statements enough enough
    have declaration : whole.declaration.Same (length + 1) phrases.declaration := by
      refine ((whole_recursive.declaration _).trans ?_).trans (recursive.declaration _).symm
      exact same_declarationStep forward expression itemForward closes declarations statement
        enough enough
    exact ⟨expression, unary, declaration, statement⟩

def Phrases.program (phrases : Phrases) (rounds : Nat) : Reader Program :=
  statementsUntil (· == .finish) phrases.declaration rounds []

theorem Phrases.Recursive.same_program (recursive : phrases.Recursive) {rounds : Nat}
    (enough : 2 * length + 2 < bound) (room : length ≤ rounds) :
    (statementsUntil (· == .finish) (Grammar.declaration bound) bound []).Same length
      (phrases.program rounds) :=
  same_statementsUntil rfl (forwards.declaration bound) (closes_declaration_statement bound).1
    ((same_whole enough).declaration.trans (recursive.same length).declaration) (by omega) room []

end Equations
end LoxLang.Grammar
