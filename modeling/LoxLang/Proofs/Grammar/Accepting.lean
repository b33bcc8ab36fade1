import LoxLang.Proofs.Grammar.Progress
import LoxLang.Proofs.Grammar.Precedence

/-!
Readers that report nothing. Faults are never taken back, so a reader that has reported nothing by the
end has reported nothing in any of its parts, and what it has taken is well-formed part by part.
-/
namespace LoxLang.Grammar

variable {α β : Type}

structure Cursor.FromSource (cursor : Cursor) : Prop where
  rest : ∀ token ∈ cursor.rest, token.FromSource
  finish : cursor.finish.kind = .finish

theorem Cursor.FromSource.onward {before after : Cursor} (source : before.FromSource)
    (ahead : before.Onward after) : after.FromSource :=
  ⟨fun token member => source.rest token (ahead.rest.subset member),
    (congrArg Token.kind ahead.finish).trans source.finish⟩

/-- What is known of a value, of the tokens taken for it and of those left, if nothing is reported. -/
def Reader.Accepts (reader : Reader α) (holds : α → List Token → List Token → Prop) : Prop :=
  reader.Forward ∧ ∀ cursor value after, cursor.FromSource → reader cursor = .read value after →
    after.faults.size ≤ cursor.faults.size →
    ∃ tokens, cursor.rest = tokens ++ after.rest ∧ holds value tokens after.rest

namespace Reader.Accepts

variable {first reader : Reader α} {next : α → Reader β}
  {holds less : α → List Token → List Token → Prop} {last : β → List Token → List Token → Prop}

theorem pure {value : α} (true : ∀ left, holds value [] left) :
    (Pure.pure value : Reader α).Accepts holds := by
  refine ⟨.pure value, fun cursor result after _ read _ => ?_⟩
  cases read
  exact ⟨[], rfl, true cursor.rest⟩

theorem bind (start : first.Accepts holds)
    (further : ∀ value, (next value).Accepts fun result tokens left =>
      ∀ before, holds value before (tokens ++ left) → last result (before ++ tokens) left) :
    (first >>= next).Accepts last := by
  refine ⟨start.1.bind fun value => (further value).1, fun cursor result after source read quiet => ?_⟩
  obtain ⟨value, middle, readFirst, readNext⟩ := bind_eq_read.mp read
  have ahead := start.1.read readFirst
  have onward := (further value).1.read readNext
  obtain ⟨before, here, true⟩ :=
    start.2 cursor value middle source readFirst (Nat.le_trans onward.size_le quiet)
  obtain ⟨tokens, there, done⟩ := (further value).2 middle result after (source.onward ahead) readNext
    (Nat.le_trans quiet ahead.size_le)
  refine ⟨before ++ tokens, ?_, done before (there ▸ true)⟩
  rw [here, there, List.append_assoc]

theorem weaken (accepts : reader.Accepts holds)
    (weaker : ∀ value tokens left, holds value tokens left → less value tokens left) :
    reader.Accepts less := by
  refine ⟨accepts.1, fun cursor value after source read quiet => ?_⟩
  obtain ⟨tokens, here, true⟩ := accepts.2 cursor value after source read quiet
  exact ⟨tokens, here, weaker value tokens after.rest true⟩

theorem map {change : α → β} (accepts : reader.Accepts holds)
    (changed : ∀ value tokens left, holds value tokens left → last (change value) tokens left) :
    (change <$> reader).Accepts last := by
  refine accepts.bind fun value => .pure fun left before true => ?_
  rw [List.append_nil]
  exact changed value before left true

theorem never (forward : reader.Forward)
    (fails : ∀ cursor value after, reader cursor ≠ .read value after) : reader.Accepts holds :=
  ⟨forward, fun cursor value after _ read => absurd read (fails cursor value after)⟩

end Reader.Accepts

section Primitives

def Chosen (choose : TokenKind → Option α) :
    Option (α × Token) → List Token → List Token → Prop
  | none, tokens, left => tokens = [] ∧ ∀ token ∈ left.head?, choose token.kind = none
  | some (use, token), tokens, _ =>
    tokens = [token] ∧ token.FromSource ∧ choose token.kind = some use

def Taken (kind : TokenKind) : Option Token → List Token → List Token → Prop
  | none, tokens, left => tokens = [] ∧ ∀ token ∈ left.head?, token.kind ≠ kind
  | some token, tokens, _ => tokens = [token] ∧ token.FromSource ∧ token.kind = kind

theorem accepts_takeIf? (choose : TokenKind → Option α) :
    (takeIf? choose).Accepts (Chosen choose) := by
  refine ⟨forward_takeIf? choose, fun cursor found after source read _ => ?_⟩
  unfold takeIf? at read
  split at read
  · rename_i empty
    cases read
    exact ⟨[], rfl, rfl, by rw [empty]; nofun⟩
  · rename_i token rest here
    split at read
    · rename_i useless
      cases read
      refine ⟨[], rfl, rfl, ?_⟩
      rw [here]
      rintro _ ⟨⟩
      exact useless
    · rename_i use chosen
      cases read
      exact ⟨[token], here, rfl, source.rest token (here ▸ .head _), chosen⟩

theorem accepts_takeKind? (kind : TokenKind) : (takeKind? kind).Accepts (Taken kind) := by
  refine (accepts_takeIf? _).bind fun found => ?_
  match found with
  | none =>
    refine .pure ?_
    rintro left before ⟨rfl, apart⟩
    exact ⟨rfl, fun token next same => by simpa [same] using apart token next⟩
  | some (_, token) =>
    refine .pure ?_
    rintro left before ⟨rfl, source, chosen⟩
    exact ⟨rfl, source, by simpa using chosen⟩

theorem accepts_fail (cause : StaticCause) (holds : α → List Token → List Token → Prop) :
    (fail cause : Reader α).Accepts holds := .never (forward_fail cause) fun _ _ _ => nofun

theorem accepts_needSymbol (symbol : Symbol) (part : Part) :
    (needSymbol symbol part).Accepts fun token tokens _ =>
      tokens = [token] ∧ token.kind = .symbol symbol := by
  refine (accepts_takeKind? _).bind fun found => ?_
  match found with
  | none => exact accepts_fail _ _
  | some token =>
    refine .pure ?_
    rintro left before ⟨rfl, _, kind⟩
    exact ⟨rfl, kind⟩

theorem accepts_needName (part : Part) :
    (needName part).Accepts fun name tokens _ => Names name tokens := by
  refine (accepts_takeKind? _).bind fun found => ?_
  match found with
  | none => exact accepts_fail _ _
  | some token =>
    refine .pure ?_
    rintro left before ⟨rfl, source, kind⟩
    exact ⟨token, rfl, source, kind, rfl⟩

theorem accepts_newSite (line : Nat) :
    (newSite line).Accepts fun site tokens _ => tokens = [] ∧ site.line = line := by
  refine ⟨forward_newSite line, fun cursor site after _ read _ => ?_⟩
  cases read
  exact ⟨[], rfl, rfl, rfl⟩

theorem Cursor.reportAt_not_quiet (cursor : Cursor) (token : Token) (cause : StaticCause) :
    ¬(cursor.reportAt token cause).faults.size ≤ cursor.faults.size := by
  simp [Cursor.reportAt]

theorem accepts_report (token : Token) (cause : StaticCause) :
    (report token cause).Accepts fun _ _ _ => False := by
  refine ⟨forward_report token cause, fun cursor value after _ read quiet => ?_⟩
  cases read
  exact absurd quiet (cursor.reportAt_not_quiet token cause)

theorem accepts_checkLimit (count : Nat) (cause : StaticCause) :
    (checkLimit count cause).Accepts fun _ tokens _ => tokens = [] ∧ count < maxItems := by
  refine ⟨forward_checkLimit count cause, fun cursor value after source read quiet => ?_⟩
  unfold checkLimit at read
  split at read
  · cases read
    exact absurd quiet (cursor.reportAt_not_quiet cursor.token cause)
  · rename_i within
    cases read
    exact ⟨[], rfl, rfl, Nat.not_le.mp within⟩

def Seen (token : Token) (left : List Token) : Prop :=
  (∃ tail, left = token :: tail) ∨ left = [] ∧ token.kind = .finish

theorem Seen.first {token first : Token} {tail : List Token} (seen : Seen token (first :: tail)) :
    first = token := by
  rcases seen with ⟨_, same⟩ | ⟨never, _⟩
  · exact (List.cons.inj same).1
  · cases never

theorem Seen.finish {token : Token} (seen : Seen token []) : token.kind = .finish := by
  rcases seen with ⟨_, never⟩ | ⟨_, finish⟩
  · cases never
  · exact finish

theorem accepts_peek : peek.Accepts fun token tokens left => tokens = [] ∧ Seen token left := by
  refine ⟨forward_peek, fun cursor token after source read _ => ?_⟩
  cases read
  refine ⟨[], rfl, rfl, ?_⟩
  unfold Cursor.token
  split
  · rename_i empty
    exact .inr ⟨empty, source.finish⟩
  · rename_i token rest here
    exact .inl ⟨rest, here⟩

theorem accepts_take :
    take.Accepts fun token tokens left =>
      (tokens = [token] ∧ token.FromSource) ∨ tokens = [] ∧ left = [] := by
  refine ⟨forward_take, ?_⟩
  rintro ⟨_ | ⟨token, rest⟩, finish, faults, nextId⟩ found after source read _
  · cases read
    exact ⟨[], rfl, .inr ⟨rfl, rfl⟩⟩
  · cases read
    exact ⟨[token], rfl, .inl ⟨rfl, source.rest token (.head _)⟩⟩

end Primitives

section Expressions

structure Reads (loosest : Rank) (tree : Expr) (tokens : List Token) : Prop where
  levelled : WellLevelled tree
  tight : loosest ≤ rank tree
  spells : Spells tree tokens

theorem Reads.operator {operator : Operator} {left right : Expr} {before after : List Token}
    {sign : Token} {site : Site} (leftReads : Reads operator.rank left before)
    (kind : operator.kind = sign.kind) (rightReads : Reads operator.level.tighter right after)
    (line : site.line = sign.line) :
    Reads operator.rank (operator.apply site left right) (before ++ sign :: after) := by
  obtain ⟨levelledLeft, tightLeft, spellsLeft⟩ := leftReads
  obtain ⟨levelledRight, tightRight, spellsRight⟩ := rightReads
  have tighter : operator.rank < rank right := Nat.lt_of_lt_of_le operator.level.lt_tighter tightRight
  obtain ⟨id, _⟩ := site
  cases line
  cases operator with
  | binary op =>
    exact ⟨.binary levelledLeft tightLeft levelledRight tighter, Nat.le_refl _,
      .binary spellsLeft kind.symm spellsRight⟩
  | logical op =>
    exact ⟨.logical levelledLeft tightLeft levelledRight tighter, Nat.le_refl _,
      .logical spellsLeft kind.symm spellsRight⟩

variable {operand argument inner right : Reader Expr}

theorem accepts_chainFrom {level : Level}
    (operands : operand.Accepts fun tree tokens _ => Reads level.tighter tree tokens) (bound : Nat)
    (left : Expr) :
    (chainFrom level operand bound left).Accepts fun tree tokens _ =>
      ∀ before, Reads (.chain level) left before → Reads (.chain level) tree (before ++ tokens) := by
  induction bound generalizing left with
  | zero => exact .pure fun _ before reads => by rwa [List.append_nil]
  | succ bound ih =>
    refine (accepts_takeIf? _).bind fun found => ?_
    match found with
    | none =>
      refine .pure ?_
      rintro _ _ ⟨rfl, _⟩ before reads
      rwa [List.append_nil, List.append_nil]
    | some (operator, token) =>
      refine operands.bind fun other => (accepts_newSite _).bind fun site => (ih _).weaken ?_
      rintro tree tokens _ further _ ⟨rfl, line⟩ after otherReads _ ⟨rfl, _, chosen⟩ before reads
      obtain ⟨rfl, kind⟩ := operator?_eq_some.mp chosen
      have whole := further (before ++ token :: after) (reads.operator kind otherReads line)
      simpa using whole

theorem Reads.loosen {loose tight : Rank} {tree : Expr} {tokens : List Token}
    (reads : Reads tight tree tokens) (looser : loose ≤ tight) : Reads loose tree tokens :=
  ⟨reads.levelled, Nat.le_trans looser reads.tight, reads.spells⟩

theorem accepts_chain (bound : Nat) (level : Level)
    (operands : operand.Accepts fun tree tokens _ => Reads level.tighter tree tokens) :
    (chain bound level operand).Accepts fun tree tokens _ => Reads (.chain level) tree tokens :=
  operands.bind fun left => (accepts_chainFrom operands bound left).weaken
    fun _ _ _ further before reads =>
      further before (reads.loosen (Nat.le_of_lt level.lt_tighter))

theorem accepts_disjunction (bound : Nat)
    (operands : operand.Accepts fun tree tokens _ => Reads .unary tree tokens) :
    (disjunction bound operand).Accepts fun tree tokens _ =>
      Reads (.chain .disjunction) tree tokens := by
  have factors : (factor bound operand).Accepts _ := accepts_chain bound .factor operands
  have terms : (term bound operand).Accepts _ := accepts_chain bound .term factors
  have comparisons : (comparison bound operand).Accepts _ := accepts_chain bound .comparison terms
  have equalities : (equality bound operand).Accepts _ := accepts_chain bound .equality comparisons
  have conjunctions : (conjunction bound operand).Accepts _ :=
    accepts_chain bound .conjunction equalities
  exact accepts_chain bound .disjunction conjunctions

theorem accepts_assignment {target value : Reader Expr}
    (targets : target.Accepts fun tree tokens _ => Reads (.chain .disjunction) tree tokens)
    (values : value.Accepts fun tree tokens _ => Reads .assignment tree tokens) :
    (assignment target value).Accepts fun tree tokens _ => Reads .assignment tree tokens := by
  refine targets.bind fun left => (accepts_takeKind? _).bind fun found => ?_
  match found with
  | none =>
    refine .pure ?_
    rintro _ _ ⟨rfl, _⟩ before reads
    rw [List.append_nil, List.append_nil]
    exact reads.loosen (Nat.zero_le _)
  | some sign =>
    refine values.bind fun right => ?_
    split
    · rename_i site name
      refine (accepts_newSite _).bind fun fresh => .pure ?_
      rintro _ _ ⟨rfl, line⟩ after valueReads _ ⟨rfl, _, equal⟩ before reads
      obtain ⟨named, _, spells⟩ := reads
      obtain ⟨id, _⟩ := fresh
      cases line
      cases spells with
      | «variable» kind =>
        cases named with
        | «variable» named =>
          rw [List.append_nil, List.append_nil]
          exact ⟨.assign named valueReads.levelled, Nat.le_refl _,
            .assign kind equal valueReads.spells⟩
    · refine (accepts_report _ _).bind fun _ => .pure ?_
      intro _ _ never
      exact never.elim

def ReadsMore (done : List Expr) (count : Nat) (values : List Expr) (tokens : List Token) : Prop :=
  ∃ more, values = done.reverse ++ more ∧ Separated (Reads .assignment) more tokens ∧
    count + more.length ≤ maxItems

theorem accepts_argumentsFrom
    (covers : argument.Accepts fun tree tokens _ => Reads .assignment tree tokens)
    (bound count : Nat) (done : List Expr) :
    (argumentsFrom argument bound count done).Accepts fun values tokens _ =>
      ReadsMore done count values tokens := by
  induction bound generalizing count done with
  | zero => exact accepts_fail _ _
  | succ bound ih =>
    refine (accepts_checkLimit _ _).bind fun _ => covers.bind fun next =>
      (accepts_takeKind? _).bind fun found => ?_
    match found with
    | none =>
      refine .pure ?_
      rintro _ _ ⟨rfl, _⟩ before reads _ ⟨rfl, within⟩
      rw [List.append_nil, List.append_nil]
      exact ⟨[next], by simp, .last reads, within⟩
    | some comma =>
      refine (ih _ _).weaken ?_
      rintro values tokens _ ⟨more, rfl, separated, within⟩ _ ⟨rfl, _, kind⟩ before reads _ ⟨rfl, _⟩
      refine ⟨next :: more, by simp, .more reads kind separated, ?_⟩
      rw [List.length_cons]
      omega

theorem accepts_arguments (bound : Nat)
    (covers : argument.Accepts fun tree tokens _ => Reads .assignment tree tokens) :
    (arguments bound argument).Accepts fun values tokens _ =>
      Listed (Reads .assignment) values tokens ∧ values.length ≤ maxItems := by
  refine accepts_peek.bind fun token => ?_
  split
  · refine .pure ?_
    rintro _ _ ⟨rfl, _⟩
    exact ⟨.none, Nat.zero_le _⟩
  · refine (accepts_argumentsFrom covers bound 0 []).weaken ?_
    rintro _ tokens _ ⟨more, rfl, separated, within⟩ _ ⟨rfl, _⟩
    rw [Nat.zero_add] at within
    exact ⟨.some separated, within⟩

theorem Listed.imp {α : Type} {item wider : α → List Token → Prop} {values : List α}
    {tokens : List Token} (listed : Listed item values tokens)
    (weaker : ∀ value tokens, item value tokens → wider value tokens) :
    Listed wider values tokens := by
  cases listed with
  | none => exact .none
  | some separated =>
    refine .some ?_
    induction separated with
    | last holds => exact .last (weaker _ _ holds)
    | more holds kind _ ih => exact .more (weaker _ _ holds) kind ih

theorem Listed.mem {α : Type} {item : α → List Token → Prop} {values : List α}
    {tokens : List Token} (listed : Listed item values tokens) {value : α} (member : value ∈ values) :
    ∃ part, item value part := by
  cases listed with
  | none => cases member
  | some separated =>
    induction separated with
    | last holds =>
      rw [List.mem_singleton.mp member]
      exact ⟨_, holds⟩
    | more holds _ _ ih =>
      rcases List.mem_cons.mp member with rfl | later
      · exact ⟨_, holds⟩
      · exact ih later

theorem accepts_callsFrom
    (covers : argument.Accepts fun tree tokens _ => Reads .assignment tree tokens) (bound : Nat)
    (callee : Expr) :
    (callsFrom argument bound callee).Accepts fun tree tokens _ =>
      ∀ before, Reads .call callee before → Reads .call tree (before ++ tokens) := by
  induction bound generalizing callee with
  | zero => exact .pure fun _ before reads => by rwa [List.append_nil]
  | succ bound ih =>
    refine (accepts_takeKind? _).bind fun found => ?_
    match found with
    | none =>
      refine .pure ?_
      rintro _ _ ⟨rfl, _⟩ before reads
      rwa [List.append_nil, List.append_nil]
    | some opening =>
      refine (accepts_arguments bound covers).bind fun values => (accepts_needSymbol _ _).bind
        fun closing => (accepts_newSite _).bind fun site => (ih _).weaken ?_
      rintro tree tokens _ further _ ⟨rfl, line⟩ _ ⟨rfl, closes⟩ inside ⟨listed, within⟩ _
        ⟨rfl, _, opens⟩ before reads
      have called : Reads .call (.call site callee values)
          (before ++ opening :: (inside ++ [closing])) := by
        obtain ⟨id, _⟩ := site
        cases line
        refine ⟨.call reads.levelled reads.tight within fun value member => ?_, Nat.le_refl _,
          .call reads.spells opens (listed.imp fun _ _ reads => reads.spells) closes⟩
        obtain ⟨_, read⟩ := listed.mem member
        exact read.levelled
      have whole := further _ called
      simpa using whole

theorem accepts_literal {token : Token} {value : Literal} (stands : token.value? = some value) :
    (literal token value).Accepts fun tree tokens left =>
      Seen token (tokens ++ left) → Reads .primary tree tokens := by
  refine accepts_take.bind fun first => (accepts_newSite _).bind fun site => .pure ?_
  rintro left _ ⟨rfl, line⟩ _ (⟨rfl, source⟩ | ⟨rfl, rfl⟩) seen
  · cases seen.first
    obtain ⟨id, _⟩ := site
    cases line
    exact ⟨.literal ⟨token, source, stands⟩, Nat.le_refl _, .literal stands⟩
  · simp [Token.value?, seen.finish] at stands

theorem accepts_variable {token : Token} (kind : token.kind = .identifier) :
    (do
      let _ ← take
      let site ← newSite token.line
      pure (.variable site token.lexeme) : Reader Expr).Accepts fun tree tokens left =>
      Seen token (tokens ++ left) → Reads .primary tree tokens := by
  refine accepts_take.bind fun first => (accepts_newSite _).bind fun site => .pure ?_
  rintro left _ ⟨rfl, line⟩ _ (⟨rfl, source⟩ | ⟨rfl, rfl⟩) seen
  · cases seen.first
    obtain ⟨id, _⟩ := site
    cases line
    exact ⟨.variable ⟨token, source, kind, rfl⟩, Nat.le_refl _, .variable kind⟩
  · cases kind.symm.trans seen.finish

theorem accepts_group {token : Token} (opens : token.kind = .symbol .leftParen)
    (covers : inner.Accepts fun tree tokens _ => Reads .assignment tree tokens) :
    (group inner).Accepts fun tree tokens left =>
      Seen token (tokens ++ left) → Reads .primary tree tokens := by
  refine accepts_take.bind fun paren => covers.bind fun value => (accepts_needSymbol _ _).bind
    fun closing => (accepts_newSite _).bind fun site => .pure ?_
  rintro left _ ⟨rfl, line⟩ _ ⟨rfl, closes⟩ inside reads _ (⟨rfl, _⟩ | ⟨rfl, empty⟩) seen
  · cases seen.first
    obtain ⟨id, _⟩ := site
    cases line
    exact ⟨.group reads.levelled, Nat.le_refl _, .group opens reads.spells closes⟩
  · simp at empty

theorem accepts_primary
    (covers : inner.Accepts fun tree tokens _ => Reads .assignment tree tokens)
    (forward : right.Forward) :
    (primary inner right).Accepts fun tree tokens _ => Reads .primary tree tokens := by
  refine accepts_peek.bind fun token => ?_
  have seen {reader : Reader Expr} (accepts : reader.Accepts fun tree tokens left =>
      Seen token (tokens ++ left) → Reads .primary tree tokens) :
      reader.Accepts fun tree tokens left => ∀ before,
        before = [] ∧ Seen token (tokens ++ left) → Reads .primary tree (before ++ tokens) := by
    refine accepts.weaken ?_
    rintro _ _ _ reads _ ⟨rfl, seen⟩
    exact reads seen
  split
  case h_4 | h_5 =>
    rename_i kind
    split
    · rename_i value stands
      exact seen (accepts_literal (by simpa [Token.value?, kind] using stands))
    · exact accepts_fail _ _
  case h_6 => exact seen (accepts_variable ‹_›)
  case h_7 => exact seen (accepts_group ‹_› covers)
  case h_8 =>
    split
    · exact .never (forward_misplaced forward) fun cursor value after => nofun
    · exact accepts_fail _ _
  case h_9 => exact accepts_fail _ _
  all_goals exact seen (accepts_literal (by simp [Token.value?, *]))

theorem accepts_call (bound : Nat)
    (covers : inner.Accepts fun tree tokens _ => Reads .assignment tree tokens)
    (forward : right.Forward) :
    (call bound inner right).Accepts fun tree tokens _ => Reads .call tree tokens :=
  (accepts_primary covers forward).bind fun callee => (accepts_callsFrom covers bound callee).weaken
    fun _ _ _ further before reads => further before (reads.loosen (by decide))

theorem accepts_unaryOr {otherwise : Reader Expr}
    (operands : operand.Accepts fun tree tokens _ => Reads .unary tree tokens)
    (others : otherwise.Accepts fun tree tokens _ => Reads .call tree tokens) :
    (unaryOr operand otherwise).Accepts fun tree tokens _ => Reads .unary tree tokens := by
  refine (accepts_takeIf? _).bind fun found => ?_
  match found with
  | none =>
    refine others.weaken ?_
    rintro tree tokens _ reads _ ⟨rfl, _⟩
    exact reads.loosen (by decide)
  | some (op, sign) =>
    refine operands.bind fun value => (accepts_newSite _).bind fun site => .pure ?_
    rintro _ _ ⟨rfl, line⟩ tokens reads _ ⟨rfl, _, chosen⟩
    obtain ⟨id, _⟩ := site
    cases line
    rw [List.append_nil, List.append_nil, List.singleton_append]
    have kind := (unaryOperator?_eq_some.mp chosen).symm
    exact ⟨.unary reads.levelled reads.tight, Nat.le_refl _, .unary kind reads.spells⟩

theorem accepts_expression_unary (bound : Nat) :
    (Reader.Accepts (expression bound) fun tree tokens _ => Reads .assignment tree tokens) ∧
      Reader.Accepts (unary bound) fun tree tokens _ => Reads .unary tree tokens := by
  induction bound with
  | zero => exact ⟨accepts_fail _ _, accepts_fail _ _⟩
  | succ bound ih =>
    obtain ⟨covers, operands⟩ := ih
    exact ⟨accepts_assignment (accepts_disjunction bound operands) covers,
      accepts_unaryOr operands
        (accepts_call bound covers (forwards.comparison bound (forwards.unary bound)))⟩

theorem accepts_expression (bound : Nat) :
    Reader.Accepts (expression bound) fun tree tokens _ => Reads .assignment tree tokens :=
  (accepts_expression_unary bound).1

end Expressions
end LoxLang.Grammar
