import LoxLang.Proofs.Grammar.Derived

/-!
Readers from whose tokens something is missing. In front of a token at which a statement can begin or
end, and no expression, they report that token once and give up, and leave it for what comes next.
-/
namespace LoxLang.Grammar

variable {α β : Type}

def isBoundary : TokenKind → Bool
  | .symbol .semicolon => true
  | .keyword word => word.startsStatement
  | _ => false

/-- In front of such a token the reader has taken just these tokens when it gives up, with one report. -/
def Reader.Misses (reader : Reader α) (tokens : List Token) (next : TokenKind → Prop) : Prop :=
  ∀ (cursor : Cursor) (token : Token) (rest : List Token), cursor.rest = tokens ++ token :: rest →
    next token.kind → ∃ cause nextId, reader cursor = .failed
      { cursor with
        rest := token :: rest
        faults := cursor.faults.push ⟨token.line, token.place, cause⟩
        nextId := nextId }

namespace Reader.Misses

variable {first reader : Reader α} {further : α → Reader β} {tokens before after : List Token}
  {next narrow : TokenKind → Prop} {follow : List Token → Prop} {holds : α → Prop}

theorem weaken (misses : reader.Misses tokens next) (less : ∀ kind, narrow kind → next kind) :
    reader.Misses tokens narrow :=
  fun cursor token rest here allowed => misses cursor token rest here (less _ allowed)

theorem fail (cause : StaticCause) : (Grammar.fail cause : Reader α).Misses [] next := by
  rintro ⟨_, finish, faults, nextId⟩ token rest rfl _
  exact ⟨cause, nextId, rfl⟩

theorem bind (misses : first.Misses tokens next) : (first >>= further).Misses tokens next := by
  intro cursor token rest here allowed
  obtain ⟨cause, nextId, failed⟩ := misses cursor token rest here allowed
  exact ⟨cause, nextId, by rw [bind_apply, failed]⟩

theorem map {change : α → β} (misses : reader.Misses tokens next) :
    (change <$> reader).Misses tokens next := misses.bind

theorem past (ahead : first.Takes before follow holds)
    (lead : ∀ token rest, next token.kind → follow (after ++ token :: rest))
    (misses : ∀ value, holds value → (further value).Misses after next) :
    (first >>= further).Misses (before ++ after) next := by
  intro cursor token rest here allowed
  rw [List.append_assoc] at here
  obtain ⟨value, nextId, read, true⟩ := ahead cursor _ here (lead token rest allowed)
  obtain ⟨cause, finalId, failed⟩ := misses value true
    { cursor with rest := after ++ token :: rest, nextId := nextId } token rest rfl allowed
  exact ⟨cause, finalId, by rw [bind_apply, read]; exact failed⟩

theorem past_cons {taken : Token} (ahead : first.Takes [taken] (fun _ => True) holds)
    (misses : ∀ value, holds value → (further value).Misses after next) :
    (first >>= further).Misses (taken :: after) next :=
  past ahead (fun _ _ _ => trivial) misses

theorem past_nil (ahead : first.Takes [] follow holds)
    (lead : ∀ token rest, next token.kind → follow (tokens ++ token :: rest))
    (misses : ∀ value, holds value → (further value).Misses tokens next) :
    (first >>= further).Misses tokens next :=
  past ahead lead misses

end Reader.Misses

theorem misses_needSymbol {symbol : Symbol} {next : TokenKind → Prop} (part : Part)
    (apart : ∀ kind, next kind → kind ≠ .symbol symbol) : (needSymbol symbol part).Misses [] next := by
  refine .past_nil (leaves_takeKind? _) (fun token rest allowed => ?_) fun found this => ?_
  · rintro _ ⟨⟩
    exact apart _ allowed
  · subst this
    exact .fail _

section Expressions

variable {bound : Nat} {operand : Reader Expr}

theorem misses_disjunction {next : TokenKind → Prop} (misses : operand.Misses [] next) :
    (disjunction bound operand).Misses [] next :=
  misses.bind.bind.bind.bind.bind.bind

theorem primary_boundary (inner right : Reader Expr) {cursor : Cursor}
    (boundary : isBoundary cursor.token.kind = true) :
    primary inner right cursor = .failed (cursor.reportAt cursor.token (.missing .expression)) := by
  rw [primary, Reader.bind_apply]
  simp only [peek]
  cases kind : cursor.token.kind with
  | symbol sign =>
    rw [kind] at boundary
    cases sign <;> first | rfl | cases boundary
  | keyword word =>
    rw [kind] at boundary
    cases word <;> first | rfl | cases boundary
  | _ =>
    rw [kind] at boundary
    cases boundary

theorem unaryOperator?_boundary {kind : TokenKind} (boundary : isBoundary kind = true) :
    unaryOperator? kind = none := by
  cases kind with
  | symbol sign => cases sign <;> first | rfl | cases boundary
  | _ => rfl

theorem misses_primary (inner right : Reader Expr) :
    (primary inner right).Misses [] (isBoundary · = true) := by
  intro cursor token rest here boundary
  have same : cursor.token = token := Cursor.token_eq here
  obtain ⟨left, finish, faults, nextId⟩ := cursor
  cases here
  exact ⟨.missing .expression, nextId, primary_boundary inner right (same ▸ boundary)⟩

theorem misses_unary (bound : Nat) : Reader.Misses (unary bound) [] (isBoundary · = true) := by
  cases bound with
  | zero => exact .fail _
  | succ bound =>
    refine .past_nil (leaves_takeIf? _) (fun token rest boundary => ?_) fun found this => ?_
    · rintro _ ⟨⟩
      exact unaryOperator?_boundary boundary
    · subst this
      exact (misses_primary _ _).bind

theorem misses_expression (bound : Nat) :
    Reader.Misses (expression bound) [] (isBoundary · = true) := by
  cases bound with
  | zero => exact .fail _
  | succ bound => exact (misses_disjunction (misses_unary bound)).bind

end Expressions

section Statements

theorem misses_statement (bound : Nat) :
    Reader.Misses (statement bound) [] (· = .symbol .semicolon) := by
  cases bound with
  | zero => exact .fail _
  | succ bound =>
    refine .past_nil (leaves_takeIf? _) (fun token rest stray => ?_) fun found this => ?_
    · rintro _ ⟨⟩
      rw [stray]
      rfl
    · subst this
      refine Reader.Misses.bind ((misses_expression bound).weaken fun kind stray => ?_)
      rw [stray]
      rfl

theorem misses_declaration (bound : Nat) :
    Reader.Misses (declaration bound) [] (· = .symbol .semicolon) := by
  cases bound with
  | zero => exact .fail _
  | succ bound =>
    have leaves (word : Keyword) (token : Token) (rest : List Token)
        (stray : token.kind = .symbol .semicolon) :
        ∀ other ∈ (token :: rest).head?, other.kind ≠ .keyword word := by
      rintro _ ⟨⟩
      rw [stray]
      nofun
    refine .past_nil (leaves_takeKind? _) (leaves .var) fun found this => ?_
    subst this
    refine .past_nil (leaves_takeKind? _) (leaves .fun) fun found this => ?_
    subst this
    exact misses_statement bound

end Statements
end LoxLang.Grammar
