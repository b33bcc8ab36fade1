import LoxLang.Proofs.Grammar.Derived
import LoxLang.Proofs.Grammar.SeamExpressions

/-!
Statements at a seam. Only a semicolon can be the last token of the list that a reader takes, and what
it asks for behind that is reported at the end; only an `else` is looked for there without need.
-/
namespace LoxLang.Grammar

variable {α β γ δ : Type}

/-- At the end of its list the reader reports at the end token. -/
def Reader.Starves (reader : Reader α) : Prop :=
  ∀ cursor, cursor.rest = [] → cursor.finish.kind = .finish →
    ∃ fault ∈ (reader cursor).cursor.faults.toList, fault.place = .finish

namespace Reader.Starves

theorem bind {first : Reader α} {next : α → Reader β} (starves : first.Starves)
    (forward : ∀ value, (next value).Forward) : (first >>= next).Starves := by
  intro cursor none finish
  obtain ⟨fault, member, place⟩ := starves cursor none finish
  refine ⟨fault, ?_, place⟩
  rw [bind_apply]
  revert member
  cases first cursor with
  | read value after => exact fun member => ((forward value).onward after).faults.subset member
  | failed after => exact id

theorem bind_takeIf {choose : TokenKind → Option α} {next : Option (α × Token) → Reader β}
    (starves : (next none).Starves) : (takeIf? choose >>= next).Starves := by
  rintro ⟨_, finish, faults, nextId⟩ rfl ends
  exact starves _ rfl ends

theorem bind_takeKind {kind : TokenKind} {next : Option Token → Reader β}
    (starves : (next none).Starves) : (takeKind? kind >>= next).Starves := by
  rw [takeKind?, bind_assoc]
  exact bind_takeIf starves

end Reader.Starves

theorem Cursor.token_finish {cursor : Cursor} (none : cursor.rest = [])
    (finish : cursor.finish.kind = .finish) : cursor.token.kind = .finish := by
  rw [Cursor.token, none]
  exact finish

theorem Cursor.rest_ne_nil {cursor : Cursor} (ends : cursor.finish.kind = .finish)
    (other : cursor.token.kind ≠ .finish) : cursor.rest ≠ [] :=
  fun none => other (token_finish none ends)

theorem Cursor.rest_ne_nil_of_goes {stop : TokenKind → Bool} (stops : stop .finish = true)
    {cursor : Cursor} (ends : cursor.finish.kind = .finish) (goes : stop cursor.token.kind = false) :
    cursor.rest ≠ [] := by
  refine rest_ne_nil ends fun finish => ?_
  rw [finish, stops] at goes
  cases goes

theorem starves_fail (cause : StaticCause) : (fail cause : Reader α).Starves := by
  rintro ⟨_, finish, faults, nextId⟩ rfl ends
  refine ⟨⟨finish.line, finish.place, cause⟩, by simp [fail, Reading.cursor, Cursor.reportAt,
    Cursor.token], ?_⟩
  simp only [Token.place, show finish.kind = .finish from ends]

theorem starves_needSymbol (symbol : Symbol) (part : Part) : (needSymbol symbol part).Starves :=
  .bind_takeKind (starves_fail _)

theorem starves_chain {operand : Reader Expr} (starves : operand.Starves)
    (forward : operand.Forward) (bound : Nat) (level : Level) :
    (chain bound level operand).Starves :=
  starves.bind fun left => forwards.chainFrom level forward bound left

theorem starves_disjunction {operand : Reader Expr} (starves : operand.Starves)
    (forward : operand.Forward) (bound : Nat) : (disjunction bound operand).Starves := by
  have factors := starves_chain starves forward bound .factor
  have terms := starves_chain factors (forwards.chain bound .factor forward) bound .term
  have comparisons := starves_chain terms
    (forwards.chain bound .term (forwards.chain bound .factor forward)) bound .comparison
  have equalities := starves_chain comparisons (forwards.comparison bound forward) bound .equality
  have conjunctions := starves_chain equalities
    (forwards.chain bound .equality (forwards.comparison bound forward)) bound .conjunction
  exact starves_chain conjunctions (forwards.chain bound .conjunction
    (forwards.chain bound .equality (forwards.comparison bound forward))) bound .disjunction

theorem starves_primary (inner right : Reader Expr) : (primary inner right).Starves := by
  rintro ⟨_, finish, faults, nextId⟩ rfl ends
  have kind : finish.kind = .finish := ends
  have same : primary inner right ⟨[], finish, faults, nextId⟩ =
      fail (.missing .expression) ⟨[], finish, faults, nextId⟩ := by
    rw [primary, Reader.bind_apply]
    simp only [peek, Cursor.token, kind]
  rw [same]
  exact starves_fail _ _ rfl ends

theorem starves_unary (bound : Nat) : Reader.Starves (unary bound) := by
  cases bound with
  | zero => exact starves_fail _
  | succ bound =>
    exact .bind_takeIf ((starves_primary _ _).bind fun callee =>
      forwards.callsFrom (forwards.expression bound) bound callee)

theorem starves_expression (bound : Nat) : Reader.Starves (expression bound) := by
  cases bound with
  | zero => exact starves_fail _
  | succ bound =>
    refine (starves_disjunction (starves_unary bound) (forwards.unary bound) bound).bind fun left => ?_
    refine (forward_takeKind? _).bind fun found => ?_
    match found with
    | none => exact .pure left
    | some sign =>
      refine (forwards.expression bound).bind fun right => ?_
      split
      · exact (forward_newSite _).bind fun fresh => .pure _
      · exact (forward_report sign _).bind fun _ => .pure right

namespace Seam

variable {seam : Seam} {length : Nat} {before middle after : List Token → Prop} {view : α → γ}
  {other : β → δ}

theorem Along.open {first second : Reader α}
    (along : seam.Along seam.Starved length seam.ahead after view first second)
    (starves : first.Starves) : seam.Along seam.Starved length seam.Open after view first second := by
  refine ⟨along.forward, fun left right meets here short => ?_⟩
  by_cases ahead : seam.ahead left.rest
  · exact along.agree left right meets ahead short
  · have none := here.resolve_left ahead
    exact .inl ⟨none ▸ ahead, starves left none (by rw [meets.finish]; exact seam.ends)⟩

theorem takeKind?_leaves {kind : TokenKind} {cursor : Cursor}
    (apart : ∀ token ∈ cursor.rest.head?, token.kind ≠ kind) :
    takeKind? kind cursor = .read none cursor := by
  obtain ⟨rest, finish, faults, nextId⟩ := cursor
  cases rest with
  | nil => rfl
  | cons token rest =>
    have differs : token.kind ≠ kind := apart token rfl
    rw [takeKind?, Reader.bind_apply]
    simp only [takeIf?, if_neg differs]
    rfl

theorem Along.bind_else {next twin : Option Token → Reader β}
    (leaves : seam.Along seam.Starved length seam.Open after other (next none) (twin none))
    (takes : ∀ token, seam.Along seam.Starved (length - 1) seam.ahead after other
      (next (some token)) (twin (some token))) :
    seam.Along seam.Starved length seam.Open after other (takeKeyword? .else >>= next)
      (takeKeyword? .else >>= twin) := by
  have inside : seam.Along seam.Starved length seam.ahead after other
      (takeKeyword? .else >>= next) (takeKeyword? .else >>= twin) :=
    .bind_takeKind (inside (by decide)) (leaves.weaken (fun _ => .inl) fun _ here => here)
      fun token _ => takes token
  refine ⟨inside.forward, fun left right meets here short => ?_⟩
  rcases here with ahead | none
  · exact inside.agree left right meets ahead short
  · have rest : right.rest = seam.tail := by rw [meets.rest, none, List.nil_append]
    rw [Reader.bind_apply, Reader.bind_apply, takeKeyword?, takeKind?_leaves (by simp [none]),
      takeKind?_leaves (by rw [rest]; exact seam.noElse)]
    exact leaves.agree left right meets (.inr none) short

section Statements

variable {value value' : Reader Expr} {inner inner' : Reader Stmt} {block block' : Reader (List Stmt)}
  {bound bound' : Nat}

theorem along_needSemicolon (part : Part) :
    seam.Along seam.Starved length seam.ahead seam.Open (id : Token → Token)
      (needSymbol .semicolon part) (needSymbol .semicolon part) :=
  along_needSymbol part fun here _ => seam.pass here

theorem along_initializer (values : seam.Within length Expr.erase value value') :
    seam.Along seam.Starved length seam.ahead seam.ahead (Option.map Expr.erase) (initializer value)
      (initializer value') :=
  .bind_takeKind (inside (by decide)) (.pure rfl) fun _ _ =>
    (values.shorter (Nat.sub_le length 1)).loose.map (persists_starved seam)
      fun _ _ same => congrArg some same

theorem along_restOfVariable (values : seam.Within length Expr.erase value value') :
    seam.Along seam.Starved length seam.ahead seam.Open Stmt.erase (restOfVariable value)
      (restOfVariable value') := by
  refine (along_needName _).bind (persists_starved seam) fun name name' sameName => ?_
  refine (along_initializer values).bind (persists_starved seam) fun initial initial' same => ?_
  refine (along_needSemicolon _).bind (persists_starved seam) fun _ _ _ => .pure ?_
  rw [Stmt.erase, Stmt.erase, show name = name' from sameName, same]

theorem along_parametersFrom (enough : length ≤ bound) (enough' : length ≤ bound') (count : Nat)
    (done : List Ident) :
    seam.Along seam.Starved length seam.ahead seam.ahead (id : List Ident → List Ident)
      (parametersFrom bound count done) (parametersFrom bound' count done) := by
  induction length generalizing bound bound' count done with
  | zero => exact .zero (forwards.parametersFrom bound count done)
  | succ length ih =>
    obtain ⟨bound, rfl⟩ := Nat.exists_eq_add_one_of_ne_zero (Nat.ne_zero_of_lt enough)
    obtain ⟨bound', rfl⟩ := Nat.exists_eq_add_one_of_ne_zero (Nat.ne_zero_of_lt enough')
    refine .bind_takeKind (inside (by decide)) (.pure rfl) fun _ _ => ?_
    refine (along_checkLimit _ _).bind (persists_starved seam) fun _ _ _ => ?_
    refine (along_needName _).bind (persists_starved seam) fun next next' same => ?_
    obtain rfl : next = next' := same
    exact ih (Nat.le_of_succ_le_succ enough) (Nat.le_of_succ_le_succ enough') _ _

theorem along_parameters (enough : length ≤ bound) (enough' : length ≤ bound') :
    seam.Along seam.Starved length seam.ahead seam.ahead (id : List Ident → List Ident)
      (parameters bound) (parameters bound') := by
  refine .bind_takeKind (inside (by decide)) ?_ fun _ _ => .pure rfl
  refine (along_needName _).bind (persists_starved seam) fun first first' same => ?_
  obtain rfl : first = first' := same
  refine (along_parametersFrom enough enough' 1 [first]).bind (persists_starved seam)
    fun names names' all => ?_
  exact (along_needSymbol _ (inside (by decide))).bind (persists_starved seam) fun _ _ _ => .pure all

theorem along_restOfFunction (enough : length ≤ bound) (enough' : length ≤ bound')
    (blocks : seam.Along seam.Starved length seam.ahead seam.Open Stmt.eraseAll block block') :
    seam.Along seam.Starved length seam.ahead seam.Open Stmt.erase (restOfFunction bound block)
      (restOfFunction bound' block') := by
  refine (along_needName _).bind (persists_starved seam) fun name name' sameName => ?_
  refine (along_needSymbol _ (inside (by decide))).bind (persists_starved seam) fun _ _ _ => ?_
  refine (along_parameters enough enough').bind (persists_starved seam) fun names names' all => ?_
  refine (along_needSymbol _ (inside (by decide))).bind (persists_starved seam) fun _ _ _ => ?_
  refine blocks.bind (persists_starved seam) fun body body' same => .pure ?_
  rw [Stmt.erase, Stmt.erase, show name = name' from sameName, show names = names' from all, same]

theorem along_restOfExpression (values : seam.Within length Expr.erase value value') :
    seam.Along seam.Starved length seam.ahead seam.Open Stmt.erase (restOfExpression value)
      (restOfExpression value') := by
  refine values.loose.bind (persists_starved seam) fun result result' same => ?_
  refine (along_needSemicolon _).bind (persists_starved seam) fun _ _ _ => .pure ?_
  rw [Stmt.erase, Stmt.erase, same]

theorem along_restOfPrint (values : seam.Within length Expr.erase value value') :
    seam.Along seam.Starved length seam.ahead seam.Open Stmt.erase (restOfPrint value)
      (restOfPrint value') := by
  refine values.loose.bind (persists_starved seam) fun result result' same => ?_
  refine (along_needSemicolon _).bind (persists_starved seam) fun _ _ _ => .pure ?_
  rw [Stmt.erase, Stmt.erase, same]

theorem along_restOfReturn (values : seam.Within length Expr.erase value value') (line : Nat) :
    seam.Along seam.Starved length seam.ahead seam.Open Stmt.erase (restOfReturn line value)
      (restOfReturn line value') := by
  refine .bind_takeKind (fun here _ => seam.pass here) ?_ fun _ _ => .pure rfl
  refine values.loose.bind (persists_starved seam) fun result result' same => ?_
  refine (along_needSemicolon _).bind (persists_starved seam) fun _ _ _ => .pure ?_
  rw [Stmt.erase, Stmt.erase, Option.map_some, Option.map_some, same]

theorem along_restOfIf (values : seam.Within length Expr.erase value value')
    (inners : seam.Along seam.Starved length seam.ahead seam.Open Stmt.erase inner inner') :
    seam.Along seam.Starved length seam.ahead seam.Open Stmt.erase (restOfIf value inner)
      (restOfIf value' inner') := by
  refine (along_needSymbol _ (inside (by decide))).bind (persists_starved seam) fun _ _ _ => ?_
  refine values.loose.bind (persists_starved seam) fun test test' sameTest => ?_
  refine (along_needSymbol _ (inside (by decide))).bind (persists_starved seam) fun _ _ _ => ?_
  refine inners.bind (persists_starved seam) fun yes yes' sameYes => ?_
  refine .bind_else (.pure ?_) fun _ => ?_
  · rw [Stmt.erase, Stmt.erase, sameTest, sameYes]
  · refine (inners.shorter (Nat.sub_le length 1)).map (persists_starved seam) fun no no' sameNo => ?_
    rw [Stmt.erase, Stmt.erase, sameTest, sameYes, sameNo]

theorem along_restOfWhile (values : seam.Within length Expr.erase value value')
    (inners : seam.Along seam.Starved length seam.ahead seam.Open Stmt.erase inner inner') :
    seam.Along seam.Starved length seam.ahead seam.Open Stmt.erase (restOfWhile value inner)
      (restOfWhile value' inner') := by
  refine (along_needSymbol _ (inside (by decide))).bind (persists_starved seam) fun _ _ _ => ?_
  refine values.loose.bind (persists_starved seam) fun test test' sameTest => ?_
  refine (along_needSymbol _ (inside (by decide))).bind (persists_starved seam) fun _ _ _ => ?_
  refine inners.bind (persists_starved seam) fun body body' same => .pure ?_
  rw [Stmt.erase, Stmt.erase, sameTest, same]

theorem along_forInitializer (values : seam.Within length Expr.erase value value') :
    seam.Along seam.Starved length seam.ahead seam.Open (Option.map Stmt.erase) (forInitializer value)
      (forInitializer value') := by
  refine .bind_takeKind (fun here _ => seam.pass here) ?_ fun _ _ => .pure rfl
  refine .bind_takeKind (inside (by decide : .keyword .var ≠ _)) ?_ fun _ _ => ?_
  · exact (along_restOfExpression values).map (persists_starved seam)
      fun _ _ same => congrArg some same
  · exact (along_restOfVariable (values.shorter (Nat.sub_le length 1))).map (persists_starved seam)
      fun _ _ same => congrArg some same

theorem starves_forCondition (starves : value.Starves) (line : Nat) :
    (forCondition line value).Starves := by
  intro cursor none finish
  rw [forCondition_some line (by rw [Cursor.token_finish none finish]; decide)]
  exact starves cursor none finish

theorem starves_forIncrement (starves : value.Starves) : (forIncrement value).Starves := by
  intro cursor none finish
  rw [forIncrement_some (by rw [Cursor.token_finish none finish]; decide)]
  exact starves.bind (fun found => .pure (some found)) cursor none finish

theorem along_forCondition (values : seam.Within length Expr.erase value value')
    (starves : value.Starves) (line : Nat) :
    seam.Along seam.Starved length seam.Open seam.ahead Expr.erase (forCondition line value)
      (forCondition line value') := by
  refine Along.open (.bind_peek (fun _ here => here) fun token => ?_)
    (starves_forCondition starves line)
  split
  · refine ((along_newSite _).bind (persists_starved seam) fun site site' same => .pure ?_).seen
    rw [Expr.erase, Expr.erase, same]
  · exact values.loose.seen

theorem along_forIncrement (values : seam.Within length Expr.erase value value')
    (starves : value.Starves) :
    seam.Along seam.Starved length seam.Open seam.ahead (Option.map Expr.erase) (forIncrement value)
      (forIncrement value') := by
  refine Along.open (.bind_peek (fun _ here => here) fun token => ?_) (starves_forIncrement starves)
  split
  · exact (Along.pure rfl).seen
  · refine (values.loose.map (persists_starved seam) fun _ _ same => ?_).seen
    exact congrArg some same

theorem along_restOfFor (values : seam.Within length Expr.erase value value')
    (starves : value.Starves)
    (inners : seam.Along seam.Starved length seam.ahead seam.Open Stmt.erase inner inner') :
    seam.Along seam.Starved length seam.ahead seam.Open Stmt.erase (restOfFor value inner)
      (restOfFor value' inner') := by
  refine .bind_peek (fun _ here => here) fun token => Along.seen ?_
  refine (along_needSymbol _ (inside (by decide))).bind (persists_starved seam) fun _ _ _ => ?_
  refine (along_forInitializer values).bind (persists_starved seam) fun first first' sameFirst => ?_
  refine (along_forCondition values starves _).bind (persists_starved seam)
    fun test test' sameTest => ?_
  refine (along_needSemicolon _).bind (persists_starved seam) fun _ _ _ => ?_
  refine (along_forIncrement values starves).bind (persists_starved seam)
    fun step step' sameStep => ?_
  refine (along_needSymbol _ (inside (by decide))).bind (persists_starved seam) fun _ _ _ => ?_
  refine inners.bind (persists_starved seam) fun body body' same => .pure ?_
  rw [erase_forLoop, erase_forLoop, sameFirst, sameTest, sameStep, same]

theorem fromBoundary_seam {moved : List Token} (here : seam.ahead moved) :
    fromBoundary (moved ++ seam.tail) = fromBoundary moved ++ seam.tail ∧
      (fromBoundary moved = [] ∨
        seam.ahead (fromBoundary moved) ∧ seam.ahead (fromBoundary moved).tail) := by
  induction moved with
  | nil =>
    obtain ⟨none, _⟩ := seam.stop here
    rw [none]
    exact ⟨rfl, .inl rfl⟩
  | cons token rest ih =>
    rw [List.cons_append]
    cases kind : token.kind with
    | symbol sign =>
      -- Only a semicolon may be the last token, and there the search is over.
      by_cases ends : sign = .semicolon
      · subst ends
        simp only [fromBoundary, kind]
        exact ⟨trivial, seam.settle (show seam.ahead ([] ++ token :: rest) from here) (.inl kind)⟩
      · have inner : token.kind ≠ .symbol .semicolon := by
          rw [kind]
          exact fun same => ends (TokenKind.symbol.inj same)
        have skips (more : List Token) : fromBoundary (token :: more) = fromBoundary more := by
          rw [fromBoundary]
          split
          · rename_i same
            exact absurd same inner
          · rename_i same
            cases kind.symm.trans same
          · rfl
        rw [skips, skips]
        exact ih (seam.step here inner)
    | keyword word =>
      simp only [fromBoundary, kind]
      have further := seam.step here (by rw [kind]; rintro ⟨⟩)
      split
      · exact ⟨rfl, .inr ⟨here, further⟩⟩
      · exact ih further
    | identifier | string | number | finish =>
      simp only [fromBoundary, kind]
      exact ih (seam.step here (by rw [kind]; decide))

end Statements
end Seam
end LoxLang.Grammar
