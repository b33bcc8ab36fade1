import LoxLang.Proofs.Grammar.Seams

/-!
Expressions at a seam. No reader of expressions takes a semicolon, not even one that passes over what
is wrong; so while the list goes on, it goes on behind each of them.
-/
namespace LoxLang.Grammar

variable {α γ : Type}

/-- Within a list that goes on, nothing is lost and the list still goes on. -/
abbrev Seam.Within (seam : Seam) (length : Nat) (view : α → γ) (first second : Reader α) : Prop :=
  seam.Along Seam.Never length seam.ahead seam.ahead view first second

namespace Seam

variable {seam : Seam} {length bound bound' : Nat}

theorem operator?_apart {level : Level} {kind : TokenKind} {operator : Operator}
    (chosen : level.operator? kind = some operator) : kind ≠ .symbol .semicolon := by
  rintro rfl
  cases level <;> cases chosen

theorem unaryOperator?_apart {kind : TokenKind} {op : UnaryOp}
    (chosen : unaryOperator? kind = some op) : kind ≠ .symbol .semicolon := by
  rintro rfl
  cases chosen

theorem within_chainFrom (level : Level) {operand operand' : Reader Expr}
    (operands : seam.Within length Expr.erase operand operand') (enough : length ≤ bound)
    (enough' : length ≤ bound') {left left' : Expr} (same : left.erase = left'.erase) :
    seam.Within length Expr.erase (chainFrom level operand bound left)
      (chainFrom level operand' bound' left') := by
  induction length generalizing bound bound' left left' with
  | zero => exact .zero (forwards.chainFrom level operands.forward bound left)
  | succ length ih =>
    obtain ⟨bound, rfl⟩ := Nat.exists_eq_add_one_of_ne_zero (Nat.ne_zero_of_lt enough)
    obtain ⟨bound', rfl⟩ := Nat.exists_eq_add_one_of_ne_zero (Nat.ne_zero_of_lt enough')
    -- an operator is no semicolon, so that the list goes on behind it, and it is shorter there
    have fewer := operands.shorter (Nat.le_succ length)
    refine .bind_takeIf (fun here chosen => seam.step here (operator?_apart chosen)) (.pure same)
      fun operator token _ => ?_
    refine fewer.bind persists_never fun right right' sameRight => ?_
    refine (along_newSite _).bind persists_never fun site site' line => ?_
    refine ih fewer (Nat.le_of_succ_le_succ enough) (Nat.le_of_succ_le_succ enough') ?_
    rw [erase_apply, erase_apply, same, sameRight, line]

theorem within_chain (level : Level) {operand operand' : Reader Expr}
    (operands : seam.Within length Expr.erase operand operand') (enough : length ≤ bound)
    (enough' : length ≤ bound') :
    seam.Within length Expr.erase (chain bound level operand) (chain bound' level operand') :=
  operands.bind persists_never fun _ _ same => within_chainFrom level operands enough enough' same

theorem within_comparison {operand operand' : Reader Expr}
    (operands : seam.Within length Expr.erase operand operand') (enough : length ≤ bound)
    (enough' : length ≤ bound') :
    seam.Within length Expr.erase (comparison bound operand) (comparison bound' operand') :=
  within_chain .comparison
    (within_chain .term (within_chain .factor operands enough enough') enough enough') enough enough'

theorem within_disjunction {operand operand' : Reader Expr}
    (operands : seam.Within length Expr.erase operand operand') (enough : length ≤ bound)
    (enough' : length ≤ bound') :
    seam.Within length Expr.erase (disjunction bound operand) (disjunction bound' operand') :=
  within_chain .disjunction (within_chain .conjunction
    (within_chain .equality (within_comparison operands enough enough') enough enough') enough enough')
    enough enough'

/-- Both targets are variables, or both are none; the report is at the same sign. -/
theorem within_assignment {target target' value value' : Reader Expr}
    (targets : seam.Within length Expr.erase target target')
    (values : seam.Within (length - 1) Expr.erase value value') :
    seam.Within length Expr.erase (assignment target value) (assignment target' value') := by
  refine targets.bind persists_never fun left left' same => ?_
  refine .bind_takeKind (inside (by decide)) (.pure same) fun sign _ => ?_
  refine values.bind persists_never fun right right' sameRight => ?_
  cases left with
  | «variable» site name =>
    obtain ⟨site', rfl, line⟩ := variable_of_erase same.symm
    simp only [line]
    refine (along_newSite _).bind persists_never fun fresh fresh' sameFresh => .pure ?_
    rw [Expr.erase, Expr.erase, sameFresh, sameRight]
  | _ =>
    cases left' with
    | «variable» site' name' => cases same
    | _ => exact (along_report _ _).bind persists_never fun _ _ _ => .pure sameRight

theorem within_argumentsFrom {argument argument' : Reader Expr}
    (values : seam.Within length Expr.erase argument argument') (enough : length ≤ bound)
    (enough' : length ≤ bound') (count : Nat) {done done' : List Expr}
    (same : Expr.eraseAll done = Expr.eraseAll done') :
    seam.Within length Expr.eraseAll (argumentsFrom argument bound count done)
      (argumentsFrom argument' bound' count done') := by
  induction length generalizing bound bound' count done done' with
  | zero => exact .zero (forwards.argumentsFrom values.forward bound count done)
  | succ length ih =>
    obtain ⟨bound, rfl⟩ := Nat.exists_eq_add_one_of_ne_zero (Nat.ne_zero_of_lt enough)
    obtain ⟨bound', rfl⟩ := Nat.exists_eq_add_one_of_ne_zero (Nat.ne_zero_of_lt enough')
    refine (along_checkLimit _ _).bind persists_never fun _ _ _ => ?_
    refine values.bind persists_never fun next next' sameNext => ?_
    have more : Expr.eraseAll (next :: done) = Expr.eraseAll (next' :: done') := by
      rw [Expr.eraseAll, Expr.eraseAll, sameNext, same]
    refine .bind_takeKind (inside (by decide)) (.pure ?_) fun _ _ => ?_
    · rw [Expr.eraseAll_eq_map, Expr.eraseAll_eq_map] at more ⊢
      rw [List.map_reverse, List.map_reverse, more]
    · exact ih (values.shorter (Nat.le_succ length)) (Nat.le_of_succ_le_succ enough)
        (Nat.le_of_succ_le_succ enough') (count + 1) more

theorem within_arguments {argument argument' : Reader Expr}
    (values : seam.Within length Expr.erase argument argument') (enough : length ≤ bound)
    (enough' : length ≤ bound') :
    seam.Within length Expr.eraseAll (arguments bound argument) (arguments bound' argument') := by
  refine .bind_peek (fun _ here => here) fun token => ?_
  split
  · exact (Along.pure rfl).seen
  · exact (within_argumentsFrom values enough enough' 0 rfl).seen

theorem within_callsFrom {argument argument' : Reader Expr}
    (values : seam.Within (length - 1) Expr.erase argument argument') (enough : length ≤ bound)
    (enough' : length ≤ bound') {callee callee' : Expr} (same : callee.erase = callee'.erase) :
    seam.Within length Expr.erase (callsFrom argument bound callee)
      (callsFrom argument' bound' callee') := by
  induction length generalizing bound bound' callee callee' with
  | zero => exact .zero (forwards.callsFrom values.forward bound callee)
  | succ length ih =>
    obtain ⟨bound, rfl⟩ := Nat.exists_eq_add_one_of_ne_zero (Nat.ne_zero_of_lt enough)
    obtain ⟨bound', rfl⟩ := Nat.exists_eq_add_one_of_ne_zero (Nat.ne_zero_of_lt enough')
    have room := Nat.le_of_succ_le_succ enough
    have room' := Nat.le_of_succ_le_succ enough'
    refine .bind_takeKind (inside (by decide)) (.pure same) fun _ _ => ?_
    refine (within_arguments values room room').bind persists_never fun given given' all => ?_
    refine (along_needSymbol _ (inside (by decide))).bind persists_never fun close close' line => ?_
    obtain rfl : close = close' := line
    refine (along_newSite _).bind persists_never fun site site' sameSite => ?_
    refine ih (values.shorter (Nat.sub_le length 1)) room room' ?_
    rw [Expr.erase, Expr.erase, same, all, sameSite]

theorem within_literal {token : Token} (proper : token.kind ≠ .finish)
    (inner : token.kind ≠ .symbol .semicolon) (value : Literal) :
    seam.Along Never length (fun rest => seam.ahead rest ∧ rest.headD seam.finish = token) seam.ahead
      Expr.erase (literal token value) (literal token value) := by
  refine .bind_take proper inner fun _ => ?_
  refine (along_newSite _).bind persists_never fun site site' same => .pure ?_
  rw [Expr.erase, Expr.erase, same]

theorem within_group {value value' : Reader Expr}
    (values : seam.Within (length - 1) Expr.erase value value') {token : Token}
    (kind : token.kind = .symbol .leftParen) :
    seam.Along Never length (fun rest => seam.ahead rest ∧ rest.headD seam.finish = token) seam.ahead
      Expr.erase (group value) (group value') := by
  refine .bind_take (by rw [kind]; decide) (by rw [kind]; decide) fun paren => ?_
  refine values.bind persists_never fun inner inner' same => ?_
  refine (along_needSymbol _ (inside (by decide))).bind persists_never fun _ _ _ => ?_
  refine (along_newSite _).bind persists_never fun site site' sameSite => .pure ?_
  rw [Expr.erase, Expr.erase, same, sameSite]

theorem within_giveUp {β δ : Type} {before : List Token → Prop} {view : α → γ} {other : β → δ}
    {first second : Reader α} (along : seam.Along Never length before seam.ahead view first second)
    (forward : (first >>= fun _ => giveUp : Reader β).Forward) :
    seam.Along Never length before seam.ahead other (first >>= fun _ => giveUp)
      (second >>= fun _ => giveUp) := by
  refine ⟨forward, fun left right meets here short => .inr ?_⟩
  have agree := (along.agree left right meets here short).resolve_left id
  rw [Reader.bind_apply, Reader.bind_apply]
  revert agree
  generalize first left = reading
  generalize second right = twin
  rintro (⟨_, there, moved⟩ | ⟨there, moved⟩)
  · exact .failed there moved
  · exact .failed there moved

theorem within_misplaced {right right' : Reader Expr}
    (rights : seam.Within (length - 1) Expr.erase right right') {token : Token}
    (proper : token.kind ≠ .finish) (inner : token.kind ≠ .symbol .semicolon) :
    seam.Along Never length (fun rest => seam.ahead rest ∧ rest.headD seam.finish = token) seam.ahead
      Expr.erase (misplaced right) (misplaced right') := by
  let passed (right : Reader Expr) : Reader Unit := do
    report (← peek) (.missing .leftOperand)
    let _ ← take
    silently right
  have split (right : Reader Expr) :
      misplaced right = (passed right >>= fun _ => giveUp) := rfl
  have along : seam.Along Never length
      (fun rest => seam.ahead rest ∧ rest.headD seam.finish = token) seam.ahead
      (id : Unit → Unit) (passed right) (passed right') := by
    refine .bind_peek (fun _ here => here.1) fun seen => ?_
    refine (along_report _ _).bind persists_never fun _ _ _ => ?_
    exact (Along.bind_take proper inner fun _ => along_silently rights).seen
  rw [split, split]
  exact within_giveUp along (forward_misplaced rights.forward)

theorem within_primary {inner inner' right right' : Reader Expr}
    (inners : seam.Within (length - 1) Expr.erase inner inner')
    (rights : seam.Within (length - 1) Expr.erase right right') :
    seam.Within length Expr.erase (primary inner right) (primary inner' right') := by
  refine .bind_peek (fun _ here => here) fun token => ?_
  have fails : seam.Along Never length
      (fun rest => seam.ahead rest ∧ rest.headD seam.finish = token) seam.ahead Expr.erase
      (fail (.missing .expression)) (fail (.missing .expression)) :=
    (along_fail _).seen
  -- the kind of the token decides, and it is the same on both sides
  cases kind : token.kind with
  | keyword word =>
    cases word with
    | true | false | nil => exact within_literal (by rw [kind]; decide) (by rw [kind]; decide) _
    | _ => exact fails
  | string | number =>
    cases token.literal with
    | none => exact fails
    | some value => exact within_literal (by rw [kind]; decide) (by rw [kind]; decide) value
  | identifier =>
    refine .bind_take (by rw [kind]; decide) (by rw [kind]; decide) fun _ => ?_
    refine (along_newSite _).bind persists_never fun site site' same => .pure ?_
    rw [Expr.erase, Expr.erase, same]
  | symbol sign =>
    cases sign with
    | leftParen => exact within_group inners kind
    | equalEqual | bangEqual | greater | greaterEqual | less | lessEqual | plus | star | slash =>
      exact within_misplaced rights (by rw [kind]; decide) (by rw [kind]; decide)
    | _ => exact fails
  | finish => exact fails

theorem within_call {inner inner' right right' : Reader Expr}
    (inners : seam.Within (length - 1) Expr.erase inner inner')
    (rights : seam.Within (length - 1) Expr.erase right right') (enough : length ≤ bound)
    (enough' : length ≤ bound') :
    seam.Within length Expr.erase (call bound inner right) (call bound' inner' right') :=
  (within_primary inners rights).bind persists_never fun _ _ same =>
    within_callsFrom inners enough enough' same

theorem within_unaryOr {operand operand' otherwise otherwise' : Reader Expr}
    (operands : seam.Within (length - 1) Expr.erase operand operand')
    (others : seam.Within length Expr.erase otherwise otherwise') :
    seam.Within length Expr.erase (unaryOr operand otherwise) (unaryOr operand' otherwise') := by
  refine .bind_takeIf (fun here chosen => seam.step here (unaryOperator?_apart chosen)) others
    fun op token _ => ?_
  refine operands.bind persists_never fun value value' same => ?_
  refine (along_newSite _).bind persists_never fun site site' sameSite => .pure ?_
  rw [Expr.erase, Expr.erase, same, sameSite]

/-- By the number of tokens: a reader that is entered again has taken one, and pays two of its bound. -/
theorem within_expression_unary (seam : Seam) (length : Nat) :
    (∀ bound bound', 2 * length < bound → 2 * length < bound' →
      seam.Within length Expr.erase (expression bound) (expression bound')) ∧
    ∀ bound bound', 2 * length ≤ bound → 2 * length ≤ bound' →
      seam.Within length Expr.erase (unary bound) (unary bound') := by
  induction length with
  | zero => exact ⟨fun bound _ _ _ => .zero (forwards.expression bound),
      fun bound _ _ _ => .zero (forwards.unary bound)⟩
  | succ length ih =>
    obtain ⟨expressions, unaries⟩ := ih
    have unary (bound bound' : Nat) (enough : 2 * (length + 1) ≤ bound)
        (enough' : 2 * (length + 1) ≤ bound') :
        seam.Within (length + 1) Expr.erase (unary bound) (unary bound') := by
      obtain ⟨bound, rfl⟩ := Nat.exists_eq_add_one_of_ne_zero (show bound ≠ 0 by omega)
      obtain ⟨bound', rfl⟩ := Nat.exists_eq_add_one_of_ne_zero (show bound' ≠ 0 by omega)
      -- An operand stands behind an operator, in front of fewer tokens.
      have operands := unaries bound bound' (by omega) (by omega)
      exact within_unaryOr operands (within_call
        (expressions bound bound' (by omega) (by omega))
        (within_comparison operands (by omega) (by omega)) (by omega) (by omega))
    refine ⟨fun bound bound' enough enough' => ?_, unary⟩
    obtain ⟨bound, rfl⟩ := Nat.exists_eq_add_one_of_ne_zero (show bound ≠ 0 by omega)
    obtain ⟨bound', rfl⟩ := Nat.exists_eq_add_one_of_ne_zero (show bound' ≠ 0 by omega)
    exact within_assignment
      (within_disjunction (unary bound bound' (by omega) (by omega)) (by omega) (by omega))
      (expressions bound bound' (by omega) (by omega))

theorem within_expression (enough : 2 * length < bound) (enough' : 2 * length < bound') :
    seam.Within length Expr.erase (expression bound) (expression bound') :=
  (within_expression_unary seam length).1 bound bound' enough enough'

end Seam
end LoxLang.Grammar
