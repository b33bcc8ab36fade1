import LoxLang.Proofs.Grammar.Programs
import LoxLang.Proofs.Grammar.Progress

/-!
Where a cursor stands in the list that it reads. It is in front of one of the tokens up to the first
end token, and never goes back.
-/
namespace LoxLang.Grammar

/-- The cursor is in front of the token at this index, the first end token at most. -/
structure Cursor.Stands (tokens : List Token) (index : Nat) (cursor : Cursor) : Prop where
  within : index ≤ (beforeFinish tokens).length
  rest : cursor.rest = (beforeFinish tokens).drop index
  finish : tokens[(beforeFinish tokens).length]? = some cursor.finish
  ends : cursor.finish.kind = .finish

section Standing

variable {tokens front behind : List Token} {index : Nat} {cursor after : Cursor} {finish : Token}

theorem beforeFinish_front (plain : ∀ token ∈ front, token.kind ≠ .finish)
    (ends : finish.kind = .finish) : beforeFinish (front ++ finish :: behind) = front := by
  have inner : ∀ token ∈ front, (!token.isFinish) = true := by
    intro token member
    simp [Token.isFinish, plain token member]
  have last : finish.isFinish = true := beq_iff_eq.mpr ends
  rw [beforeFinish, List.takeWhile_append_of_pos inner, List.takeWhile_cons_of_neg (by simp [last]),
    List.append_nil]

theorem Cursor.start_front (plain : ∀ token ∈ front, token.kind ≠ .finish)
    (ends : finish.kind = .finish) (nextId : Nat) :
    Cursor.start nextId (front ++ finish :: behind) = ⟨front, finish, #[], nextId⟩ := by
  have taken : (front ++ finish :: behind).takeWhile (!·.isFinish) = front :=
    beforeFinish_front plain ends
  have found : (front ++ finish :: behind).find? (·.isFinish) = some finish := by
    have missing : front.find? (·.isFinish) = none :=
      List.find?_eq_none.mpr fun token member => by simp [Token.isFinish, plain token member]
    rw [List.find?_append, missing, Option.none_or, List.find?_cons_of_pos]
    exact beq_iff_eq.mpr ends
  rw [Cursor.start, taken, found]
  rfl

theorem exists_front {last : Token} (member : last ∈ tokens) (ends : last.kind = .finish) :
    ∃ front finish behind, tokens = front ++ finish :: behind ∧
      (∀ token ∈ front, token.kind ≠ .finish) ∧ finish.kind = .finish := by
  have some : (tokens.find? (·.isFinish)).isSome :=
    List.find?_isSome.mpr ⟨last, member, beq_iff_eq.mpr ends⟩
  obtain ⟨finish, found⟩ := Option.isSome_iff_exists.mp some
  obtain ⟨kind, front, behind, shape, plain⟩ := List.find?_eq_some_iff_append.mp found
  refine ⟨front, finish, behind, shape, fun token inside same => ?_, beq_iff_eq.mp kind⟩
  have apart := plain token inside
  simp [Token.isFinish, same] at apart

theorem Cursor.start_stands {last : Token} (member : last ∈ tokens) (ends : last.kind = .finish)
    (nextId : Nat) : (Cursor.start nextId tokens).Stands tokens 0 := by
  obtain ⟨front, finish, behind, rfl, plain, ends⟩ := exists_front member ends
  rw [start_front plain ends]
  have before : beforeFinish (front ++ finish :: behind) = front := beforeFinish_front plain ends
  exact ⟨Nat.zero_le _, before.symm, by rw [before]; simp, ends⟩

theorem Cursor.Stands.token (stands : cursor.Stands tokens index) :
    tokens[index]? = some cursor.token := by
  obtain ⟨within, rest, finish, ends⟩ := stands
  cases here : cursor.rest with
  | nil =>
    have out : (beforeFinish tokens).length ≤ index := by
      rw [← List.drop_eq_nil_iff, ← rest, here]
    rw [Cursor.token, here, Nat.le_antisymm within out]
    exact finish
  | cons token more =>
    rw [here] at rest
    have inside : (beforeFinish tokens)[index]? = some token := by
      rw [← List.head?_drop, ← rest, List.head?_cons]
    obtain ⟨bound, same⟩ := List.getElem?_eq_some_iff.mp inside
    rw [token_eq here, ← same]
    exact List.prefix_iff_getElem?.mp (List.takeWhile_prefix _) index bound

theorem Cursor.Stands.onward (stands : cursor.Stands tokens index) (ahead : cursor.Onward after) :
    ∃ later, index ≤ later ∧ after.Stands tokens later := by
  have left := ahead.rest
  rw [stands.rest] at left
  have shorter := left.length_le
  rw [List.length_drop] at shorter
  have within := stands.within
  refine ⟨(beforeFinish tokens).length - after.rest.length, by omega, by omega, ?_, ?_, ?_⟩
  · exact List.suffix_iff_eq_drop.mp (left.trans (List.drop_suffix _ _))
  · rw [ahead.finish, stands.finish]
  · rw [ahead.finish, stands.ends]

theorem Cursor.Stands.rest_length (stands : cursor.Stands tokens index) :
    cursor.rest.length + index = (beforeFinish tokens).length := by
  have within := stands.within
  rw [stands.rest, List.length_drop]
  omega

end Standing

end LoxLang.Grammar
