import Mathlib
import LoxLang.Proofs.Grammar.Advancing
import LoxLang.Proofs.Grammar.Missing

/-!
Where reading goes on behind a declaration that was given up. It goes on behind the next semicolon or in
front of the next keyword that begins a statement, whichever comes first; only behind a semicolon that
stands for itself it looks for these further on.
-/
namespace LoxLang.Grammar

section Boundaries

theorem isBoundary_iff {kind : TokenKind} :
    isBoundary kind = true ↔ kind = .symbol .semicolon ∨
      ∃ word : Keyword, kind = .keyword word ∧ word.startsStatement = true := by
  cases kind with
  | symbol sign => cases sign <;> simp [isBoundary]
  | _ => simp [isBoundary]

theorem fromBoundary_cons {token : Token} (apart : isBoundary token.kind = false)
    (rest : List Token) : fromBoundary (token :: rest) = fromBoundary rest := by
  rw [fromBoundary]
  cases kind : token.kind with
  | symbol sign =>
    rw [kind] at apart
    cases sign <;> first | rfl | cases apart
  | keyword word =>
    rw [kind, isBoundary] at apart
    simp [apart]
  | _ => rfl

def behindBoundary (token : Token) (index : Nat) : Nat :=
  if token.kind = .symbol .semicolon then index + 1 else index

theorem fromBoundary_here {token : Token} (boundary : isBoundary token.kind = true)
    (rest : List Token) :
    fromBoundary (token :: rest) = (token :: rest).drop (behindBoundary token 0) := by
  rcases isBoundary_iff.mp boundary with stray | ⟨word, kind, starts⟩
  · simp [fromBoundary, behindBoundary, stray]
  · simp [fromBoundary, behindBoundary, kind, starts]

theorem fromBoundary_first (tokens : List Token) :
    ∃ index, (∀ earlier < index, ∀ token, tokens[earlier]? = some token →
        isBoundary token.kind = false) ∧
      (index = tokens.length ∧ fromBoundary tokens = [] ∨
        ∃ token, tokens[index]? = some token ∧ isBoundary token.kind = true ∧
          fromBoundary tokens = tokens.drop (behindBoundary token index)) := by
  induction tokens with
  | nil => exact ⟨0, nofun, .inl ⟨rfl, rfl⟩⟩
  | cons head rest ih =>
    cases boundary : isBoundary head.kind with
    | true => exact ⟨0, nofun, .inr ⟨head, rfl, boundary, fromBoundary_here boundary rest⟩⟩
    | false =>
      obtain ⟨index, before, there⟩ := ih
      rw [fromBoundary_cons boundary]
      refine ⟨index + 1, ?_, ?_⟩
      · rintro (_ | earlier) less token found
        · cases found
          exact boundary
        · exact before earlier (Nat.lt_of_succ_lt_succ less) token found
      · refine there.imp (fun ⟨all, out⟩ => ⟨congrArg Nat.succ all, out⟩) ?_
        rintro ⟨token, found, here, left⟩
        refine ⟨token, found, here, left.trans ?_⟩
        unfold behindBoundary
        split <;> rfl

end Boundaries

section Resuming

/-- At this token reading can go on, or behind it; not at a keyword with which the declaration began. -/
def Resumable (start index : Nat) (token : Token) : Prop :=
  token.kind = .symbol .semicolon ∨ token.kind = .finish ∨
    ∃ word, token.kind = .keyword word ∧ word.startsStatement = true ∧ index ≠ start

/-- The first place from `left` on where reading can go on after a declaration that began at `start`. -/
def Resumes (tokens : List Token) (start left resumed : Nat) : Prop :=
  ∃ index token, left ≤ index ∧ tokens[index]? = some token ∧ Resumable start index token ∧
    (∀ earlier other, left ≤ earlier → earlier < index → tokens[earlier]? = some other →
      ¬Resumable start earlier other) ∧
    resumed = behindBoundary token index

variable {tokens : List Token} {start left : Nat} {cursor after : Cursor}

theorem resumable_iff {index : Nat} {token : Token} (apart : start < index)
    (plain : token.kind ≠ .finish) :
    Resumable start index token ↔ isBoundary token.kind = true := by
  rw [isBoundary_iff]
  simp [Resumable, plain, Nat.ne_of_gt apart]

theorem Cursor.Stands.getElem? (stands : cursor.Stands tokens left) {offset : Nat}
    (inside : offset < cursor.rest.length) :
    ∃ token, cursor.rest[offset]? = some token ∧ tokens[left + offset]? = some token ∧
      token.kind ≠ .finish := by
  obtain ⟨token, found⟩ : ∃ token, cursor.rest[offset]? = some token :=
    ⟨_, List.getElem?_eq_getElem inside⟩
  have same := found
  rw [stands.rest, List.getElem?_drop] at same
  obtain ⟨bound, here⟩ := List.getElem?_eq_some_iff.mp same
  have plain := List.mem_takeWhile_imp (List.mem_of_getElem? same)
  refine ⟨token, found, ?_, fun finish => ?_⟩
  · rw [← here]
    exact List.prefix_iff_getElem?.mp (List.takeWhile_prefix _) _ bound
  · simp [Token.isFinish, finish] at plain

theorem resumes_of_skipped (stands : cursor.Stands tokens left) (apart : start < left) :
    ∃ resumed, Resumes tokens start left resumed ∧
      { cursor with rest := fromBoundary cursor.rest }.Stands tokens resumed := by
  obtain ⟨count, before, there⟩ := fromBoundary_first cursor.rest
  have length := stands.rest_length
  have short : count ≤ cursor.rest.length := by
    rcases there with ⟨rfl, _⟩ | ⟨token, found, _⟩
    · exact Nat.le_refl _
    · exact Nat.le_of_lt (List.getElem?_eq_some_iff.mp found).1
  have earlier : ∀ earlier other, left ≤ earlier → earlier < left + count →
      tokens[earlier]? = some other → ¬Resumable start earlier other := by
    intro earlier other above below found
    obtain ⟨offset, rfl⟩ := Nat.exists_eq_add_of_le above
    obtain ⟨token, here, same, plain⟩ := stands.getElem? (show offset < _ by omega)
    cases found.symm.trans same
    rw [resumable_iff (by omega) plain, before offset (by omega) other here]
    nofun
  rcases there with ⟨rfl, out⟩ | ⟨token, found, boundary, skipped⟩
  · -- nothing but the end token is left
    refine ⟨left + cursor.rest.length, ⟨_, cursor.finish, Nat.le_add_right _ _, ?_,
      .inr (.inl stands.ends), earlier, ?_⟩, by omega, ?_, stands.finish, stands.ends⟩
    · rw [Nat.add_comm, length]
      exact stands.finish
    · simp [behindBoundary, stands.ends]
    · rw [out, List.drop_eq_nil_of_le (by omega)]
  · obtain ⟨inside, _⟩ := List.getElem?_eq_some_iff.mp found
    obtain ⟨other, here, there, plain⟩ := stands.getElem? inside
    obtain rfl : token = other := Option.some.inj (found.symm.trans here)
    refine ⟨behindBoundary token (left + count), ⟨_, token, Nat.le_add_right _ _, there,
      (resumable_iff (by omega) plain).mpr boundary, earlier, rfl⟩, ?_, ?_, stands.finish,
      stands.ends⟩
    · unfold behindBoundary
      split <;> omega
    · rw [skipped, stands.rest, List.drop_drop]
      unfold behindBoundary
      split <;> rfl

/-- Nothing is lost by beginning the search where the declaration began, unless that is at a semicolon. -/
theorem Resumes.from_start {resumed : Nat} (resumes : Resumes tokens start (start + 1) resumed)
    {token : Token} (here : tokens[start]? = some token) (plain : token.kind ≠ .finish)
    (apart : token.kind ≠ .symbol .semicolon) : Resumes tokens start start resumed := by
  obtain ⟨index, found, above, there, resumable, before, rfl⟩ := resumes
  refine ⟨index, found, by omega, there, resumable, fun earlier other least less same => ?_, rfl⟩
  rcases Nat.eq_or_lt_of_le least with rfl | further
  · cases here.symm.trans same
    rintro (stray | finish | ⟨_, _, _, other⟩)
    · exact apart stray
    · exact plain finish
    · exact other rfl
  · exact before earlier other further less same

/-- Where the search for a boundary begins: where the attempt has left off, but behind its start. -/
theorem stands_passed (stands : cursor.Stands tokens start) (there : after.Stands tokens left)
    (ahead : cursor.Onward after) (some : cursor.rest ≠ []) :
    ∃ search, start < search ∧
      { after with rest := cursor.passed after }.Stands tokens search ∧
      (search = left ∨ left = start ∧ search = start + 1) := by
  have begun := stands.rest_length
  have ended := there.rest_length
  have shorter := ahead.rest.length_le
  have positive := List.length_pos_iff.mpr some
  unfold Cursor.passed
  split
  · obtain rfl : left = start := by omega
    refine ⟨left + 1, Nat.lt_succ_self left, ⟨by omega, ?_, there.finish, there.ends⟩,
      .inr ⟨rfl, rfl⟩⟩
    rw [there.rest, List.tail_drop]
  · exact ⟨left, by omega, there, .inl rfl⟩

end Resuming

section Recovering

variable {tokens : List Token} {last : Token} {nextId : Nat}

/-- Behind a declaration that is given up the list is read on, with all reports, from the first boundary
at or behind the token that was left. A semicolon in the place of a declaration is reported once, and the
boundary is looked for behind it. -/
theorem recovery_resumes (ends : tokens.getLast? = some last) (finish : last.kind = .finish)
    {stop : TokenKind → Bool} {bound rounds : Nat} {done : List Stmt} {cursor after : Cursor}
    (leads : (Stage.whole nextId tokens).Leads (.declarations stop bound rounds done cursor))
    (goes : stop cursor.token.kind = false) (failed : declaration bound cursor = .failed after) :
    ∃ fewer start left resumed, rounds = fewer + 1 ∧
      Stage.Enters (.declarations stop bound rounds done cursor)
        (.declarations stop bound fewer done (cursor.recover after)) ∧
      (cursor.recover after).faults = after.faults ∧
      cursor.Stands tokens start ∧ after.Stands tokens left ∧
      (cursor.recover after).Stands tokens resumed ∧
      (cursor.token.kind ≠ .symbol .semicolon → Resumes tokens start left resumed) ∧
      (cursor.token.kind = .symbol .semicolon →
        left = start ∧ Resumes tokens start (start + 1) resumed ∧
          ∃ cause, after.faults =
            cursor.faults.push ⟨cursor.token.line, cursor.token.place, cause⟩) := by
  have member := List.mem_of_getLast? ends
  obtain ⟨plain, fewer, found, middle, start, _, rfl, read, _, stands, _⟩ :=
    leads.attempt goes member finish
  have some : cursor.rest ≠ [] := Cursor.rest_ne_nil stands.ends plain
  have ahead := ((forwards.declaration bound).failed failed).1
  obtain ⟨left, _, there⟩ := stands.onward ahead
  -- The search begins where the attempt has left off, or one further on if that took nothing.
  obtain ⟨search, behind, passed, place⟩ := stands_passed stands there ahead some
  obtain ⟨resumed, resumes, further⟩ := resumes_of_skipped passed behind
  have recovers : orRecover (declaration bound) cursor = .read none (cursor.recover after) := by
    simp only [orRecover, failed]
  refine ⟨fewer, start, left, resumed, rfl, .next goes recovers, rfl, stands, there, further, ?_, ?_⟩
  · intro apart
    rcases place with rfl | ⟨rfl, rfl⟩
    · exact resumes
    · exact resumes.from_start stands.token plain apart
  · intro stray
    obtain ⟨token, rest, shape⟩ := List.exists_cons_of_ne_nil some
    have same := Cursor.token_eq shape
    obtain ⟨cause, finalId, missed⟩ :=
      misses_declaration bound cursor token rest shape (same ▸ stray)
    cases failed.symm.trans missed
    -- An attempt at a semicolon takes nothing, so that the recovery passes over the semicolon
    -- itself.
    have stayed : left = start := by
      have begun := stands.rest_length
      have ended := there.rest_length
      rw [shape] at begun
      exact Nat.add_left_cancel (ended.trans begun.symm)
    refine ⟨stayed, ?_, cause, by rw [same]⟩
    rcases place with rfl | ⟨_, rfl⟩
    · omega
    · exact resumes

/-- A semicolon in front of a statement that is wrong itself. -/
def strayTokens : List Token :=
  [⟨.symbol .semicolon, ";", none, ⟨1, 0⟩⟩, ⟨.identifier, "x", none, ⟨1, 2⟩⟩,
    ⟨.identifier, "x", none, ⟨1, 4⟩⟩, ⟨.symbol .semicolon, ";", none, ⟨1, 5⟩⟩, .finish ⟨1, 6⟩]

theorem recovery_resumes_stray :
    ∃ after left resumed, declaration 14 (Cursor.start 0 strayTokens) = .failed after ∧
      after.Stands strayTokens left ∧
      ((Cursor.start 0 strayTokens).recover after).Stands strayTokens resumed ∧
      left = 0 ∧ Resumes strayTokens 0 1 resumed := by
  have last : strayTokens.getLast? = some (.finish ⟨1, 6⟩) := rfl
  obtain ⟨after, failed⟩ :
      ∃ after, declaration 14 (Cursor.start 0 strayTokens) = .failed after := ⟨_, rfl⟩
  obtain ⟨_, start, left, resumed, _, _, _, begun, there, further, _, stray⟩ :=
    recovery_resumes last rfl .refl (by decide) failed
  obtain ⟨same, resumes, _⟩ := stray rfl
  have first : start = 0 := by
    have length := begun.rest_length
    exact Nat.add_eq_left.mp length
  subst first
  exact ⟨after, left, resumed, failed, there, further, same, resumes⟩

/-- The semicolon is left behind before the search for a boundary begins, and with it the statement that
follows; so what is wrong with that one is not reported. -/
theorem recovery_hides_statement :
    ∃ after, declaration 14 (Cursor.start 0 strayTokens) = .failed after ∧
      (Cursor.start 0 strayTokens).Stands strayTokens 0 ∧ after.Stands strayTokens 0 ∧
      ((Cursor.start 0 strayTokens).recover after).Stands strayTokens 4 ∧
      Resumes strayTokens 0 0 1 ∧ ¬Resumes strayTokens 0 0 4 ∧
      (parse 0 strayTokens).faults = [⟨1, .lexeme ";", .missing .expression⟩] ∧
      (parse 0 strayTokens.tail).faults =
        [⟨1, .lexeme "x", .missing .semicolonAfterExpression⟩] := by
  have member : .finish ⟨1, 6⟩ ∈ strayTokens := List.mem_of_getLast? rfl
  have start := Cursor.start_stands member rfl 0
  refine ⟨_, rfl, start, ⟨start.within, rfl, rfl, rfl⟩, ⟨by decide, rfl, rfl, rfl⟩, ?_, ?_,
    by cbv, by cbv⟩
  · exact ⟨0, _, Nat.le_refl 0, rfl, .inl rfl,
      fun _ _ _ less => absurd less (Nat.not_lt_zero _), rfl⟩
  · rintro ⟨_ | index, token, _, found, _, before, same⟩
    · cases found
      cases same
    · exact before 0 _ (Nat.le_refl 0) (Nat.succ_pos index) rfl (.inl rfl)

end Recovering
end LoxLang.Grammar
