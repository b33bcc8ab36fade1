import LoxLang.Proofs.Grammar.Progress

/-!
Where readers report. A fault stands at a token that its reader has looked at: one that it took, or the
one that it left in place.
-/
namespace LoxLang

/-- The fault has the line of the token, and names it as it is spelt. -/
structure StaticFault.At (fault : StaticFault) (token : Token) : Prop where
  line : fault.line = token.line
  place : fault.place = token.place

namespace Grammar

variable {α β : Type}

/-- Between the two the token was taken, or it comes next after both. -/
def Cursor.Examines (before after : Cursor) (token : Token) : Prop :=
  token = after.token ∨ ∃ taken, before.rest = taken ++ after.rest ∧ token ∈ taken

/-- New faults stand at tokens that were examined. -/
structure Cursor.Shows (before after : Cursor) : Prop extends before.Onward after where
  located : ∀ fault ∈ after.faults.toList, fault ∈ before.faults.toList ∨
    ∃ token, before.Examines after token ∧ fault.At token

namespace Cursor.Examines

variable {before middle after : Cursor} {token : Token}

theorem next (ahead : before.Onward after) : before.Examines after before.token := by
  obtain ⟨taken, split⟩ := ahead.rest
  cases taken with
  | nil =>
    have same : after.rest = before.rest := split
    left
    rw [Cursor.token, Cursor.token, same, ahead.finish]
  | cons first others =>
    refine .inr ⟨first :: others, split.symm, ?_⟩
    rw [Cursor.token, ← split]
    exact List.mem_cons_self

theorem further (examined : before.Examines middle token) (ahead : before.Onward middle)
    (onward : middle.Onward after) : before.Examines after token := by
  obtain ⟨first, begun⟩ := ahead.rest
  rcases examined with rfl | ⟨taken, split, member⟩
  · rcases Examines.next onward with next | ⟨last, gone, member⟩
    · exact .inl next
    · refine .inr ⟨first ++ last, ?_, List.mem_append_right _ member⟩
      rw [← begun, gone, List.append_assoc]
  · obtain ⟨last, gone⟩ := onward.rest
    refine .inr ⟨taken ++ last, ?_, List.mem_append_left _ member⟩
    rw [split, ← gone, List.append_assoc]

theorem earlier (ahead : before.Onward middle) (examined : middle.Examines after token) :
    before.Examines after token := by
  obtain ⟨first, begun⟩ := ahead.rest
  rcases examined with next | ⟨taken, split, member⟩
  · exact .inl next
  · refine .inr ⟨first ++ taken, ?_, List.mem_append_right _ member⟩
    rw [← begun, split, List.append_assoc]

theorem among (examined : before.Examines after token) (ahead : before.Onward after) :
    token = before.finish ∨ token ∈ before.rest := by
  rcases examined with rfl | ⟨taken, split, member⟩
  · cases left : after.rest with
    | nil =>
      have last : after.token = after.finish := by rw [Cursor.token, left]
      exact .inl (last.trans ahead.finish)
    | cons first others =>
      have here : after.token = first := by rw [Cursor.token, left]
      exact .inr (here ▸ ahead.rest.subset (left ▸ List.mem_cons_self))
  · exact .inr (split ▸ List.mem_append_left _ member)

end Cursor.Examines

namespace Cursor.Shows

variable {before middle after : Cursor}

theorem of_faults (ahead : before.Onward after) (same : after.faults = before.faults) :
    before.Shows after :=
  ⟨ahead, fun _ member => .inl (same ▸ member)⟩

theorem refl (cursor : Cursor) : cursor.Shows cursor := of_faults (.refl cursor) rfl

theorem trans (ahead : before.Shows middle) (onward : middle.Shows after) : before.Shows after := by
  refine ⟨ahead.toOnward.trans onward.toOnward, fun fault member => ?_⟩
  rcases onward.located fault member with old | ⟨token, examined, points⟩
  · rcases ahead.located fault old with older | ⟨token, examined, points⟩
    · exact .inl older
    · exact .inr ⟨token, examined.further ahead.toOnward onward.toOnward, points⟩
  · exact .inr ⟨token, examined.earlier ahead.toOnward, points⟩

theorem report (ahead : before.Shows after) {token : Token} (examined : before.Examines after token)
    (cause : StaticCause) : before.Shows (after.reportAt token cause) := by
  refine ⟨ahead.toOnward.trans (.reportAt after token cause), fun fault member => ?_⟩
  rcases List.mem_append.mp (Array.toList_push ▸ member) with old | new
  · exact ahead.located fault old
  · rw [List.mem_singleton.mp new]
    exact .inr ⟨token, examined, rfl, rfl⟩

theorem reportNext (cursor : Cursor) (cause : StaticCause) :
    cursor.Shows (cursor.reportAt cursor.token cause) :=
  (refl cursor).report (.inl rfl) cause

theorem bind {first : Reader α} {next : α → Reader β} {cursor : Cursor}
    (ahead : before.Shows (first cursor).cursor)
    (further : ∀ value after, first cursor = .read value after → before.Shows after →
      before.Shows (next value after).cursor) :
    before.Shows ((first >>= next) cursor).cursor := by
  rw [Reader.bind_apply]
  cases result : first cursor with
  | read value after =>
    rw [result] at ahead
    exact further value after result ahead
  | failed after =>
    rw [result] at ahead
    exact ahead

end Cursor.Shows

def Reader.Points (reader : Reader α) : Prop :=
  ∀ cursor : Cursor, cursor.Shows (reader cursor).cursor

namespace Reader.Points

theorem bind {first : Reader α} {next : α → Reader β} (ahead : first.Points)
    (further : ∀ value, (next value).Points) : (first >>= next).Points := fun cursor =>
  .bind (ahead cursor) fun value after _ shown => shown.trans (further value after)

theorem pure (value : α) : (Pure.pure value : Reader α).Points := fun cursor => .refl cursor

theorem read {reader : Reader α} (points : reader.Points) {cursor after : Cursor} {value : α}
    (result : reader cursor = .read value after) : cursor.Shows after := by
  simpa only [result, Reading.cursor] using points cursor

theorem quiet {reader : Reader α} (forward : reader.Forward)
    (silent : ∀ cursor, (reader cursor).cursor.faults = cursor.faults) : reader.Points :=
  fun cursor => .of_faults (forward.onward cursor) (silent cursor)

end Reader.Points

theorem points_peek : peek.Points := fun cursor => .refl cursor

theorem points_take : take.Points := .quiet forward_take fun _ => rfl

theorem points_newSite (line : Nat) : (newSite line).Points := .quiet (forward_newSite line) fun _ => rfl

theorem points_fail (cause : StaticCause) : (fail cause : Reader α).Points :=
  fun cursor => .reportNext cursor cause

theorem points_takeIf? (choose : TokenKind → Option α) : (takeIf? choose).Points := by
  refine .quiet (forward_takeIf? choose) fun cursor => ?_
  unfold takeIf?
  split
  · rfl
  · split <;> rfl

theorem points_takeKind? (kind : TokenKind) : (takeKind? kind).Points :=
  (points_takeIf? _).bind fun found =>
    match found with
    | none => .pure none
    | some (_, token) => .pure (some token)

theorem points_checkLimit (count : Nat) (cause : StaticCause) : (checkLimit count cause).Points := by
  intro cursor
  unfold checkLimit
  split
  · exact .reportNext cursor cause
  · exact .refl cursor

theorem takeKind?_examines {kind : TokenKind} {cursor after : Cursor} {token : Token}
    (taken : takeKind? kind cursor = .read (some token) after) : cursor.Examines after token := by
  obtain ⟨found, middle, chosen, read⟩ := Reader.bind_eq_read.mp taken
  cases found with
  | none => cases read
  | some pair =>
    cases read
    unfold takeIf? at chosen
    split at chosen
    · cases chosen
    · rename_i first rest here
      split at chosen
      · cases chosen
      · cases chosen
        exact .inr ⟨[first], here, List.mem_cons_self⟩

theorem points_assignment {target value : Reader Expr} (targetPoints : target.Points)
    (valuePoints : value.Points) : (assignment target value).Points := by
  intro cursor
  unfold assignment
  refine .bind (targetPoints cursor) fun left middle _ begun => ?_
  refine .bind (begun.trans (points_takeKind? _ middle)) fun found after taken seen => ?_
  match found, taken with
  | none, _ => exact seen
  | some sign, taken =>
    refine .bind (seen.trans (valuePoints after)) fun right last read shown => ?_
    split
    · exact .bind (shown.trans (points_newSite _ last)) fun _ _ _ done => done
    · have examined : cursor.Examines last sign :=
        ((takeKind?_examines taken).earlier begun.toOnward).further seen.toOnward
          (valuePoints.read read).toOnward
      exact .bind (shown.report examined _) fun _ _ same done => done

theorem points_misplaced {right : Reader Expr} (points : right.Points) : (misplaced right).Points := by
  intro cursor
  have taken := (Cursor.Shows.reportNext cursor (.missing .leftOperand)).trans (points_take _)
  have passed := (points { (cursor.reportAt cursor.token (.missing .leftOperand)).advance with
    faults := #[] }).toOnward
  exact taken.trans (.of_faults ⟨passed.rest, passed.finish, List.prefix_refl _, passed.nextId⟩ rfl)

theorem points_orRecover {item : Reader Stmt} (points : item.Points) : (orRecover item).Points := by
  intro cursor
  have shown := points cursor
  unfold orRecover
  cases result : item cursor with
  | read statement after => simpa only [result, Reading.cursor] using shown
  | failed after =>
    rw [result] at shown
    -- what recovery passes over was not examined, but comes after all that was
    have onward : after.Onward (cursor.recover after) := recover_passes cursor after
    exact shown.trans (.of_faults onward rfl)

/-- All readers point at tokens that they have examined. -/
theorem pointers : Uniform @Reader.Points where
  pure := .pure
  bind := .bind
  fail := points_fail
  peek := points_peek
  take := points_take
  newSite := points_newSite
  takeIf? := points_takeIf?
  checkLimit := points_checkLimit
  assignment := points_assignment
  misplaced := points_misplaced
  orRecover := points_orRecover

/-- Every fault of a token list stands at one of its tokens. -/
theorem parse_faults {tokens : List Token} {finish : Token}
    (ends : tokens.find? (·.isFinish) = some finish) (nextId : Nat) :
    ∀ fault ∈ (parse nextId tokens).faults, ∃ token ∈ tokens, fault.At token := by
  intro fault member
  obtain ⟨program, after, read, result⟩ := parse_eq nextId tokens
  rw [result] at member
  have shown := (pointers.statementsUntil (· == .finish) (pointers.declaration (enough tokens))
    (enough tokens) []).read read
  rcases shown.located fault member with never | ⟨token, examined, points⟩
  · cases never
  · refine ⟨token, ?_, points⟩
    rcases examined.among shown.toOnward with last | inside
    · have here : (Cursor.start nextId tokens).finish = finish := by rw [Cursor.start, ends]; rfl
      rw [last, here]
      exact List.mem_of_find?_eq_some ends
    · exact (List.takeWhile_sublist _).subset inside

end Grammar
end LoxLang
