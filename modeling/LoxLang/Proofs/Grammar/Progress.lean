import LoxLang.Proofs.Grammar.Uniform

/-!
Readers only move onward: tokens are taken from the front, faults are added at the end and nodes are
numbered upwards. A reader that gives up has reported at least one fault of its own.
-/
namespace LoxLang.Grammar

variable {α β : Type}

structure Cursor.Onward (before after : Cursor) : Prop where
  rest : after.rest <:+ before.rest
  finish : after.finish = before.finish
  faults : before.faults.toList <+: after.faults.toList
  nextId : before.nextId ≤ after.nextId

namespace Cursor.Onward

theorem refl (cursor : Cursor) : cursor.Onward cursor :=
  ⟨List.suffix_refl _, rfl, List.prefix_refl _, Nat.le_refl _⟩

theorem trans {first middle last : Cursor} (ahead : first.Onward middle)
    (further : middle.Onward last) : first.Onward last :=
  ⟨further.rest.trans ahead.rest, further.finish.trans ahead.finish,
    ahead.faults.trans further.faults, Nat.le_trans ahead.nextId further.nextId⟩

theorem advance (cursor : Cursor) : cursor.Onward cursor.advance :=
  ⟨List.tail_suffix _, rfl, List.prefix_refl _, Nat.le_refl _⟩

theorem reportAt (cursor : Cursor) (token : Token) (cause : StaticCause) :
    cursor.Onward (cursor.reportAt token cause) :=
  ⟨List.suffix_refl _, rfl, by simp [Cursor.reportAt], Nat.le_refl _⟩

theorem size_le {before after : Cursor} (ahead : before.Onward after) :
    before.faults.size ≤ after.faults.size := by
  simpa using ahead.faults.length_le

end Cursor.Onward

def Reading.From (before : Cursor) : Reading α → Prop
  | .read _ after => before.Onward after
  | .failed after => before.Onward after ∧ before.faults.size < after.faults.size

theorem Reading.From.onward {before : Cursor} {reading : Reading α} (ahead : reading.From before) :
    before.Onward reading.cursor := by
  cases reading with
  | read value after => exact ahead
  | failed after => exact ahead.1

theorem Reading.From.extend {before middle : Cursor} {reading : Reading α}
    (ahead : before.Onward middle) (further : reading.From middle) : reading.From before := by
  cases reading with
  | read value after => exact ahead.trans further
  | failed after => exact ⟨ahead.trans further.1, Nat.lt_of_le_of_lt ahead.size_le further.2⟩

def Reader.Forward (reader : Reader α) : Prop := ∀ cursor, (reader cursor).From cursor

namespace Reader

theorem bind_eq_read {first : Reader α} {next : α → Reader β} {cursor after : Cursor} {value : β} :
    (first >>= next) cursor = .read value after ↔
      ∃ made middle, first cursor = .read made middle ∧ next made middle = .read value after := by
  rw [bind_apply]
  cases first cursor with
  | read made middle =>
    constructor
    · intro result
      exact ⟨made, middle, rfl, result⟩
    · rintro ⟨_, _, same, result⟩
      cases same
      exact result
  | failed middle => simp

theorem map_eq_read {reader : Reader α} {change : α → β} {cursor after : Cursor} {value : β} :
    (change <$> reader) cursor = .read value after ↔
      ∃ made, reader cursor = .read made after ∧ change made = value := by
  change (reader >>= fun made => pure (change made)) cursor = _ ↔ _
  rw [bind_eq_read]
  constructor
  · rintro ⟨made, middle, read, same⟩
    cases same
    exact ⟨made, read, rfl⟩
  · rintro ⟨made, read, rfl⟩
    exact ⟨made, after, read, rfl⟩

namespace Forward

theorem onward {reader : Reader α} (forward : reader.Forward) (cursor : Cursor) :
    cursor.Onward (reader cursor).cursor := (forward cursor).onward

theorem read {reader : Reader α} (forward : reader.Forward) {cursor after : Cursor} {value : α}
    (result : reader cursor = .read value after) : cursor.Onward after := by
  simpa [result, Reading.From] using forward cursor

theorem failed {reader : Reader α} (forward : reader.Forward) {cursor after : Cursor}
    (result : reader cursor = .failed after) :
    cursor.Onward after ∧ cursor.faults.size < after.faults.size := by
  simpa [result, Reading.From] using forward cursor

theorem pure (value : α) : (Pure.pure value : Reader α).Forward := fun cursor => .refl cursor

theorem bind {first : Reader α} {next : α → Reader β} (ahead : first.Forward)
    (further : ∀ value, (next value).Forward) : (first >>= next).Forward := by
  intro cursor
  rw [bind_apply]
  have start := ahead cursor
  cases result : first cursor with
  | read value after =>
    rw [result] at start
    exact .extend start (further value after)
  | failed after =>
    rw [result] at start
    exact start

theorem map {reader : Reader α} (change : α → β) (forward : reader.Forward) :
    (change <$> reader).Forward := forward.bind fun value => .pure (change value)

end Forward
end Reader

theorem forward_peek : peek.Forward := fun cursor => .refl cursor

theorem forward_take : take.Forward := fun cursor => .advance cursor

theorem forward_report (token : Token) (cause : StaticCause) : (report token cause).Forward :=
  fun cursor => .reportAt cursor token cause

theorem forward_fail (cause : StaticCause) : (fail cause : Reader α).Forward := fun cursor =>
  ⟨.reportAt cursor _ cause, by simp [Cursor.reportAt]⟩

theorem forward_newSite (line : Nat) : (newSite line).Forward := fun _ =>
  ⟨List.suffix_refl _, rfl, List.prefix_refl _, Nat.le_succ _⟩

theorem forward_takeIf? (choose : TokenKind → Option α) : (takeIf? choose).Forward := by
  intro cursor
  unfold takeIf?
  split
  · exact .refl cursor
  · rename_i token rest found
    split
    · exact .refl cursor
    · exact ⟨found ▸ List.suffix_cons token rest, rfl, List.prefix_refl _, Nat.le_refl _⟩

theorem forward_takeKind? (kind : TokenKind) : (takeKind? kind).Forward :=
  (forward_takeIf? _).bind fun found =>
    match found with
    | none => .pure none
    | some (_, token) => .pure (some token)

theorem forward_silently {reader : Reader α} (forward : reader.Forward) :
    (silently reader).Forward := by
  intro cursor
  have ahead := forward.onward { cursor with faults := #[] }
  exact ⟨ahead.rest, ahead.finish, List.prefix_refl _, ahead.nextId⟩

theorem forward_checkLimit (count : Nat) (cause : StaticCause) :
    (checkLimit count cause).Forward := by
  intro cursor
  unfold checkLimit
  split
  · exact forward_report _ cause cursor
  · exact .refl cursor

section Expressions

theorem forward_assignment {target value : Reader Expr} (targetForward : target.Forward)
    (valueForward : value.Forward) : (assignment target value).Forward := by
  refine targetForward.bind fun left => (forward_takeKind? _).bind fun found => ?_
  match found with
  | none => exact .pure left
  | some sign =>
    refine valueForward.bind fun right => ?_
    split
    · exact (forward_newSite _).bind fun fresh => .pure _
    · exact (forward_report sign _).bind fun _ => .pure right

/-- Giving up reports nothing itself; the report on the operator came before it. -/
theorem forward_misplaced {right : Reader Expr} (forward : right.Forward) :
    (misplaced right).Forward := by
  intro cursor
  have reported := Cursor.Onward.reportAt cursor cursor.token (.missing .leftOperand)
  have taken := reported.trans (.advance _)
  have passed := forward_silently forward (cursor.reportAt cursor.token (.missing .leftOperand)).advance
  refine ⟨taken.trans passed, ?_⟩
  simp [Cursor.reportAt, Cursor.advance]

end Expressions

section Statements

theorem fromBoundary_suffix (tokens : List Token) : fromBoundary tokens <:+ tokens := by
  induction tokens with
  | nil => exact List.suffix_refl _
  | cons token rest ih =>
    have further : fromBoundary rest <:+ token :: rest := ih.trans (List.suffix_cons token rest)
    unfold fromBoundary
    split
    · exact List.suffix_cons token rest
    · split
      · exact List.suffix_refl _
      · exact further
    · exact further

theorem recover_passes (before after : Cursor) : after.Onward (before.recover after) := by
  have moved : (before.recover after).rest <:+ after.rest := by
    unfold Cursor.recover
    split
    · exact (fromBoundary_suffix _).trans (List.tail_suffix _)
    · exact fromBoundary_suffix _
  exact ⟨moved, rfl, List.prefix_refl _, Nat.le_refl _⟩

theorem forward_orRecover {item : Reader Stmt} (forward : item.Forward) :
    (orRecover item).Forward := by
  intro cursor
  have ahead := forward cursor
  unfold orRecover
  cases result : item cursor with
  | read statement after => simpa [result, Reading.From] using ahead
  | failed after =>
    rw [result] at ahead
    exact ahead.1.trans (recover_passes cursor after)

/-- All readers move onward. -/
theorem forwards : Uniform @Reader.Forward where
  pure := .pure
  bind := .bind
  fail := forward_fail
  peek := forward_peek
  take := forward_take
  newSite := forward_newSite
  takeIf? := forward_takeIf?
  checkLimit := forward_checkLimit
  assignment := forward_assignment
  misplaced := forward_misplaced
  orRecover := forward_orRecover

theorem orRecover_reads (item : Reader Stmt) (cursor : Cursor) :
    ∃ found after, orRecover item cursor = .read found after := by
  unfold orRecover
  cases item cursor with
  | read statement after => exact ⟨some statement, after, rfl⟩
  | failed after => exact ⟨none, cursor.recover after, rfl⟩

theorem orRecover_onward {item : Reader Stmt} {cursor after : Cursor} {found : Option Stmt}
    (read : orRecover item cursor = .read found after) : (item cursor).cursor.Onward after := by
  unfold orRecover at read
  split at read
  · rename_i statement last result
    cases read
    rw [result]
    exact .refl _
  · rename_i last result
    cases read
    rw [result]
    exact recover_passes cursor last

section Rounds

variable {stop : TokenKind → Bool} {item : Reader Stmt} {cursor after : Cursor}

theorem statementsUntil_stops (rounds : Nat) (done : List Stmt)
    (stopped : stop cursor.token.kind = true) :
    statementsUntil stop item rounds done cursor = .read done.reverse cursor := by
  cases rounds with
  | zero => rfl
  | succ rounds =>
    rw [statementsUntil, Reader.bind_apply]
    simp only [peek]
    rw [if_pos stopped]
    rfl

theorem statementsUntil_next (rounds : Nat) (done : List Stmt)
    (goes : stop cursor.token.kind = false) {found : Option Stmt}
    (read : orRecover item cursor = .read found after) :
    statementsUntil stop item (rounds + 1) done cursor =
      statementsUntil stop item rounds (found.toList ++ done) after := by
  rw [statementsUntil, Reader.bind_apply]
  simp only [peek]
  rw [if_neg (by rw [goes]; decide), Reader.bind_apply, read]

theorem statementsUntil_round (rounds : Nat) (done : List Stmt) {statement : Stmt}
    (goes : stop cursor.token.kind = false) (read : item cursor = .read statement after) :
    statementsUntil stop item (rounds + 1) done cursor =
      statementsUntil stop item rounds (statement :: done) after := by
  have attempt : orRecover item cursor = .read (some statement) after := by rw [orRecover, read]
  exact statementsUntil_next rounds done goes attempt

theorem statementsUntil_recovers (rounds : Nat) (done : List Stmt)
    (goes : stop cursor.token.kind = false) (failed : item cursor = .failed after) :
    statementsUntil stop item (rounds + 1) done cursor =
      statementsUntil stop item rounds done (cursor.recover after) := by
  have attempt : orRecover item cursor = .read none (cursor.recover after) := by
    rw [orRecover, failed]
  exact statementsUntil_next rounds done goes attempt

/-- A list of declarations is read to its end whatever is in it. -/
theorem statementsUntil_reads (stop : TokenKind → Bool) (item : Reader Stmt) (bound : Nat)
    (done : List Stmt) (cursor : Cursor) :
    ∃ statements after, statementsUntil stop item bound done cursor = .read statements after := by
  induction bound generalizing done cursor with
  | zero => exact ⟨_, _, rfl⟩
  | succ bound ih =>
    cases goes : stop cursor.token.kind with
    | true => exact ⟨_, _, statementsUntil_stops _ done goes⟩
    | false =>
      obtain ⟨found, after, read⟩ := orRecover_reads item cursor
      rw [statementsUntil_next bound done goes read]
      exact ih _ after

end Rounds

theorem parse_eq (nextId : Nat) (tokens : List Token) :
    ∃ program after,
      statementsUntil (· == .finish) (declaration (enough tokens)) (enough tokens) []
        (Cursor.start nextId tokens) = .read program after ∧
      parse nextId tokens = ⟨program, after.faults.toList, after.nextId⟩ := by
  obtain ⟨program, after, read⟩ := statementsUntil_reads (· == .finish)
    (declaration (enough tokens)) (enough tokens) [] (Cursor.start nextId tokens)
  refine ⟨program, after, read, ?_⟩
  rw [parse]
  simp only [read]

end Statements

end LoxLang.Grammar
