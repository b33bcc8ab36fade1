import LoxLang.Proofs.Grammar.SeamStatements

/-!
Lists of declarations at a seam. A block that runs into the end of its list is reported there; behind a
list that nothing is missing from, reading goes on as if it began anew.
-/
namespace LoxLang.Grammar

variable {α β γ : Type}

/-- What lies between the two places ends in a semicolon or a closing brace. -/
def Cursor.Closed (before after : Cursor) : Prop :=
  ∃ front last, before.rest = front ++ last :: after.rest ∧
    (last.kind = .symbol .semicolon ∨ last.kind = .symbol .rightBrace)

theorem Cursor.Closed.behind {before middle after : Cursor} (ahead : before.Onward middle)
    (closed : middle.Closed after) : before.Closed after := by
  obtain ⟨taken, here⟩ := ahead.rest
  obtain ⟨front, last, there, ends⟩ := closed
  exact ⟨taken ++ front, last, by rw [← here, there, List.append_assoc], ends⟩

theorem Cursor.Closed.length_lt {before after : Cursor} (closed : before.Closed after) :
    after.rest.length < before.rest.length := by
  obtain ⟨front, last, here, _⟩ := closed
  rw [here, List.length_append, List.length_cons]
  omega

/-- All that the reader reads ends in a semicolon or a closing brace. -/
def Reader.Closes (reader : Reader α) : Prop :=
  ∀ cursor value after, reader cursor = .read value after → cursor.Closed after

namespace Reader.Closes

theorem bind {first : Reader α} {next : α → Reader β} (forward : first.Forward)
    (closes : ∀ value, (next value).Closes) : (first >>= next).Closes := by
  intro cursor value after result
  obtain ⟨made, middle, read, further⟩ := bind_eq_read.mp result
  exact .behind (forward.read read) (closes made middle value after further)

theorem map {first : Reader α} (closes : first.Closes) (change : α → β) :
    (change <$> first).Closes := by
  intro cursor value after result
  obtain ⟨made, read, _⟩ := map_eq_read.mp result
  exact closes cursor made after read

end Reader.Closes

theorem takeKind?_eq_read {kind : TokenKind} {cursor after : Cursor} {found : Option Token}
    (read : takeKind? kind cursor = .read found after) :
    found = none ∧ after = cursor ∨
      ∃ token, found = some token ∧ token.kind = kind ∧ cursor.rest = token :: after.rest := by
  obtain ⟨rest, finish, faults, nextId⟩ := cursor
  cases rest with
  | nil =>
    cases read
    exact .inl ⟨rfl, rfl⟩
  | cons token rest =>
    by_cases same : token.kind = kind
    · simp only [takeKind?, Reader.bind_apply, takeIf?, if_pos same] at read
      cases read
      exact .inr ⟨token, rfl, same, rfl⟩
    · simp only [takeKind?, Reader.bind_apply, takeIf?, if_neg same] at read
      cases read
      exact .inl ⟨rfl, rfl⟩

theorem closes_needSymbol {symbol : Symbol} (ends : symbol = .semicolon ∨ symbol = .rightBrace)
    (part : Part) : (needSymbol symbol part).Closes := by
  intro cursor value after result
  obtain ⟨found, middle, read, further⟩ := Reader.bind_eq_read.mp result
  rcases takeKind?_eq_read read with ⟨rfl, _⟩ | ⟨token, rfl, kind, here⟩
  · cases further
  · cases further
    refine ⟨[], value, here, ?_⟩
    rw [kind]
    exact ends.imp (congrArg _) (congrArg _)

theorem closes_fail (cause : StaticCause) : (fail cause : Reader α).Closes := by
  intro cursor value after result
  cases result

section Closing

variable {value : Reader Expr} {inner item : Reader Stmt} {block : Reader (List Stmt)}

theorem closes_restOfVariable (forward : value.Forward) : (restOfVariable value).Closes :=
  .bind (forwards.needName _) fun _ => .bind (forwards.initializer forward) fun _ =>
    (closes_needSymbol (.inl rfl) _).map _

theorem closes_restOfFunction (bound : Nat) (closes : block.Closes) :
    (restOfFunction bound block).Closes :=
  .bind (forwards.needName _) fun _ => .bind (forwards.needSymbol _ _) fun _ =>
    .bind (forwards.parameters bound) fun _ => .bind (forwards.needSymbol _ _) fun _ => closes.map _

theorem closes_restOfBlock (bound : Nat) (forward : item.Forward) : (restOfBlock bound item).Closes :=
  .bind (forwards.statementsUntil _ forward _ _) fun _ => (closes_needSymbol (.inr rfl) _).map _

theorem closes_restOfExpression (forward : value.Forward) : (restOfExpression value).Closes :=
  .bind forward fun _ => (closes_needSymbol (.inl rfl) _).map _

theorem closes_restOfPrint (forward : value.Forward) : (restOfPrint value).Closes :=
  .bind forward fun _ => (closes_needSymbol (.inl rfl) _).map _

theorem closes_restOfReturn (line : Nat) (forward : value.Forward) :
    (restOfReturn line value).Closes := by
  intro cursor statement after result
  obtain ⟨found, middle, read, further⟩ := Reader.bind_eq_read.mp result
  rcases takeKind?_eq_read read with ⟨rfl, rfl⟩ | ⟨token, rfl, kind, here⟩
  · exact Reader.Closes.bind forward (fun _ => (closes_needSymbol (.inl rfl) _).map _) _ _ _ further
  · cases further
    exact ⟨[], token, here, .inl kind⟩

theorem closes_restOfIf (forward : value.Forward) (closes : inner.Closes) :
    (restOfIf value inner).Closes := by
  refine .bind (forwards.needSymbol _ _) fun _ => .bind forward fun _ =>
    .bind (forwards.needSymbol _ _) fun _ => ?_
  intro cursor statement after result
  obtain ⟨yes, middle, readYes, further⟩ := Reader.bind_eq_read.mp result
  have closed := closes _ _ _ readYes
  obtain ⟨found, last, read, rest⟩ := Reader.bind_eq_read.mp further
  rcases takeKind?_eq_read read with ⟨rfl, rfl⟩ | ⟨token, rfl, _, here⟩
  · cases rest
    exact closed
  · obtain ⟨no, readNo, _⟩ := Reader.map_eq_read.mp rest
    obtain ⟨taken, first, there, _⟩ := closed
    obtain ⟨front, final, behind, ends⟩ := closes _ _ _ readNo
    exact ⟨taken ++ first :: token :: front, final, by rw [there, here, behind]; simp, ends⟩

theorem closes_restOfWhile (forward : value.Forward) (closes : inner.Closes) :
    (restOfWhile value inner).Closes :=
  .bind (forwards.needSymbol _ _) fun _ => .bind forward fun _ =>
    .bind (forwards.needSymbol _ _) fun _ => closes.map _

theorem closes_restOfFor (forward : value.Forward) (closes : inner.Closes) :
    (restOfFor value inner).Closes :=
  .bind forward_peek fun _ => .bind (forwards.needSymbol _ _) fun _ =>
    .bind (forwards.forInitializer forward) fun _ => .bind (forwards.forCondition _ forward) fun _ =>
      .bind (forwards.needSymbol _ _) fun _ => .bind (forwards.forIncrement forward) fun _ =>
        .bind (forwards.needSymbol _ _) fun _ => closes.map _

theorem closes_statementWith (forward : value.Forward) (blockCloses : block.Closes)
    (innerCloses : inner.Closes) : (statementWith value block inner).Closes := by
  refine .bind (forward_takeIf? _) fun found => ?_
  match found with
  | none => exact closes_restOfExpression forward
  | some (.if, _) => exact closes_restOfIf forward innerCloses
  | some (.while, _) => exact closes_restOfWhile forward innerCloses
  | some (.for, _) => exact closes_restOfFor forward innerCloses
  | some (.print, _) => exact closes_restOfPrint forward
  | some (.return, token) => exact closes_restOfReturn token.line forward
  | some (.block, _) => exact blockCloses.map _

theorem closes_declarationWith (bound : Nat) (forward : value.Forward) (blockCloses : block.Closes)
    (innerCloses : inner.Closes) : (declarationWith bound value block inner).Closes := by
  refine .bind (forward_takeKind? _) fun found => ?_
  match found with
  | some _ => exact closes_restOfVariable forward
  | none =>
    refine .bind (forward_takeKind? _) fun found => ?_
    match found with
    | some _ => exact closes_restOfFunction bound blockCloses
    | none => exact innerCloses

theorem closes_declaration_statement (bound : Nat) :
    Reader.Closes (declaration bound) ∧ Reader.Closes (statement bound) := by
  induction bound with
  | zero => exact ⟨closes_fail _, closes_fail _⟩
  | succ bound ih =>
    obtain ⟨_, statements⟩ := ih
    have values := forwards.expression bound
    have blocks := closes_restOfBlock bound (forwards.declaration bound)
    exact ⟨closes_declarationWith bound values blocks statements,
      closes_statementWith values blocks statements⟩

end Closing

/-- What is left to look for a boundary in after an attempt that gave up. -/
def Cursor.passed (before after : Cursor) : List Token :=
  if after.rest.length = before.rest.length then after.rest.tail else after.rest

theorem recover_eq (before after : Cursor) :
    before.recover after = { after with rest := fromBoundary (before.passed after) } := rfl

theorem passed_length_lt {before after : Cursor} (ahead : before.Onward after)
    (some : before.rest ≠ []) : (before.passed after).length < before.rest.length := by
  have shorter := ahead.rest.length_le
  have positive := List.length_pos_iff.mpr some
  unfold Cursor.passed
  split
  · rw [List.length_tail]
    omega
  · omega

theorem recover_length_lt {before after : Cursor} (ahead : before.Onward after)
    (some : before.rest ≠ []) : (before.recover after).rest.length < before.rest.length :=
  Nat.lt_of_le_of_lt (fromBoundary_suffix _).length_le (passed_length_lt ahead some)

/-- An attempt takes a token: a declaration that is read does, and where one is given up, the recovery. -/
theorem orRecover_length_lt {item : Reader Stmt} (forward : item.Forward) (closes : item.Closes)
    {cursor after : Cursor} {found : Option Stmt} (some : cursor.rest ≠ [])
    (read : orRecover item cursor = .read found after) :
    after.rest.length < cursor.rest.length := by
  unfold orRecover at read
  split at read
  · rename_i statement last result
    cases read
    exact (closes _ _ _ result).length_lt
  · rename_i last result
    cases read
    exact recover_length_lt (forward.failed result).1 some

namespace Seam

variable {seam : Seam} {length bound bound' : Nat}

theorem passed_seam {left right left' right' : Cursor} (meets : seam.Meets left right)
    (moved : seam.Moved left right left' right') (here : seam.ahead left'.rest) :
    right.passed right' = left.passed left' ++ seam.tail := by
  unfold Cursor.passed
  rw [meets.rest, moved.meets.rest]
  cases rest : left'.rest with
  | nil =>
    rw [rest] at here
    obtain ⟨none, _⟩ := seam.stop here
    simp [none]
  | cons token more =>
    simp only [List.length_append, Nat.add_right_cancel_iff]
    split <;> rfl

/-- What is left after a failed declaration goes on, or it was the end of the list that was passed. -/
theorem passed_open {left left' : Cursor} (there : seam.ahead left'.rest) :
    seam.Open (left.passed left') := by
  unfold Cursor.passed
  split
  · cases rest : left'.rest with
    | nil => exact .inr rfl
    | cons token more =>
      rw [rest] at there
      exact seam.pass there
  · exact .inl there

theorem passed_ahead {left left' : Cursor} (onward : left'.rest <:+ left.rest)
    (there : seam.ahead left'.rest) (further : seam.ahead left.rest.tail) :
    seam.ahead (left.passed left') := by
  unfold Cursor.passed
  split
  · rename_i same
    rw [onward.eq_of_length same]
    exact further
  · exact there

theorem recover_seam {left right left' right' : Cursor} (meets : seam.Meets left right)
    (moved : seam.Moved left right left' right') (here : seam.ahead left'.rest)
    (there : seam.ahead (left.passed left')) :
    seam.Moved left right (left.recover left') (right.recover right') := by
  refine ⟨⟨moved.meets.finish, moved.meets.otherFinish, ?_⟩, moved.faults⟩
  rw [recover_eq, recover_eq]
  simp only [passed_seam meets moved here, (fromBoundary_seam there).1]

section Blocks

variable {item item' : Reader Stmt}

/-- An attempt comes to the same on both sides, unless the run over the shorter list is lost in it or
the recovery begins behind the last semicolon of that list. -/
theorem orRecover_seam
    (items : seam.Along seam.Starved length seam.ahead seam.Open Stmt.erase item item')
    (closes : item.Closes) {left right left' : Cursor} (meets : seam.Meets left right)
    (here : seam.ahead left.rest) (short : left.rest.length < length) {found : Option Stmt}
    (read : orRecover item left = .read found left') :
    seam.Starved left' ∨
      left'.rest = [] ∧ ¬seam.ahead [] ∧ ¬seam.ahead left.rest.tail ∨
      ∃ found' right', orRecover item' right = .read found' right' ∧
        Stmt.eraseAll found.toList = Stmt.eraseAll found'.toList ∧
        seam.Moved left right left' right' ∧
        (left'.rest = [] ∨ seam.ahead left'.rest ∧ seam.ahead left'.rest.tail) := by
  have ahead := items.forward left
  have agree := items.agree left right meets here short
  cases result : item left with
  | read statement last =>
    rw [result] at agree
    rw [orRecover, result] at read
    cases read
    rcases agree with gone | agree
    · exact .inl gone
    revert agree
    cases twin : item' right with
    | failed _ => rintro ⟨⟩
    | read statement' right' =>
      rintro (⟨alike, _, moved⟩ | _)
      have attempt : orRecover item' right = .read (some statement') right' := by
        rw [orRecover, twin]
      -- What has been read ends in a semicolon or a bracket, and behind that the list goes on or is
      -- over.
      obtain ⟨front, final, shape, ends⟩ := closes _ _ _ result
      rw [shape] at here
      refine .inr (.inr ⟨_, right', attempt, ?_, moved, seam.settle here ends⟩)
      simp [Stmt.eraseAll, alike]
  | failed last =>
    rw [result] at ahead agree
    rw [orRecover, result] at read
    cases read
    rcases agree with gone | agree
    · exact .inl gone
    revert agree
    cases twin : item' right with
    | read _ _ => rintro ⟨⟩
    | failed right' =>
      rintro (_ | ⟨there, moved⟩)
      have attempt : orRecover item' right = .read none (right.recover right') := by
        rw [orRecover, twin]
      -- Either the recovery begins inside of the list, or at its end.
      by_cases still : seam.ahead (left.passed last)
      · exact .inr (.inr ⟨none, _, attempt, rfl, recover_seam meets moved there still,
          (fromBoundary_seam still).2⟩)
      · have out : left.passed last = [] := (passed_open there).resolve_left still
        refine .inr (.inl ⟨?_, out ▸ still, fun further => still ?_⟩)
        · rw [recover_eq]
          simp only [out]
          rfl
        · exact passed_ahead ahead.1.rest there further

def blockFrom (item : Reader Stmt) (bound : Nat) (done : List Stmt) : Reader (List Stmt) := do
  let statements ← statementsUntil endsBlock item bound done
  let _ ← needSymbol .rightBrace .braceAfterBlock
  pure statements

theorem forward_blockFrom (forward : item.Forward) (bound : Nat) (done : List Stmt) :
    (blockFrom item bound done).Forward :=
  (forwards.statementsUntil _ forward _ _).bind fun _ => (forwards.needSymbol _ _).bind fun _ =>
    .pure _

theorem blockFrom_stops (bound : Nat) (done : List Stmt) {cursor : Cursor}
    (stopped : endsBlock cursor.token.kind = true) :
    blockFrom item bound done cursor =
      (needSymbol .rightBrace .braceAfterBlock >>= fun _ => pure done.reverse) cursor := by
  rw [blockFrom, Reader.bind_apply, statementsUntil_stops bound done stopped]

theorem blockFrom_next (bound : Nat) (done : List Stmt) {cursor after : Cursor} {found : Option Stmt}
    (goes : endsBlock cursor.token.kind = false) (read : orRecover item cursor = .read found after) :
    blockFrom item (bound + 1) done cursor = blockFrom item bound (found.toList ++ done) after := by
  rw [blockFrom, Reader.bind_apply, statementsUntil_next bound done goes read]
  rfl

theorem starves_blockFrom (bound : Nat) (done : List Stmt) : (blockFrom item bound done).Starves := by
  intro cursor none finish
  rw [blockFrom_stops bound done (by rw [Cursor.token_finish none finish]; rfl)]
  exact (starves_needSymbol _ _).bind (fun _ => .pure _) cursor none finish

/-- A declaration that begins at the last semicolon of the list would be recovered from behind it; in a
block that is no matter, since the block is then not closed inside of the list. -/
theorem along_blockFrom
    (items : seam.Along seam.Starved length seam.ahead seam.Open Stmt.erase item item')
    (closes : item.Closes) (enough : length ≤ bound) (enough' : length ≤ bound')
    {done done' : List Stmt} (same : Stmt.eraseAll done = Stmt.eraseAll done') :
    seam.Along seam.Starved length seam.Open seam.Open Stmt.eraseAll (blockFrom item bound done)
      (blockFrom item' bound' done') := by
  -- every round of the block takes a token at least, read or passed over, so the length bounds them
  induction length generalizing bound bound' done done' with
  | zero => exact .zero (forward_blockFrom items.forward bound done)
  | succ length ih =>
    obtain ⟨bound, rfl⟩ := Nat.exists_eq_add_one_of_ne_zero (Nat.ne_zero_of_lt enough)
    obtain ⟨bound', rfl⟩ := Nat.exists_eq_add_one_of_ne_zero (Nat.ne_zero_of_lt enough')
    have fewer := items.shorter (Nat.le_succ length)
    have room := Nat.le_of_succ_le_succ enough
    have room' := Nat.le_of_succ_le_succ enough'
    have forward := forward_blockFrom items.forward
    have inside : seam.Along seam.Starved (length + 1) seam.ahead seam.Open Stmt.eraseAll
        (blockFrom item (bound + 1) done) (blockFrom item' (bound' + 1) done') := by
      refine ⟨forward _ _, fun left right meets here short => ?_⟩
      have token := meets.token here
      cases goes : endsBlock left.token.kind with
      | true =>
        rw [blockFrom_stops _ done goes, blockFrom_stops _ done' (by rw [token]; exact goes)]
        have reversed : Stmt.eraseAll done.reverse = Stmt.eraseAll done'.reverse := by
          rw [Stmt.eraseAll_eq_map, Stmt.eraseAll_eq_map] at same ⊢
          rw [List.map_reverse, List.map_reverse, same]
        exact ((along_needSymbol _ (inside (by decide))).bind (persists_starved seam) fun _ _ _ =>
          .pure reversed).weaken (fun _ here => here) (fun _ => .inl) |>.agree left right meets here short
      | false =>
        have some : left.rest ≠ [] := by
          intro none
          rw [Cursor.token_finish none (by rw [meets.finish]; exact seam.ends)] at goes
          cases goes
        have goes' : endsBlock right.token.kind = false := by rw [token]; exact goes
        obtain ⟨found, left', read⟩ := orRecover_reads item left
        have onward := (forward_orRecover items.forward).read read
        have less := orRecover_length_lt items.forward closes some read
        rw [blockFrom_next bound done goes read]
        rcases orRecover_seam items closes meets here short read with
          gone | ⟨out, apart, _⟩ | ⟨found', right', twin, alike, moved, settled⟩
        · exact .inl (persists_starved seam ((forward bound _).onward left') gone)
        · -- nothing is left to close the block
          have ends : left'.finish.kind = .finish := by
            rw [onward.finish, meets.finish]
            exact seam.ends
          exact .inl ⟨apart, starves_blockFrom bound _ left' out ends⟩
        · rw [blockFrom_next bound' done' goes' twin]
          have more : Stmt.eraseAll (found.toList ++ done) =
              Stmt.eraseAll (found'.toList ++ done') := by
            rw [Stmt.eraseAll_eq_map, Stmt.eraseAll_eq_map] at alike same ⊢
            rw [List.map_append, List.map_append, alike, same]
          have opens : seam.Open left'.rest := settled.elim .inr fun both => .inl both.1
          exact ((ih fewer room room' more).agree _ _ moved.meets opens (by omega)).imp_right
            (.extend moved)
    exact inside.open (starves_blockFrom _ _)

theorem along_restOfBlock
    (items : seam.Along seam.Starved length seam.ahead seam.Open Stmt.erase item item')
    (closes : item.Closes) (enough : length ≤ bound) (enough' : length ≤ bound') :
    seam.Along seam.Starved length seam.ahead seam.Open Stmt.eraseAll (restOfBlock bound item)
      (restOfBlock bound' item') :=
  (along_blockFrom items closes enough enough' rfl).weaken (fun _ => .inl) fun _ here => here

end Blocks

section Declarations

variable {value value' : Reader Expr} {inner inner' : Reader Stmt} {block block' : Reader (List Stmt)}

theorem opening?_apart {kind : TokenKind} {opening : Opening} (chosen : opening? kind = some opening) :
    kind ≠ .symbol .semicolon := by
  rintro rfl
  cases chosen

theorem along_statementWith (values : seam.Within length Expr.erase value value')
    (starves : value.Starves)
    (blocks : seam.Along seam.Starved (length - 1) seam.ahead seam.Open Stmt.eraseAll block block')
    (inners : seam.Along seam.Starved (length - 1) seam.ahead seam.Open Stmt.erase inner inner') :
    seam.Along seam.Starved length seam.ahead seam.Open Stmt.erase (statementWith value block inner)
      (statementWith value' block' inner') := by
  have fewer := values.shorter (Nat.sub_le length 1)
  refine .bind_takeIf (fun here chosen => seam.step here (opening?_apart chosen))
    (along_restOfExpression values) fun opening token _ => ?_
  cases opening with
  | «if» => exact along_restOfIf fewer inners
  | «while» => exact along_restOfWhile fewer inners
  | «for» => exact along_restOfFor fewer starves inners
  | print => exact along_restOfPrint fewer
  | «return» => exact along_restOfReturn fewer token.line
  | block =>
    refine blocks.map (persists_starved seam) fun body body' same => ?_
    rw [Stmt.erase, Stmt.erase, same]

theorem along_declarationWith (values : seam.Within length Expr.erase value value')
    (blocks : seam.Along seam.Starved (length - 1) seam.ahead seam.Open Stmt.eraseAll block block')
    (inners : seam.Along seam.Starved length seam.ahead seam.Open Stmt.erase inner inner')
    (enough : length ≤ bound) (enough' : length ≤ bound') :
    seam.Along seam.Starved length seam.ahead seam.Open Stmt.erase
      (declarationWith bound value block inner) (declarationWith bound' value' block' inner') := by
  refine .bind_takeKind (inside (by decide : .keyword .var ≠ _)) ?_ fun _ _ => ?_
  · refine .bind_takeKind (inside (by decide : .keyword .fun ≠ _)) inners fun _ _ => ?_
    exact along_restOfFunction (by omega) (by omega) blocks
  · exact along_restOfVariable (values.shorter (Nat.sub_le length 1))

theorem along_declaration_statement (seam : Seam) (length : Nat) :
    (∀ bound bound', 2 * length + 2 < bound → 2 * length + 2 < bound' →
      seam.Along seam.Starved length seam.ahead seam.Open Stmt.erase (declaration bound)
        (declaration bound')) ∧
    ∀ bound bound', 2 * length + 1 < bound → 2 * length + 1 < bound' →
      seam.Along seam.Starved length seam.ahead seam.Open Stmt.erase (statement bound)
        (statement bound') := by
  induction length with
  | zero => exact ⟨fun bound _ _ _ => .zero (forwards.declaration bound),
      fun bound _ _ _ => .zero (forwards.statement bound)⟩
  | succ length ih =>
    obtain ⟨declarations, statements⟩ := ih
    have blocks (bound bound' : Nat) (enough : 2 * length + 2 < bound)
        (enough' : 2 * length + 2 < bound') :
        seam.Along seam.Starved length seam.ahead seam.Open Stmt.eraseAll
          (restOfBlock bound (declaration bound)) (restOfBlock bound' (declaration bound')) :=
      along_restOfBlock (declarations bound bound' enough enough')
        (closes_declaration_statement bound).1 (by omega) (by omega)
    have statement (bound bound' : Nat) (enough : 2 * (length + 1) + 1 < bound)
        (enough' : 2 * (length + 1) + 1 < bound') :
        seam.Along seam.Starved (length + 1) seam.ahead seam.Open Stmt.erase (statement bound)
          (statement bound') := by
      obtain ⟨bound, rfl⟩ := Nat.exists_eq_add_one_of_ne_zero (show bound ≠ 0 by omega)
      obtain ⟨bound', rfl⟩ := Nat.exists_eq_add_one_of_ne_zero (show bound' ≠ 0 by omega)
      exact along_statementWith (within_expression (by omega) (by omega)) (starves_expression bound)
        (blocks bound bound' (by omega) (by omega)) (statements bound bound' (by omega) (by omega))
    refine ⟨fun bound bound' enough enough' => ?_, statement⟩
    obtain ⟨bound, rfl⟩ := Nat.exists_eq_add_one_of_ne_zero (show bound ≠ 0 by omega)
    obtain ⟨bound', rfl⟩ := Nat.exists_eq_add_one_of_ne_zero (show bound' ≠ 0 by omega)
    exact along_declarationWith (within_expression (by omega) (by omega))
      (blocks bound bound' (by omega) (by omega)) (statement bound bound' (by omega) (by omega))
      (by omega) (by omega)

end Declarations

end Seam
end LoxLang.Grammar
