import Mathlib
import LoxLang.Proofs.Grammar.Programs
import LoxLang.Proofs.Grammar.SeamPrograms

/-!
Token lists one behind the other. If nothing is missing at the end of the first, parsing both together
reports what parsing them one by one does, and gives the statements of both in a row.
-/
namespace LoxLang.Grammar

open Seam

section Lists

variable {seam : Seam} {length : Nat} {item item' : Reader Stmt}

theorem statementsUntil_seam
    (items : seam.Along seam.Starved length seam.ahead seam.Open Stmt.erase item item')
    (closes : item.Closes) (rounds rounds' : Nat) (done done' : List Stmt) {left right : Cursor}
    (meets : seam.Meets left right) (short : left.rest.length < length)
    (room : left.rest.length ≤ rounds) (room' : left.rest.length ≤ rounds')
    (plain : ∀ token ∈ left.rest, token.kind ≠ .finish)
    (start : left.rest = [] ∨ seam.ahead left.rest ∧ seam.ahead left.rest.tail) :
    ∃ found left', statementsUntil (· == .finish) item rounds done left = .read found left' ∧
      (seam.Starved left' ∨ ∃ made made' right' rest', found = done.reverse ++ made ∧
        Stmt.eraseAll made = Stmt.eraseAll made' ∧ left'.rest = [] ∧
        seam.Moved left right left' right' ∧ rounds' ≤ rest' + left.rest.length ∧
        statementsUntil (· == .finish) item' rounds' done' right =
          statementsUntil (· == .finish) item' rest' (made'.reverse ++ done') right') := by
  -- each round begins at the end of the first list, or where more than one last semicolon is left of it
  induction rounds generalizing rounds' done done' left right with
  | zero =>
    have none : left.rest = [] := List.eq_nil_of_length_eq_zero (Nat.eq_zero_of_le_zero room)
    exact ⟨_, left, rfl, .inr ⟨[], [], right, rounds', (List.append_nil _).symm, rfl, none,
      .refl meets, Nat.le_add_right _ _, rfl⟩⟩
  | succ rounds ih =>
    by_cases none : left.rest = []
    · have stopped : (left.token.kind == .finish) = true :=
        beq_iff_eq.mpr (Cursor.token_finish none (by rw [meets.finish]; exact seam.ends))
      exact ⟨_, left, statementsUntil_stops _ done stopped, .inr ⟨[], [], right, rounds',
        (List.append_nil _).symm, rfl, none, .refl meets, Nat.le_add_right _ _, rfl⟩⟩
    obtain ⟨here, further⟩ := start.resolve_left none
    have some := List.length_pos_iff.mpr none
    obtain ⟨rounds', rfl⟩ := Nat.exists_eq_add_one_of_ne_zero (show rounds' ≠ 0 by omega)
    have token := meets.token here
    have goes : (left.token.kind == .finish) = false := by
      cases shape : left.rest with
      | nil => exact absurd shape none
      | cons next rest =>
        rw [Cursor.token_eq shape, beq_eq_false_iff_ne]
        exact plain next (by simp [shape])
    have goes' : (right.token.kind == .finish) = false := by rw [token]; exact goes
    obtain ⟨attempt, middle, read⟩ := orRecover_reads item left
    have onward := (forward_orRecover items.forward).read read
    have less := orRecover_length_lt items.forward closes none read
    rw [statementsUntil_next rounds done goes read]
    rcases orRecover_seam items closes meets here short read with
      gone | ⟨_, _, last⟩ | ⟨attempt', middle', twin, alike, moved, settled⟩
    · -- a run that is lost is read to its end all the same
      obtain ⟨found, left', result⟩ :=
        statementsUntil_reads (· == .finish) item rounds (attempt.toList ++ done) middle
      have beyond := (forwards.statementsUntil _ items.forward rounds _).read result
      exact ⟨found, left', result, .inl (persists_starved seam beyond gone)⟩
    · exact absurd further last
    · rw [statementsUntil_next rounds' done' goes' twin]
      obtain ⟨found, left', result, outcome⟩ := ih rounds' (attempt.toList ++ done)
        (attempt'.toList ++ done') moved.meets (by omega) (by omega) (by omega)
        (fun token member => plain token (onward.rest.subset member)) settled
      refine ⟨found, left', result, outcome.imp_right ?_⟩
      rintro ⟨made, made', right', left, rfl, same, out, more, fewer, rest⟩
      refine ⟨attempt.toList.reverse ++ made, attempt'.toList.reverse ++ made', right', left, by simp, ?_,
        out, moved.trans more, by omega, by rw [rest]; simp⟩
      rw [Stmt.eraseAll_eq_map, Stmt.eraseAll_eq_map] at alike same ⊢
      rw [List.map_append, List.map_append, List.map_reverse, List.map_reverse, alike, same]

end Lists

section Whole

/-- Behind a list that ends in a semicolon, with neither a semicolon nor a closing brace in front of
that. -/
def Seam.behind (front : List Token) {tail : List Token} {last semicolon finish : Token}
    (otherFinish : Token) (ends : finish.kind = .finish) (closes : semicolon.kind = .symbol .semicolon)
    (apart : last.kind ≠ .symbol .semicolon ∧ last.kind ≠ .symbol .rightBrace)
    (noElse : ∀ token ∈ tail.head?, token.kind ≠ .keyword .else) : Seam where
  tail := tail
  finish := finish
  otherFinish := otherFinish
  ahead rest := rest ≠ [] ∧ rest <:+ front ++ [last, semicolon]
  ends := ends
  step := by
    rintro token rest ⟨_, suffix⟩ inner
    refine ⟨?_, (List.suffix_cons token rest).trans suffix⟩
    rintro rfl
    obtain ⟨before, shape⟩ := suffix
    have same : token = semicolon := by
      have lasts := congrArg List.getLast? shape
      simpa using lasts
    exact inner (same ▸ closes)
  pass := by
    rintro token rest ⟨_, suffix⟩
    cases rest with
    | nil => exact .inr rfl
    | cons next more => exact .inl ⟨nofun, (List.suffix_cons token _).trans suffix⟩
  stop := fun here => absurd rfl here.1
  noElse := noElse
  settle := by
    rintro before closing rest ⟨_, suffix⟩ kind
    have further : rest <:+ front ++ [last, semicolon] :=
      ((List.suffix_cons closing rest).trans (List.suffix_append before _)).trans suffix
    match rest with
    | [] => exact .inl rfl
    | [token] =>
      obtain ⟨skipped, shape⟩ := suffix
      have same : closing = last := by
        have lasts := congrArg (fun tokens => tokens.dropLast.getLast?) shape
        simpa [List.dropLast_append_of_ne_nil, List.dropLast_append_cons] using lasts
      subst same
      exact (kind.elim apart.1 apart.2).elim
    | token :: next :: more =>
      exact .inr ⟨⟨nofun, further⟩, nofun, (List.suffix_cons token _).trans further⟩

/-- Nothing stands behind, and both lists end in the same token. -/
def Seam.plain (finish : Token) (ends : finish.kind = .finish) : Seam where
  tail := []
  finish := finish
  otherFinish := finish
  ahead _ := True
  ends := ends
  step := fun _ _ => trivial
  pass := fun _ => .inl trivial
  stop := fun _ => ⟨rfl, rfl⟩
  noElse := nofun
  settle := fun _ _ => .inr ⟨trivial, trivial⟩

variable {tokens more : List Token} {endToken finish : Token}

theorem Cursor.start_plain (plain : ∀ token ∈ tokens, token.kind ≠ .finish)
    (ends : finish.kind = .finish) (nextId : Nat) :
    Cursor.start nextId (tokens ++ [finish]) = ⟨tokens, finish, #[], nextId⟩ := by
  have inner : ∀ token ∈ tokens, (!token.isFinish) = true := by
    intro token member
    simp [Token.isFinish, plain token member]
  have last : finish.isFinish = true := beq_iff_eq.mpr ends
  have taken : (tokens ++ [finish]).takeWhile (!·.isFinish) = tokens := by
    rw [List.takeWhile_append_of_pos inner, List.takeWhile_cons_of_neg (by simp [last]),
      List.append_nil]
  have found : (tokens ++ [finish]).find? (·.isFinish) = some finish := by
    rw [List.find?_append, List.find?_eq_none.mpr fun token member => by simpa using inner token member]
    simp [last]
  rw [Cursor.start, taken, found]
  rfl

theorem statementsUntil_declarations {program : List Stmt} {tokens : List Token}
    (derives : Derives (.declarations program) tokens) (bound : Nat)
    (enough : 2 * tokens.length < bound) (rounds : Nat) (room : tokens.length ≤ rounds)
    (noElse : ∀ token ∈ more.head?, token.kind ≠ .keyword .else) (done : List Stmt) (cursor : Cursor)
    (here : cursor.rest = tokens ++ more) :
    ∃ made nextId left, Stmt.eraseAll made = Stmt.eraseAll program ∧ rounds ≤ left + tokens.length ∧
      statementsUntil (· == .finish) (declaration bound) rounds done cursor =
        statementsUntil (· == .finish) (declaration bound) left (made.reverse ++ done)
          { cursor with rest := more, nextId := nextId } := by
  match derives with
  | .nil =>
    refine ⟨[], cursor.nextId, rounds, rfl, Nat.le_add_right _ _, ?_⟩
    cases cursor
    cases here
    rfl
  | @Derives.cons first rest before after firstDerives restDerives =>
    rw [List.append_assoc] at here
    rw [List.length_append] at enough room
    obtain ⟨token, others, shape, starts⟩ := firstDerives.declaration_head
    have some : 0 < before.length := by rw [shape]; exact Nat.succ_pos _
    have goes : (cursor.token.kind == .finish) = false := by
      rw [shape] at here
      rw [Cursor.token_eq here]
      exact stops_finish.starts _ starts
    -- Behind the declaration stands another one, or what comes behind the list.
    have follows : Follows false (after ++ more) := by
      intro _ token next same
      cases after with
      | nil => exact noElse token next same
      | cons head tail =>
        have declares := restDerives.declarations_head token next
        rw [same] at declares
        cases declares
    obtain ⟨fewer, rfl⟩ := Nat.exists_eq_add_one_of_ne_zero (show rounds ≠ 0 by omega)
    obtain ⟨statement, nextId, read, alike⟩ :=
      isRead_of_derives firstDerives bound (by omega) cursor _ here follows
    obtain ⟨made, lastId, left, same, room, further⟩ := statementsUntil_declarations restDerives
      bound (by omega) fewer (by omega) noElse (statement :: done)
      { cursor with rest := after ++ more, nextId := nextId } rfl
    refine ⟨statement :: made, lastId, left, ?_, ?_, ?_⟩
    · rw [Stmt.eraseAll, Stmt.eraseAll, alike, same]
    · rw [List.length_append]
      omega
    · rw [statementsUntil_round fewer done goes read, further]
      simp

/-- Reading the longer list comes to its second part with the reports and the statements of the first. -/
def ReachesSecond (first : Parsed) (more : List Token) (finish : Token) (bound rounds : Nat)
    (cursor : Cursor) : Prop :=
  ∃ made left right, Stmt.eraseAll made = Stmt.eraseAll first.program ∧ more.length ≤ left ∧
    right.rest = more ∧ right.finish = finish ∧ right.faults.toList = first.faults ∧
    statementsUntil (· == .finish) (declaration bound) rounds [] cursor =
      statementsUntil (· == .finish) (declaration bound) left made.reverse right

theorem reachesSecond_of_quiet (source : ∀ token ∈ tokens, token.FromSource)
    (plain : ∀ token ∈ tokens, token.kind ≠ .finish) (ends : endToken.kind = .finish)
    (noElse : ∀ token ∈ more.head?, token.kind ≠ .keyword .else) {firstId : Nat}
    (quiet : (parse firstId (tokens ++ [endToken])).faults = []) (nextId : Nat) {bound rounds : Nat}
    (enough : 2 * tokens.length < bound) (room : tokens.length + more.length ≤ rounds) :
    ReachesSecond (parse firstId (tokens ++ [endToken])) more finish bound rounds
      ⟨tokens ++ more, finish, #[], nextId⟩ := by
  have parsed : (parse firstId (tokens ++ [endToken])).program? =
      some (parse firstId (tokens ++ [endToken])).program := by
    rw [Parsed.program?, quiet]
    rfl
  have before : beforeFinish (tokens ++ [endToken]) = tokens :=
    congrArg Cursor.rest (Cursor.start_plain plain ends firstId)
  have derives := derives_of_parse_before (by rw [before]; exact source) parsed
  rw [before] at derives
  obtain ⟨made, lastId, left, same, fewer, further⟩ := statementsUntil_declarations derives bound
    enough rounds (by omega) noElse [] ⟨tokens ++ more, finish, #[], nextId⟩ rfl
  refine ⟨made, left, ⟨more, finish, #[], lastId⟩, same, by omega, rfl, rfl, quiet.symm, ?_⟩
  rw [further, List.append_nil]

/-- Up to a semicolon that a declaration may end in, whatever is wrong in front of it. -/
theorem reachesSecond_of_semicolon {front : List Token} {last semicolon : Token}
    (shape : tokens = front ++ [last, semicolon])
    (plain : ∀ token ∈ tokens, token.kind ≠ .finish) (ends : endToken.kind = .finish)
    (closes : semicolon.kind = .symbol .semicolon)
    (apart : last.kind ≠ .symbol .semicolon ∧ last.kind ≠ .symbol .rightBrace)
    (noElse : ∀ token ∈ more.head?, token.kind ≠ .keyword .else) {firstId : Nat}
    (inside : ∀ fault ∈ (parse firstId (tokens ++ [endToken])).faults, fault.place ≠ .finish)
    (nextId : Nat) {bound rounds : Nat} (bounded : 2 * tokens.length + 4 < bound)
    (room : tokens.length + more.length ≤ rounds) :
    ReachesSecond (parse firstId (tokens ++ [endToken])) more finish bound rounds
      ⟨tokens ++ more, finish, #[], nextId⟩ := by
  let seam := Seam.behind front finish ends closes apart noElse
  obtain ⟨program, after, read, result⟩ := parse_eq firstId (tokens ++ [endToken])
  rw [Cursor.start_plain plain ends] at read
  have size : enough (tokens ++ [endToken]) = 2 * (tokens.length + 1 + 2) := by
    rw [enough, List.length_append, List.length_singleton]
  have items := (along_declaration_statement seam (tokens.length + 1)).1
    (enough (tokens ++ [endToken])) bound (by omega) (by omega)
  have meets : seam.Meets ⟨tokens, endToken, #[], firstId⟩ ⟨tokens ++ more, finish, #[], nextId⟩ :=
    ⟨rfl, rfl, rfl⟩
  have some : tokens ≠ [] := by
    rw [shape]
    exact List.append_ne_nil_of_right_ne_nil _ (List.cons_ne_nil _ _)
  have further : tokens.tail ≠ [] := by
    rw [shape]
    cases front <;> simp
  have start : tokens = [] ∨ seam.ahead tokens ∧ seam.ahead tokens.tail :=
    .inr ⟨⟨some, shape ▸ List.suffix_rfl⟩, further, shape ▸ List.tail_suffix _⟩
  -- The two lists are read side by side up to the seam.
  obtain ⟨found, left', same, outcome⟩ := statementsUntil_seam items
    (closes_declaration_statement _).1 (enough (tokens ++ [endToken])) rounds [] [] meets
    (Nat.lt_succ_self _) (show tokens.length ≤ _ by omega) (show tokens.length ≤ _ by omega) plain
    start
  cases read.symm.trans same
  rw [result]
  rcases outcome with ⟨_, fault, member, place⟩ | ⟨made, made', right', left, all, alike, out, moved,
    fewer, further⟩
  · rw [result] at inside
    -- The shorter run would have reported at its end token.
    exact absurd place (inside fault member)
  · obtain ⟨fresh, own, others⟩ := moved.faults
    refine ⟨made', left, right', ?_, ?_, ?_, moved.meets.otherFinish, ?_, ?_⟩
    · rw [all, ← alike]
      rfl
    · have taken : rounds ≤ left + tokens.length := fewer
      omega
    · rw [moved.meets.rest, out]
      rfl
    · rw [own, others]
    · rw [further, List.append_nil]

theorem parse_of_reachesSecond {first : Parsed} {bound rounds : Nat} {cursor : Cursor}
    (reaches : ReachesSecond first more finish bound rounds cursor)
    (plain : ∀ token ∈ more, token.kind ≠ .finish) (ends : finish.kind = .finish) (secondId : Nat)
    (bounded : 2 * more.length + 4 < bound) :
    ∃ found after, statementsUntil (· == .finish) (declaration bound) rounds [] cursor =
        .read found after ∧
      after.faults.toList = first.faults ++ (parse secondId (more ++ [finish])).faults ∧
      Stmt.eraseAll found = Stmt.eraseAll first.program ++
        Stmt.eraseAll (parse secondId (more ++ [finish])).program := by
  obtain ⟨made, left, right, alike, room, rest, last, faults, reads⟩ := reaches
  let seam := Seam.plain finish ends
  obtain ⟨program, after, read, result⟩ := parse_eq secondId (more ++ [finish])
  rw [Cursor.start_plain plain ends] at read
  have size : enough (more ++ [finish]) = 2 * (more.length + 1 + 2) := by
    rw [enough, List.length_append, List.length_singleton]
  have items := (along_declaration_statement seam (more.length + 1)).1
    (enough (more ++ [finish])) bound (by omega) (by omega)
  have meets : seam.Meets ⟨more, finish, #[], secondId⟩ right :=
    ⟨rfl, last, by rw [rest]; exact (List.append_nil _).symm⟩
  obtain ⟨found, left', same, outcome⟩ := statementsUntil_seam items
    (closes_declaration_statement _).1 (enough (more ++ [finish])) left [] made.reverse meets
    (Nat.lt_succ_self _) (show more.length ≤ _ by omega) room plain (.inr ⟨trivial, trivial⟩)
  cases read.symm.trans same
  rw [reads, result]
  rcases outcome with ⟨never, _⟩ | ⟨own, twin, right', rounds', all, same, out, moved, _, further⟩
  · exact absurd trivial never
  · obtain ⟨fresh, here, there⟩ := moved.faults
    have stopped : (right'.token.kind == .finish) = true := by
      have none : right'.rest = [] := by
        rw [moved.meets.rest, out]
        rfl
      exact beq_iff_eq.mpr (Cursor.token_finish none (by rw [moved.meets.otherFinish]; exact ends))
    refine ⟨_, right', further.trans (statementsUntil_stops _ _ stopped), ?_, ?_⟩
    · rw [there, here, faults]
      rfl
    · rw [all, Stmt.eraseAll_eq_map, Stmt.eraseAll_eq_map, Stmt.eraseAll_eq_map] at *
      simp [alike, same]

/-- If the first part has no reports, or ends in a semicolon behind something that a declaration does
not end in and has no report at its end, then both parts together have the reports of the first and
then those of the second, and without any they are the statements of both. -/
theorem parse_append (source : ∀ token ∈ tokens, token.FromSource)
    (plain : ∀ token ∈ tokens ++ more, token.kind ≠ .finish) (ends : endToken.kind = .finish)
    (finishes : finish.kind = .finish) (noElse : ∀ token ∈ more.head?, token.kind ≠ .keyword .else)
    (firstId secondId nextId : Nat)
    (boundary : (parse firstId (tokens ++ [endToken])).faults = [] ∨
      ∃ front last semicolon, tokens = front ++ [last, semicolon] ∧
        semicolon.kind = .symbol .semicolon ∧ last.kind ≠ .symbol .semicolon ∧
        last.kind ≠ .symbol .rightBrace ∧
        ∀ fault ∈ (parse firstId (tokens ++ [endToken])).faults, fault.place ≠ .finish) :
    (parse nextId (tokens ++ more ++ [finish])).faults =
        (parse firstId (tokens ++ [endToken])).faults ++ (parse secondId (more ++ [finish])).faults ∧
      ∀ first second, (parse firstId (tokens ++ [endToken])).program? = some first →
        (parse secondId (more ++ [finish])).program? = some second →
        ∃ found, (parse nextId (tokens ++ more ++ [finish])).program? = some found ∧
          Stmt.eraseAll found = Stmt.eraseAll first ++ Stmt.eraseAll second := by
  have plainFirst : ∀ token ∈ tokens, token.kind ≠ .finish :=
    fun token member => plain token (List.mem_append_left _ member)
  have plainMore : ∀ token ∈ more, token.kind ≠ .finish :=
    fun token member => plain token (List.mem_append_right _ member)
  have size : enough (tokens ++ more ++ [finish]) = 2 * (tokens.length + more.length + 1 + 2) := by
    rw [enough, List.length_append, List.length_append, List.length_singleton]
  have reaches : ReachesSecond (parse firstId (tokens ++ [endToken])) more finish
      (enough (tokens ++ more ++ [finish])) (enough (tokens ++ more ++ [finish]))
      ⟨tokens ++ more, finish, #[], nextId⟩ := by
    -- Either nothing is reported and no `else` can go on, or the last semicolon stops every
    -- recovery.
    rcases boundary with quiet | ⟨front, last, semicolon, shape, closes, other, brace, inside⟩
    · exact reachesSecond_of_quiet source plainFirst ends noElse quiet nextId (by omega) (by omega)
    · exact reachesSecond_of_semicolon shape plainFirst ends closes ⟨other, brace⟩ noElse inside
        nextId (by omega) (by omega)
  obtain ⟨found, after, read, faults, erased⟩ :=
    parse_of_reachesSecond reaches plainMore finishes secondId (by omega)
  have whole : parse nextId (tokens ++ more ++ [finish]) = ⟨found, after.faults.toList, after.nextId⟩ := by
    rw [parse, Cursor.start_plain plain finishes]
    simp only [read]
  rw [whole]
  refine ⟨faults, fun first second parsedFirst parsedSecond => ?_⟩
  have apart {parsed : Parsed} {program : Program} (same : parsed.program? = some program) :
      parsed.faults = [] ∧ parsed.program = program := by
    rw [Parsed.program?] at same
    split at same
    · rename_i quiet
      exact ⟨List.isEmpty_iff.mp quiet, Option.some.inj same⟩
    · cases same
  obtain ⟨quietFirst, rfl⟩ := apart parsedFirst
  obtain ⟨quietSecond, rfl⟩ := apart parsedSecond
  refine ⟨found, ?_, erased⟩
  rw [Parsed.program?, faults, quietFirst, quietSecond]
  rfl

/-- Two statements that are wrong, and one behind them that is not finished. -/
theorem parse_append_recovered :
    (parse 0 (Scanned.tokens (scan "(a; if (b) * c; print d"))).faults =
      [⟨1, .lexeme ";", .missing .closeAfterExpression⟩, ⟨1, .lexeme "*", .missing .leftOperand⟩] ++
        [⟨1, .finish, .missing .semicolonAfterValue⟩] := by
  let front : List Token := [⟨.symbol .leftParen, "(", none, ⟨1, 0⟩⟩,
    ⟨.identifier, "a", none, ⟨1, 1⟩⟩, ⟨.symbol .semicolon, ";", none, ⟨1, 2⟩⟩,
    ⟨.keyword .if, "if", none, ⟨1, 4⟩⟩, ⟨.symbol .leftParen, "(", none, ⟨1, 7⟩⟩,
    ⟨.identifier, "b", none, ⟨1, 8⟩⟩, ⟨.symbol .rightParen, ")", none, ⟨1, 9⟩⟩,
    ⟨.symbol .star, "*", none, ⟨1, 11⟩⟩]
  let last : Token := ⟨.identifier, "c", none, ⟨1, 13⟩⟩
  let semicolon : Token := ⟨.symbol .semicolon, ";", none, ⟨1, 14⟩⟩
  let more : List Token := [⟨.keyword .print, "print", none, ⟨1, 16⟩⟩,
    ⟨.identifier, "d", none, ⟨1, 22⟩⟩]
  have scanned : Scanned.tokens (scan "(a; if (b) * c; print d") =
      front ++ [last, semicolon] ++ more ++ [.finish ⟨1, 23⟩] := by cbv
  have source : ∀ token ∈ front ++ [last, semicolon], token.FromSource := by
    intro token member
    refine ⟨"(a; if (b) * c; print d", ?_⟩
    rw [scanned]
    exact List.mem_append_left _ (List.mem_append_left _ member)
  have first : (parse 0 (front ++ [last, semicolon] ++ [.finish ⟨1, 15⟩])).faults =
      [⟨1, .lexeme ";", .missing .closeAfterExpression⟩,
        ⟨1, .lexeme "*", .missing .leftOperand⟩] := by cbv
  have second : (parse 0 (more ++ [.finish ⟨1, 23⟩])).faults =
      [⟨1, .finish, .missing .semicolonAfterValue⟩] := by cbv
  have both := parse_append source (by decide : ∀ token ∈ front ++ [last, semicolon] ++ more, _)
    (rfl : (Token.finish ⟨1, 15⟩).kind = _) (rfl : (Token.finish ⟨1, 23⟩).kind = _) (by decide) 0 0 0
    (.inr ⟨front, last, semicolon, rfl, rfl, by decide, by decide, by rw [first]; decide⟩)
  rw [scanned, both.1, first, second]

end Whole
end LoxLang.Grammar
