import Mathlib
import LoxLang.Proofs.Grammar.Indexed
import LoxLang.Proofs.Grammar.Recursion
import LoxLang.Proofs.Grammar.Stages

/-!
How reading gets on. Each attempt at a declaration leaves the cursor further on, so that reading comes
to an end by itself.
-/
namespace LoxLang.Grammar

section Runs

variable {tokens : List Token} {nextId : Nat} {last : Token}

theorem Stage.whole_ample (member : last ∈ tokens) (ends : last.kind = .finish) (nextId : Nat) :
    (Stage.whole nextId tokens).Ample := by
  have stands := Cursor.start_stands member ends nextId
  have inside : (beforeFinish tokens).length < tokens.length :=
    (List.getElem?_eq_some_iff.mp stands.finish).1
  have rest := stands.rest_length
  refine ⟨rfl, ?_, ?_⟩
  all_goals rw [enough]
  all_goals omega

theorem Stage.Leads.ample_whole {stage : Stage} (leads : (Stage.whole nextId tokens).Leads stage)
    (member : last ∈ tokens) (ends : last.kind = .finish) : stage.Ample :=
  leads.ample (Cursor.start_stands member ends nextId).ends (whole_ample member ends nextId)

theorem Stage.Leads.stands {stage : Stage} (leads : (Stage.whole nextId tokens).Leads stage)
    (member : last ∈ tokens) (ends : last.kind = .finish) :
    ∃ first final, first ≤ final ∧ stage.cursor.Stands tokens first ∧
      stage.final.Stands tokens final := by
  have start := Cursor.start_stands member ends nextId
  obtain ⟨first, _, begun⟩ := start.onward leads.onward.1
  obtain ⟨final, later, ended⟩ := begun.onward stage.onward
  exact ⟨first, final, later, begun, ended⟩

/-- Without any bound the grammar reads a token list just as it is read. -/
theorem parse_recursive (member : last ∈ tokens) (ends : last.kind = .finish) (nextId : Nat)
    {phrases : Phrases} (recursive : phrases.Recursive) {rounds : Nat} (room : tokens.length ≤ rounds) :
    ∃ program after, phrases.program rounds (Cursor.start nextId tokens) = .read program after ∧
      parse nextId tokens = ⟨program, after.faults.toList, after.nextId⟩ := by
  obtain ⟨program, after, read, result⟩ := parse_eq nextId tokens
  have start := Cursor.start_stands member ends nextId
  have inside : (beforeFinish tokens).length < tokens.length :=
    (List.getElem?_eq_some_iff.mp start.finish).1
  have short : (Cursor.start nextId tokens).rest.length < tokens.length := inside
  have paid : 2 * tokens.length + 2 < enough tokens := by rw [enough]; omega
  refine ⟨program, after, ?_, result⟩
  rw [← recursive.same_program paid room (Cursor.start nextId tokens) start.ends short, read]

/-- One action of guarded operations reads all token lists up to a length by index. -/
theorem parse_indexed (limit : Nat) :
    ∃ action : Action Program, action.Guarded ∧ ∀ tokens nextId, ∀ last ∈ tokens,
      last.kind = .finish → tokens.length ≤ limit → ∃ program after,
        action (.start nextId tokens) = (some program, after) ∧
        parse nextId tokens = ⟨program, after.faults.toList, after.nextId⟩ := by
  let bound := 2 * limit + 3
  obtain ⟨action, guarded, follows⟩ :=
    indexed.statementsUntil (· == .finish) (indexed.declaration bound) bound []
  refine ⟨action, guarded, fun tokens nextId last member ends room => ?_⟩
  obtain ⟨program, after, read, result⟩ :=
    parse_recursive member ends nextId Phrases.whole_recursive room
  have start := Cursor.start_stands member ends nextId
  have inside : (beforeFinish tokens).length < tokens.length :=
    (List.getElem?_eq_some_iff.mp start.finish).1
  have short : (Cursor.start nextId tokens).rest.length < limit := Nat.lt_of_lt_of_le inside room
  have paid : 2 * limit + 2 < bound := Nat.lt_succ_self _
  rw [← Phrases.whole_recursive.same_program paid (Nat.le_refl limit) _ start.ends short] at read
  have begun : (Cursor.start nextId tokens).Reads tokens (.start nextId tokens) :=
    ⟨rfl, start, rfl, rfl⟩
  have here := follows tokens _ _ begun
  rw [read] at here
  rcases acted : action (.start nextId tokens) with ⟨found, further⟩
  rw [acted] at here
  cases here with
  | read reads =>
    refine ⟨program, further, rfl, ?_⟩
    rw [result, reads.faults, reads.nextId]

theorem parse_front {front : List Token} {finish : Token}
    (plain : ∀ token ∈ front, token.kind ≠ .finish) (ends : finish.kind = .finish) (nextId : Nat)
    (behind other : List Token) :
    parse nextId (front ++ finish :: other) = parse nextId (front ++ finish :: behind) := by
  let rounds := (front ++ finish :: other).length + (front ++ finish :: behind).length
  obtain ⟨program, after, read, result⟩ := parse_recursive (by simp) ends nextId
    Phrases.whole_recursive (show (front ++ finish :: other).length ≤ rounds from Nat.le_add_right _ _)
  obtain ⟨program', after', read', result'⟩ := parse_recursive (by simp) ends nextId
    Phrases.whole_recursive (show (front ++ finish :: behind).length ≤ rounds from Nat.le_add_left _ _)
  rw [Cursor.start_front plain ends] at read read'
  cases read.symm.trans read'
  rw [result, result']

/-- An attempt at a declaration in a list begins in front of some token before the end, and with the
recovery it ends further on. -/
theorem Stage.Leads.attempt {stop : TokenKind → Bool} {bound rounds : Nat} {done : List Stmt}
    {cursor : Cursor}
    (leads : (Stage.whole nextId tokens).Leads (.declarations stop bound rounds done cursor))
    (goes : stop cursor.token.kind = false) (member : last ∈ tokens) (ends : last.kind = .finish) :
    cursor.token.kind ≠ .finish ∧ ∃ fewer found after first later, rounds = fewer + 1 ∧
      orRecover (Grammar.declaration bound) cursor = .read found after ∧ first < later ∧
      cursor.Stands tokens first ∧ after.Stands tokens later := by
  obtain ⟨stops, room, _⟩ := leads.ample_whole member ends
  obtain ⟨first, _, _, stands, _⟩ := leads.stands member ends
  have stands : cursor.Stands tokens first := stands
  have some := Cursor.rest_ne_nil_of_goes stops stands.ends goes
  have positive := List.length_pos_iff.mpr some
  obtain ⟨found, after, read⟩ := orRecover_reads (Grammar.declaration bound) cursor
  obtain ⟨later, _, further⟩ :=
    stands.onward ((forward_orRecover (forwards.declaration bound)).read read)
  have less := orRecover_length_lt (forwards.declaration bound)
    (closes_declaration_statement bound).1 some read
  have here := stands.rest_length
  have there := further.rest_length
  refine ⟨fun finish => ?_, rounds - 1, found, after, first, later, by omega, read, by omega, stands,
    further⟩
  rw [finish, stops] at goes
  cases goes

/-- Reading comes to an end by itself, gets on with every declaration, and looks at nothing behind the
first end token. -/
theorem parse_advances (ends : tokens.getLast? = some last) (finish : last.kind = .finish)
    (nextId : Nat) :
    -- what the grammar says of its phrases, with no bound at all, leaves one way to read each of them
    (∃ phrases : Phrases, phrases.Recursive ∧
      (∀ others : Phrases, others.Recursive → ∀ length, phrases.Same length others) ∧
      ∀ rounds, tokens.length ≤ rounds → ∃ program after,
        phrases.program rounds (Cursor.start nextId tokens) = .read program after ∧
        parse nextId tokens = ⟨program, after.faults.toList, after.nextId⟩) ∧
    -- one action reads the lists by index, of operations that only their guard keeps at the end token
    (∀ limit, ∃ action : Action Program, action.Guarded ∧ ∀ others number, ∀ ending ∈ others,
      ending.kind = .finish → others.length ≤ limit → ∃ program after,
        action (.start number others) = (some program, after) ∧
        parse number others = ⟨program, after.faults.toList, after.nextId⟩) ∧
    (∀ (α : Type) (action : Action α), action.Guarded → ∀ front finish first second,
      finish.kind = .finish → TokenStream.Alike front finish first second →
      (action first).1 = (action second).1 ∧
        TokenStream.Alike front finish (action first).2 (action second).2 ∧
        first.current ≤ (action first).2.current) ∧
    -- the cursor stands at tokens up to the first end token, and never goes back
    (∀ stage, (Stage.whole nextId tokens).Leads stage → ∃ first final, first ≤ final ∧
      stage.cursor.Stands tokens first ∧ stage.final.Stands tokens final) ∧
    (∀ bound cursor first, cursor.Stands tokens first →
      (∃ final, first ≤ final ∧ (expression bound cursor).cursor.Stands tokens final) ∧
      ∃ final, first ≤ final ∧ (unary bound cursor).cursor.Stands tokens final) ∧
    -- every attempt takes a token
    (∀ stop bound rounds done cursor,
      (Stage.whole nextId tokens).Leads (.declarations stop bound rounds done cursor) →
      stop cursor.token.kind = false →
      cursor.token.kind ≠ .finish ∧ ∃ fewer found after first later, rounds = fewer + 1 ∧
        orRecover (declaration bound) cursor = .read found after ∧ first < later ∧
        cursor.Stands tokens first ∧ after.Stands tokens later) ∧
    ∀ front finish behind other, tokens = front ++ finish :: behind →
      (∀ token ∈ front, token.kind ≠ .finish) → finish.kind = .finish →
      parse nextId (front ++ finish :: other) = parse nextId tokens := by
  have member := List.mem_of_getLast? ends
  refine ⟨⟨.whole, Phrases.whole_recursive, fun _ recursive length => recursive.same length,
    fun _ room => parse_recursive member finish nextId Phrases.whole_recursive room⟩,
    parse_indexed,
    fun _ _ guarded _ _ _ _ ends alike => guarded.alike ends alike,
    fun _ leads => leads.stands member finish, ?_,
    fun _ _ _ _ _ leads goes => leads.attempt goes member finish, ?_⟩
  · intro bound cursor first stands
    exact ⟨stands.onward ((forwards.expression bound).onward cursor),
      stands.onward ((forwards.unary bound).onward cursor)⟩
  · rintro front finish behind other rfl plain ends
    exact parse_front plain ends nextId behind other

/-- A closing brace that closes nothing is passed over, and what stands between two end tokens is not
read. -/
theorem parse_advances_between :
    let tokens : List Token := [⟨.symbol .rightBrace, "\x7d", none, ⟨1, 0⟩⟩, .finish ⟨1, 1⟩,
      ⟨.symbol .comma, ",", none, ⟨1, 2⟩⟩, .finish ⟨1, 3⟩]
    (∃ found after first later,
      orRecover (declaration (enough tokens)) (Cursor.start 0 tokens) = .read found after ∧
        first < later ∧ (Cursor.start 0 tokens).Stands tokens first ∧ after.Stands tokens later) ∧
      parse 0 (tokens.take 2) = parse 0 tokens := by
  intro tokens
  have last : tokens.getLast? = some (.finish ⟨1, 3⟩) := rfl
  obtain ⟨_, _, _, _, _, attempts, reads⟩ := parse_advances last rfl 0
  obtain ⟨_, _, found, after, first, later, _, read, less, here, there⟩ :=
    attempts _ _ _ _ _ .refl (by decide)
  exact ⟨⟨found, after, first, later, read, less, here, there⟩,
    reads (tokens.take 1) (.finish ⟨1, 1⟩) (tokens.drop 2) [] rfl (by decide) rfl⟩

end Runs
end LoxLang.Grammar
