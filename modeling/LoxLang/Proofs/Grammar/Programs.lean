import Mathlib
import LoxLang.Proofs.Grammar.Derived
import LoxLang.Proofs.Grammar.Deriving

/-!
A token list is a program just if the tokens before its first end token are derived for one, and then
it is that one.
-/
namespace LoxLang.Grammar

/-- The tokens that are read at all. -/
def beforeFinish (tokens : List Token) : List Token := tokens.takeWhile (!·.isFinish)

section Whole

variable {tokens : List Token}

theorem Cursor.start_finish (nextId : Nat) (tokens : List Token) :
    (Cursor.start nextId tokens).finish.kind = .finish := by
  change ((tokens.find? (·.isFinish)).getD (.finish .start)).kind = .finish
  cases found : tokens.find? (·.isFinish) with
  | none => rfl
  | some token =>
    have last : token.isFinish = true := List.find?_some found
    exact beq_iff_eq.mp last

theorem Cursor.start_fromSource (source : ∀ token ∈ beforeFinish tokens, token.FromSource)
    (nextId : Nat) : (Cursor.start nextId tokens).FromSource :=
  ⟨source, Cursor.start_finish nextId tokens⟩

theorem parse_of_derives {program : List Stmt}
    (derives : Derives (.declarations program) (beforeFinish tokens)) (nextId : Nat) :
    ∃ found, (parse nextId tokens).program? = some found ∧
      Stmt.eraseAll found = Stmt.eraseAll program := by
  have short : (beforeFinish tokens).length ≤ tokens.length := (List.takeWhile_sublist _).length_le
  have bound : enough tokens = 2 * (tokens.length + 2) := rfl
  have stopped : (Cursor.start nextId tokens).finish.kind == .finish :=
    beq_iff_eq.mpr (Cursor.start_finish nextId tokens)
  obtain ⟨found, finalId, read, alike⟩ := isRead_of_derives derives (· == .finish) (enough tokens)
    (enough tokens) [] (Cursor.start nextId tokens) [] stops_finish (by omega) (by omega)
    (List.append_nil _).symm stopped
  refine ⟨found, ?_, alike⟩
  rw [parse]
  simp only [read]
  rfl

/-- It is enough that the tokens that are read at all are of the scanner's making. -/
theorem derives_of_parse_before (source : ∀ token ∈ beforeFinish tokens, token.FromSource)
    {nextId : Nat} {program : List Stmt}
    (parsed : (parse nextId tokens).program? = some program) :
    Derives (.declarations program) (beforeFinish tokens) := by
  obtain ⟨found, after, read, result⟩ := parse_eq nextId tokens
  rw [result, Parsed.program?] at parsed
  split at parsed
  · rename_i quiet
    cases parsed
    have silent : after.faults.size ≤ (Cursor.start nextId tokens).faults.size := by
      have none : after.faults.toList = [] := List.isEmpty_iff.mp quiet
      rw [← Array.length_toList, none]
      exact Nat.zero_le _
    obtain ⟨taken, here, more, rfl, derives, ended⟩ :=
      (accepts_statementsUntil (· == .finish) (accepts_declaration_statement (enough tokens)).1
        (enough tokens) []).2 _ _ _ (Cursor.start_fromSource source nextId) read silent
    have rest : beforeFinish tokens = taken ++ after.rest := here
    have short : (beforeFinish tokens).length ≤ tokens.length := (List.takeWhile_sublist _).length_le
    rcases ended with out | ⟨token, seen, finish⟩
    · -- the rounds cannot run out before the tokens do
      have bound : enough tokens = 2 * (tokens.length + 2) := rfl
      have items := derives.length_le
      rw [rest, List.length_append] at short
      omega
    · cases left : after.rest with
      | nil =>
        rw [rest, left, List.append_nil]
        exact derives
      | cons first others =>
        rw [left] at rest seen
        have member : first ∈ beforeFinish tokens := by simp [rest]
        have apart := List.mem_takeWhile_imp member
        rw [seen.first] at apart
        simp [Token.isFinish, finish] at apart
  · cases parsed

theorem derives_of_parse (source : ∀ token ∈ tokens, token.FromSource) {nextId : Nat}
    {program : List Stmt} (parsed : (parse nextId tokens).program? = some program) :
    Derives (.declarations program) (beforeFinish tokens) :=
  derives_of_parse_before
    (fun token member => source token ((List.takeWhile_sublist _).subset member)) parsed

/-- What is accepted, and as which program. -/
theorem parse_grammar (source : ∀ token ∈ tokens, token.FromSource) (nextId : Nat) :
    ((parse nextId tokens).program?.isSome ↔
      ∃ program, Derives (.declarations program) (beforeFinish tokens)) ∧
    ∀ found, (parse nextId tokens).program? = some found →
      Derives (.declarations found) (beforeFinish tokens) ∧
      ∀ program, Derives (.declarations program) (beforeFinish tokens) →
        Stmt.eraseAll program = Stmt.eraseAll found := by
  constructor
  · constructor
    · intro accepted
      obtain ⟨found, parsed⟩ := Option.isSome_iff_exists.mp accepted
      exact ⟨found, derives_of_parse source parsed⟩
    · rintro ⟨program, derives⟩
      obtain ⟨found, parsed, _⟩ := parse_of_derives derives nextId
      exact Option.isSome_iff_exists.mpr ⟨found, parsed⟩
  · intro found parsed
    refine ⟨derives_of_parse source parsed, fun program derives => ?_⟩
    obtain ⟨other, same, alike⟩ := parse_of_derives derives nextId
    cases parsed.symm.trans same
    exact alike.symm

/-- The `else` goes to the second `if`, and the `for` to a loop in a block. -/
theorem parse_grammar_else :
    ∃ found, (parse 0 (Scanned.tokens (scan "if (a) if (b) c; else for (var d;; e) print d;"))).program? =
        some found ∧
      Derives (.declarations found)
        (beforeFinish (Scanned.tokens (scan "if (a) if (b) c; else for (var d;; e) print d;"))) ∧
      Stmt.eraseAll found = [.ifThen (.variable ⟨0, 1⟩ "a")
        (.ifElse (.variable ⟨0, 1⟩ "b") (.expression (.variable ⟨0, 1⟩ "c"))
          (.block [.var ⟨"d", 1⟩ none, .loop (.literal ⟨0, 1⟩ (.boolean true))
            (.block [.print (.variable ⟨0, 1⟩ "d"), .expression (.variable ⟨0, 1⟩ "e")])]))] := by
  have parsed : (parse 0 (Scanned.tokens (scan "if (a) if (b) c; else for (var d;; e) print d;"))).program? = some
    [.ifThen (.variable ⟨0, 1⟩ "a")
        (.ifElse (.variable ⟨1, 1⟩ "b") (.expression (.variable ⟨2, 1⟩ "c"))
          (.block [.var ⟨"d", 1⟩ none, .loop (.literal ⟨3, 1⟩ (.boolean true))
            (.block [.print (.variable ⟨5, 1⟩ "d"), .expression (.variable ⟨4, 1⟩ "e")])]))] := by cbv
  exact ⟨_, parsed, ((parse_grammar (fun token member => ⟨_, member⟩) 0).2 _ parsed).1, rfl⟩

end Whole
end LoxLang.Grammar
