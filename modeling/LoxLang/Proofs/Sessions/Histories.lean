import LoxLang.Proofs.Evaluation.Bounds
import LoxLang.Proofs.Sessions.Sources

/-!
Sources one after the other, and what it is for one to come to an end. The bound that a source runs
with only says how long it may take: there is at most one way for it to end.
-/
namespace LoxLang

/-- A source as it is handed to a session, with the bound for its run. -/
structure Submission where
  bound : Nat
  manner : Manner
  source : String

def Session.submit (session : Session) : List Submission → List Outcome × Session
  | [] => ([], session)
  | first :: rest =>
    let (outcome, after) := session.runAs first.bound first.manner first.source
    let (outcomes, last) := after.submit rest
    (outcome :: outcomes, last)

/-- With some bound the source comes to an end, with this outcome, and that is the output by then. -/
def Session.Ends (session : Session) (manner : Manner) (source : String) (outcome : Outcome)
    (output : String) : Prop :=
  outcome ≠ .unfinished ∧ ∃ bound after,
    session.runAs bound manner source = (outcome, after) ∧ after.output = output

section Bounds

variable {bound larger : Nat} {manner : Manner} {source : String} {session after : Session}
  {outcome : Outcome}

theorem settles_runProgram (order : bound ≤ larger) (manner : Manner) (program : Program) :
    (runProgram bound manner program).Settles (runProgram larger manner program) := by
  unfold runProgram
  split
  · rename_i value
    have evaluated := (settles_evaluate_execute order).1 value
    exact (evaluated.before _).before _
  · exact settles_executeProgram order program

theorem Session.start_of_larger (order : bound ≤ larger) {program : Program}
    {distances : Distances} {machine : Machine}
    (ended : (start bound manner program distances machine).1 ≠ .unfinished) :
    start larger manner program distances machine =
      start bound manner program distances machine := by
  have ends (after : Machine) : runProgram bound manner program (machine.addDistances distances) ≠
      .stopped .unfinished after := by
    intro out
    rw [start, out] at ended
    exact ended rfl
  rw [start, start, (settles_runProgram order manner program).eq ends]

/-- A larger bound never changes the answer of a source that comes to an end. -/
theorem Session.runAs_of_larger (order : bound ≤ larger)
    (ran : session.runAs bound manner source = (outcome, after)) (ended : outcome ≠ .unfinished) :
    session.runAs larger manner source = (outcome, after) := by
  rw [runAs_eq] at ran ⊢
  cases verdict : session.verdict source with
  | error faults =>
    rw [verdict] at ran
    exact ran
  | ok distances =>
    rw [verdict] at ran
    cases ran
    dsimp only
    rw [start_of_larger order ended]

theorem Session.Ends.unique {other : Outcome} {output further : String}
    (first : session.Ends manner source outcome output)
    (second : session.Ends manner source other further) : outcome = other ∧ output = further := by
  obtain ⟨ended, bound, after, ran, printed⟩ := first
  obtain ⟨endedToo, larger, last, ranToo, printedToo⟩ := second
  have one := Session.runAs_of_larger (Nat.le_max_left bound larger) ran ended
  have two := Session.runAs_of_larger (Nat.le_max_right bound larger) ranToo endedToo
  cases one.symm.trans two
  exact ⟨rfl, printed.symm.trans printedToo⟩

end Bounds
end LoxLang
