import LoxLang.Proofs.Evaluation.TwinMoments
import LoxLang.Proofs.Sessions.Twins

/-!
Which node a program is stopped by. A program ends in a fault exactly if its run comes to a moment
that raises it, and then the line that is reported is the line of the node there; a twin of the
program is stopped by the node that goes together with it.
-/
namespace LoxLang

/-- The run comes to a moment that raises a fault at this node. -/
def Blamed (bound : Nat) (manner : Manner) (program : Program) (machine : Machine) (site : Site)
    (cause : RuntimeCause) : Prop :=
  ∃ first moment, Begins bound manner program machine first ∧ Reaches first moment ∧
    Raises moment site cause

section Runs

variable {bound : Nat} {manner : Manner} {program : Program} {machine : Machine}
  {fault : RuntimeFault}

theorem Begins.stops {moment : Moment} (begins : Begins bound manner program machine moment)
    (stopped : moment.Stops fault) :
    ∃ final, runProgram bound manner program machine = .stopped (.fault fault) final := by
  cases begins with
  | alone value =>
    obtain ⟨final, stops⟩ := stopped
    exact ⟨final, Exec.bind_eq_stopped.mpr (.inl (Exec.bind_eq_stopped.mpr (.inl stops)))⟩
  | comesUp several comesUp =>
    obtain ⟨final, stops⟩ := stopped
    rw [runProgram_eq several]
    exact ⟨final, Exec.bind_eq_stopped.mpr (.inl (runAll_of_stopped comesUp stops))⟩

theorem runProgram_blamed :
    (∃ final, runProgram bound manner program machine = .stopped (.fault fault) final) ↔
      ∃ site cause, Blamed bound manner program machine site cause ∧ fault = ⟨cause, site.line⟩ := by
  constructor
  · rintro ⟨final, stops⟩
    obtain ⟨first, begins, stopped⟩ := runProgram_stops stops
    obtain ⟨moment, site, cause, reaches, raises, same⟩ := stopped.raised
    exact ⟨site, cause, ⟨first, moment, begins, reaches, raises⟩, same⟩
  · rintro ⟨site, cause, ⟨first, moment, begins, reaches, raises⟩, rfl⟩
    exact begins.stops (reaches.stops raises.stops)

/-- A source fails with what its run raises, on the line of the node that raises it. -/
theorem Session.failed_iff {session : Session} {source : String} {distances : Distances}
    (accepts : session.Accepts source program distances) :
    (session.runAs bound manner source).1 = .failed fault ↔
      ∃ site cause,
        Blamed bound manner program (session.machine.addDistances distances) site cause ∧
          fault = ⟨cause, site.line⟩ := by
  rw [← runProgram_blamed, runAs_of_accepts accepts, start_eq]
  constructor
  · intro failed
    cases ran : runProgram bound manner program (session.machine.addDistances distances) with
    | done value after =>
      rw [ran] at failed
      cases failed
    | stopped stop after =>
      rw [ran] at failed
      cases stop with
      | unfinished => cases failed
      | fault other =>
        cases failed
        exact ⟨after, rfl⟩
  · rintro ⟨final, ran⟩
    rw [ran]
    rfl

end Runs
section Twins

variable {pairing : Pairing} {bound : Nat} {manner : Manner} {program other : Program}
  {machine otherMachine : Machine}

theorem Begins.twin {moment : Moment} (begins : Begins bound manner program machine moment)
    (programs : List.Forall₂ (Stmt.Twin pairing) program other)
    (machines : machine.Twin pairing otherMachine) :
    ∃ further, Begins bound manner other otherMachine further ∧ moment.Twin pairing further := by
  cases begins with
  | alone value =>
    cases programs with
    | cons here later =>
      cases later with
      | nil =>
        cases here with
        | expression values => exact ⟨_, .alone _ otherMachine, .evaluating values machines⟩
  | comesUp several comesUp =>
    obtain ⟨stmt, reached, comesUpTwin, stmts, there⟩ := comesUp.twin programs machines
    refine ⟨_, .comesUp (fun value prompt lone => ?_) comesUpTwin, .executing stmts there⟩
    -- a lone expression would have a lone expression for its twin
    obtain ⟨value, alone⟩ := lone_of_twin programs lone
    exact several value prompt alone

theorem Blamed.twin {site : Site} {cause : RuntimeCause}
    (blamed : Blamed bound manner program machine site cause)
    (programs : List.Forall₂ (Stmt.Twin pairing) program other)
    (machines : machine.Twin pairing otherMachine) :
    ∃ otherSite, pairing.nodes site otherSite ∧
      Blamed bound manner other otherMachine otherSite cause := by
  obtain ⟨first, moment, begins, reaches, raises⟩ := blamed
  obtain ⟨otherFirst, otherBegins, firsts⟩ := begins.twin programs machines
  obtain ⟨otherMoment, otherReaches, moments⟩ := reaches.twin firsts
  obtain ⟨otherSite, nodes, otherRaises⟩ := raises.twin moments
  exact ⟨otherSite, nodes, otherFirst, otherMoment, otherBegins, otherReaches, otherRaises⟩

end Twins
end LoxLang
