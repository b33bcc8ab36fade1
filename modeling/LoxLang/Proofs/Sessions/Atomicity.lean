import LoxLang.Proofs.Sessions.Histories
import LoxLang.Proofs.Sessions.Twins

/-!
A source with a static fault does nothing but to be reported. It uses up numbers for the nodes that
were read, and no later source can tell: a session that never saw it goes on with twins of the same
machine and of the same programs.
-/
namespace LoxLang

section Reports

theorem Outcome.diagnostics_of_ran (outcome : Outcome) (ran : outcome.isRejected = false)
    (ended : outcome ≠ .unfinished) :
    outcome.isFailed = false ∧ outcome.diagnostics = [] ∨
      outcome.isFailed = true ∧ ∃ fault, outcome.diagnostics = [.runtime fault] := by
  cases outcome with
  | finished => exact .inl ⟨rfl, rfl⟩
  | rejected faults => cases ran
  | failed fault => exact .inr ⟨rfl, fault, rfl⟩
  | unfinished => exact absurd rfl ended

namespace Session

/-- What the static stages report: scanning and parsing, one behind the other, or if neither has
anything to say, resolving. -/
def reports (session : Session) (source : String) : List StaticFault :=
  let syntactic := (Scanned.faults (scan source)).map ScanFault.static ++
    (Grammar.parse session.nextId (Scanned.tokens (scan source))).faults
  let program := (Grammar.parse session.nextId (Scanned.tokens (scan source))).program
  if syntactic = [] then (Scoping.statements program .start).faults.toList else syntactic

variable {session : Session} {source : String}

/-- A source is turned down exactly if something is reported, and for that. -/
theorem verdict_eq_error {faults : List StaticFault} :
    session.verdict source = .error faults ↔ session.reports source = faults ∧ faults ≠ [] := by
  have reported : session.reports source = if (session.read source).faults = [] then
      (Scoping.statements (session.read source).parsed.program .start).faults.toList
      else (session.read source).faults := rfl
  rw [reported, verdict]
  by_cases clean : (session.read source).faults = []
  · rw [if_pos (List.isEmpty_iff.mpr clean), if_pos clean]
    exact resolve_eq_error
  · rw [if_neg fun none => clean (List.isEmpty_iff.mp none), if_neg clean]
    constructor
    · rintro same
      cases same
      exact ⟨rfl, clean⟩
    · rintro ⟨rfl, _⟩
      rfl

theorem runAs_of_reports (found : session.reports source ≠ []) (bound : Nat) (manner : Manner) :
    session.runAs bound manner source =
      (.rejected (session.reports source), ⟨session.machine, session.nextAfter source⟩) := by
  rw [runAs_eq, verdict_eq_error.mpr ⟨rfl, found⟩]

theorem ran_of_accepts {program : Program} {distances : Distances}
    (accepts : session.Accepts source program distances) (bound : Nat) (manner : Manner) :
    (session.runAs bound manner source).1.isRejected = false := by
  rw [runAs_of_accepts accepts, start_eq]
  cases runProgram bound manner program (session.machine.addDistances distances) with
  | done _ _ => rfl
  | stopped stop _ => cases stop <;> rfl

theorem accepts_of_silent (silent : session.reports source = []) :
    ∃ program distances, session.Accepts source program distances := by
  cases verdict : session.verdict source with
  | ok distances => exact ⟨_, distances, accepts_of_verdict verdict⟩
  | error faults =>
    obtain ⟨same, some⟩ := verdict_eq_error.mp verdict
    exact absurd (same.symm.trans silent) some

end Session
end Reports

/-- One source of a session, with its outcome and all that has been printed by then. -/
structure Session.Entry where
  submission : Submission
  outcome : Outcome
  printed : String

def Session.entries (session : Session) : List Submission → List Session.Entry
  | [] => []
  | first :: rest =>
    let (outcome, after) := session.runAs first.bound first.manner first.source
    ⟨first, outcome, after.output⟩ :: after.entries rest

/-- Neither of two sessions can tell which of them it is. -/
structure Session.Matches (session other : Session) : Prop where
  sound : session.Sound
  otherSound : other.Sound
  machines : session.machine.Twin ⟨Aligned session.nextId other.nextId fun _ => 0,
    session.machine.distances, other.machine.distances⟩ other.machine

namespace Session

variable {session other : Session} {source : String} {program : Program} {distances : Distances}

theorem Sound.itself (sound : session.Sound) : session.Matches session := by
  have machines := sound.machine.twin
  exact ⟨sound, sound, machines⟩

theorem Matches.skip (same : session.Matches other) {number : Nat} (above : session.nextId ≤ number)
    (sound : (Session.mk session.machine number).Sound) :
    (Session.mk session.machine number).Matches other := by
  refine ⟨sound, same.otherSound, same.machines.widen (Aligned.within ?_ (fun _ _ => rfl)
    fun _ _ => rfl)⟩
  rintro site twin ⟨older, otherOlder, level⟩
  exact ⟨Nat.lt_of_lt_of_le older above, otherOlder, level⟩

theorem Matches.reads (same : session.Matches other)
    (accepts : session.Accepts source program distances) :
    ∃ twin found, other.Accepts source twin found ∧
      List.Forall₂ (Stmt.Twin ⟨Aligned (session.nextAfter source) (other.nextAfter source) fun _ => 0,
        session.machine.distances ∪ distances, other.machine.distances ∪ found⟩) program twin ∧
      Machine.Twin ⟨Aligned (session.nextAfter source) (other.nextAfter source) fun _ => 0,
        session.machine.distances ∪ distances, other.machine.distances ∪ found⟩
        (session.machine.addDistances distances) (other.machine.addDistances found) := by
  obtain ⟨twin, found, otherAccepts, alike⟩ := accepts.elsewhere other
  refine ⟨twin, found, otherAccepts, ?_, ?_⟩
  · exact Stmt.twins_of_resolved (alike.trans (congrArg _ (Stmt.downAll_zero program)).symm)
      (.of_older accepts.older otherAccepts.older fun _ _ => rfl)
      (accepts.resolvedAll same.sound.below) (otherAccepts.resolvedAll same.otherSound.below)
  · refine same.machines.widen (Aligned.within ?_ (fun _ => accepts.add_old)
      fun _ => otherAccepts.add_old)
    rintro site twin ⟨older, otherOlder, level⟩
    exact ⟨Nat.lt_of_lt_of_le older (session.nextId_le_nextAfter source),
      Nat.lt_of_lt_of_le otherOlder (other.nextId_le_nextAfter source), level⟩

theorem Matches.runs (same : session.Matches other)
    (accepts : session.Accepts source program distances) (bound : Nat) (manner : Manner) :
    (other.runAs bound manner source).1 = (session.runAs bound manner source).1 ∧
      (session.runAs bound manner source).2.Matches (other.runAs bound manner source).2 := by
  obtain ⟨twin, found, otherAccepts, programs, machines⟩ := same.reads accepts
  have sound := same.sound.runAs bound manner source
  have otherSound := same.otherSound.runAs bound manner source
  rw [runAs_of_accepts accepts, start_eq] at sound ⊢
  rw [runAs_of_accepts otherAccepts, start_eq] at otherSound ⊢
  obtain ⟨outcomes, after⟩ := (twin_runProgram bound manner programs _ _ machines).outcome
  exact ⟨outcomes.eq fun _ _ node => node.2.2, sound, otherSound, after.tables⟩

/-- Without the sources that were turned down, all others fare as they did. -/
theorem Matches.entries (same : session.Matches other) (history : List Submission) :
    other.entries (((session.entries history).filter (!·.outcome.isRejected)).map
      Session.Entry.submission) = (session.entries history).filter (!·.outcome.isRejected) := by
  induction history generalizing session other with
  | nil => rfl
  | cons first rest ih =>
    obtain ⟨bound, manner, source⟩ := first
    -- a source that is run is run by both; one that is rejected only by the first
    rw [Session.entries]
    by_cases found : session.reports source = []
    · obtain ⟨program, distances, accepts⟩ := accepts_of_silent found
      obtain ⟨outcomes, after⟩ := same.runs accepts bound manner
      have kept := ran_of_accepts accepts bound manner
      rw [List.filter_cons_of_pos (by simpa using kept), List.map_cons, Session.entries]
      simp only [outcomes, ih after, Session.output, after.machines.output]
    · rw [runAs_of_reports found bound manner, List.filter_cons_of_neg (by simp [Outcome.isRejected])]
      refine ih (same.skip (session.nextId_le_nextAfter source) ?_)
      have sound := same.sound.runAs bound manner source
      rwa [runAs_of_reports found bound manner] at sound

end Session

/-- A source with a static fault leaves the machine as it was and is reported stage by stage; any other
one that ends does so in silence or with one runtime fault. And whatever is rejected might as well not
have been there. -/
theorem static_failures_atomic {clock : Nat → Float} {session : Session}
    (reachable : Session.Reachable clock session) :
    (∀ bound manner source, session.reports source ≠ [] →
      let ran := session.runAs bound manner source
      ran.2.machine = session.machine ∧ ran.1.isRejected = true ∧ ran.1.isFailed = false ∧
        ran.1.diagnostics = (session.reports source).map .static ∧ ran.1.diagnostics ≠ []) ∧
    (∀ bound manner source, session.reports source = [] →
      let ran := session.runAs bound manner source
      ran.1 ≠ .unfinished → ran.1.isRejected = false ∧
        (ran.1.isFailed = false ∧ ran.1.diagnostics = [] ∨
          ran.1.isFailed = true ∧ ∃ fault, ran.1.diagnostics = [.runtime fault])) ∧
    ∀ history,
      let kept := (session.entries history).filter (!·.outcome.isRejected)
      session.entries (kept.map Session.Entry.submission) = kept := by
  refine ⟨fun bound manner source found => ?_, fun bound manner source silent => ?_, ?_⟩
  · rw [Session.runAs_of_reports found]
    exact ⟨rfl, rfl, rfl, rfl, fun none => found (List.map_eq_nil_iff.mp none)⟩
  · obtain ⟨program, distances, accepts⟩ := Session.accepts_of_silent silent
    intro ran ended
    have kept : ran.1.isRejected = false := Session.ran_of_accepts accepts bound manner
    exact ⟨kept, ran.1.diagnostics_of_ran kept ended⟩
  -- A session goes together with itself, and numbers that rejected sources used up make no
  -- difference.
  · exact reachable.sound.itself.entries

/-- A line that does not parse, between two others. -/
theorem static_failures_atomic_prompt :
    let session := Session.fresh fun _ => 0
    let history : List Submission := [⟨9, .prompt, "var x = true;"⟩, ⟨9, .prompt, "print x y;"⟩,
      ⟨9, .prompt, "x;"⟩]
    (session.entries history).map (fun entry => (entry.outcome.isRejected, entry.printed)) =
        [(false, ""), (true, ""), (false, "true\n")] ∧
      let kept := (session.entries history).filter (!·.outcome.isRejected)
      session.entries (kept.map Session.Entry.submission) = kept :=
  ⟨by decide +kernel, (static_failures_atomic .fresh).2.2 _⟩

end LoxLang
