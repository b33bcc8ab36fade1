import LoxLang.Session
import LoxLang.Proofs.Grammar.Numbering
import LoxLang.Proofs.Grammar.Regularity
import LoxLang.Proofs.Scoping.Acceptance
import LoxLang.Proofs.Evaluation.Soundness

/-!
What a session makes of a source before any of it runs. The nodes of an accepted program are new, so
its distances do not disturb those of earlier programs, and it is resolved with the distances that
the machine has from then on.
-/
namespace LoxLang

def Session.read (session : Session) (source : String) : ReadSource :=
  .ofText session.nextId source

/-- The number that the next node gets once the source has been read. -/
def Session.nextAfter (session : Session) (source : String) : Nat :=
  (session.read source).parsed.nextId

/-- What the static stages say of a source: the distances to run it with, or what is wrong. -/
def Session.verdict (session : Session) (source : String) : Except (List StaticFault) Distances :=
  if (session.read source).faults.isEmpty then resolve (session.read source).parsed.program
  else .error (session.read source).faults

/-- The source passes scanning, parsing and resolving. -/
structure Session.Accepts (session : Session) (source : String) (program : Program)
    (distances : Distances) : Prop where
  clean : (session.read source).faults = []
  read : (session.read source).parsed.program = program
  resolved : resolve program = .ok distances

namespace Session

variable {session : Session} {source : String} {program : Program} {distances : Distances}

theorem runAs_eq (session : Session) (bound : Nat) (manner : Manner) (source : String) :
    session.runAs bound manner source =
      match session.verdict source with
      | .error faults => (.rejected faults, { session with nextId := session.nextAfter source })
      | .ok distances =>
        let ran := start bound manner (session.read source).parsed.program distances
          session.machine
        (ran.1, ⟨ran.2, session.nextAfter source⟩) := by
  by_cases clean : (session.read source).faults.isEmpty
  · have verdict : session.verdict source = resolve (session.read source).parsed.program :=
      if_pos clean
    rw [verdict]
    refine (if_pos clean).trans ?_
    cases resolved : resolve (session.read source).parsed.program with
    | ok distances => rw [read] at resolved; rw [resolved]; rfl
    | error faults => rw [read] at resolved; rw [resolved]; rfl
  · have verdict : session.verdict source = .error (session.read source).faults := if_neg clean
    rw [verdict]
    exact if_neg clean

theorem accepts_of_verdict (verdict : session.verdict source = .ok distances) :
    session.Accepts source (session.read source).parsed.program distances := by
  unfold Session.verdict at verdict
  split at verdict
  · rename_i clean
    exact ⟨List.isEmpty_iff.mp clean, rfl, verdict⟩
  · cases verdict

theorem Accepts.verdict (accepts : session.Accepts source program distances) :
    session.verdict source = .ok distances := by
  rw [Session.verdict, accepts.clean, accepts.read]
  exact accepts.resolved

theorem Accepts.unique {program other : Program} {found : Distances}
    (first : session.Accepts source program distances)
    (second : session.Accepts source other found) : program = other ∧ distances = found := by
  have programs := first.read.symm.trans second.read
  subst programs
  have resolved := first.resolved.symm.trans second.resolved
  cases resolved
  exact ⟨rfl, rfl⟩

theorem runAs_of_accepts (accepts : session.Accepts source program distances) (bound : Nat)
    (manner : Manner) :
    session.runAs bound manner source =
      ((start bound manner program distances session.machine).1,
        ⟨(start bound manner program distances session.machine).2, session.nextAfter source⟩) := by
  rw [runAs_eq, accepts.verdict, accepts.read]

theorem nextId_le_nextAfter (session : Session) (source : String) :
    session.nextId ≤ session.nextAfter source :=
  Grammar.parse_nextId_le _ _

theorem Accepts.numbered (accepts : session.Accepts source program distances) :
    Numbered session.nextId (session.nextAfter source) (Stmt.idsAll program) := by
  rw [← accepts.read]
  exact Grammar.parse_numbered _ _

theorem Accepts.regular (accepts : session.Accepts source program distances) :
    Stmt.RegularAll program := by
  rw [← accepts.read]
  exact Grammar.parse_regular _ _

theorem Accepts.older (accepts : session.Accepts source program distances) :
    Older (session.nextAfter source) (Stmt.idsAll program) :=
  fun id member => (accepts.numbered.2 id member).2

theorem Accepts.range (accepts : session.Accepts source program distances) {id distance : Nat}
    (known : distances[id]? = some distance) :
    session.nextId ≤ id ∧ id < session.nextAfter source := by
  by_cases inside : id ∈ Stmt.idsAll program
  · exact accepts.numbered.2 id inside
  · rw [resolve_getElem?_eq_none accepts.resolved inside] at known
    cases known

end Session

/-- No distances beyond the nodes that have been read. -/
def Distances.Below (limit : Nat) (table : Distances) : Prop :=
  ∀ id, limit ≤ id → table[id]? = none

section Adding

variable {session : Session} {source : String} {program : Program} {distances table : Distances}

theorem Distances.getElem?_add (table distances : Distances) (id : Nat) :
    (table ∪ distances)[id]? = distances[id]?.or table[id]? :=
  Std.TreeMap.getElem?_union

theorem Session.Accepts.add_old (accepts : session.Accepts source program distances) {id : Nat}
    (old : id < session.nextId) : (table ∪ distances)[id]? = table[id]? := by
  rw [Distances.getElem?_add]
  cases known : distances[id]? with
  | none => rfl
  | some distance => exact absurd old (Nat.not_lt.mpr (accepts.range known).1)

theorem Session.Accepts.add_new (accepts : session.Accepts source program distances)
    (below : table.Below session.nextId) :
    distances.AgreeOn (Stmt.idsAll program) (table ∪ distances) := by
  intro id member
  rw [Distances.getElem?_add, below id (accepts.numbered.2 id member).1, Option.or_none]

theorem Session.Accepts.add_below (accepts : session.Accepts source program distances)
    (below : table.Below session.nextId) :
    Distances.Below (session.nextAfter source) (table ∪ distances) := by
  intro id above
  rw [Distances.getElem?_add,
    below id (Nat.le_trans (session.nextId_le_nextAfter source) above), Option.or_none]
  cases known : distances[id]? with
  | none => rfl
  | some distance => exact absurd above (Nat.not_le.mpr (accepts.range known).2)

theorem Session.Accepts.resolvedAll (accepts : session.Accepts source program distances)
    (below : table.Below session.nextId) :
    Stmt.ResolvedAll (table ∪ distances) [] program :=
  resolve_resolved accepts.resolved accepts.regular accepts.numbered.1 (accepts.add_new below)

end Adding
section Running

theorem grows_executeProgram (bound : Nat) (program : Program) :
    (executeProgram bound program).Grows :=
  Exec.Grows.uniform.executeProgram bound program

theorem grows_runProgram (bound : Nat) (manner : Manner) (program : Program) :
    (runProgram bound manner program).Grows :=
  Exec.Grows.uniform.runProgram bound manner program

end Running

section Fresh

variable (clock : Nat → Float)

theorem Machine.room_withNatives :
    (Machine.withNatives clock).globals < (Machine.withNatives clock).store.next := by
  change 0 < ((Store.empty.push none).define 0 "clock" _).next
  simp

theorem Machine.bound?_withNatives (frame : FrameId) (name : String) :
    (Machine.withNatives clock).store.bound? frame name =
      if 0 = frame ∧ "clock" = name then some (.callable 0 (.native ⟨"clock", 0, .clock⟩))
      else none := by
  change ((Store.empty.push none).define 0 "clock" _).bound? frame name = _
  have empty : (Store.empty.push none).bound? frame name = none := by
    rw [Store.bound?_push]
    simp [Store.bound?, Store.empty]
  rw [Store.bound?_define, empty]
  by_cases here : 0 = frame ∧ "clock" = name
  · rw [if_pos here, if_pos ⟨here.1, here.2, by simp [← here.1]⟩]
  · rw [if_neg here, if_neg fun wider => here ⟨wider.1, wider.2.1⟩]

theorem Machine.parent?_withNatives : (Machine.withNatives clock).store.parent? 0 = none := by
  change ((Store.empty.push none).define 0 "clock" _).parent? 0 = none
  rw [Store.parent?_define, Store.parent?_push]
  simp [Store.parent?, Store.empty]

end Fresh
end LoxLang
