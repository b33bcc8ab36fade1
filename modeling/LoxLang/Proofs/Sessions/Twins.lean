import LoxLang.Proofs.Evaluation.Twins
import LoxLang.Proofs.Sessions.Reading
import LoxLang.Proofs.Sessions.Resolution

/-!
Sessions side by side. A machine that is sound is a twin of itself, and it stays a twin of another one
when both get to know distances of nodes that are new to them. Programs of the same shape that both
sides accept are twins as well, so that running them keeps the machines twins.
-/
namespace LoxLang

/-- Nodes that both sides have read, the second of them as many lines further down as `shift` says for
the number of the first. -/
def Aligned (limit otherLimit : Nat) (shift : Nat → Nat) (site twin : Site) : Prop :=
  site.id < limit ∧ twin.id < otherLimit ∧ twin.line = site.line + shift site.id

/-- The machines are the same but for the numbers of nodes, and for lines as far as `shift` says. -/
def Machine.Alike (shift : Nat → Nat) (machine other : Machine) : Prop :=
  machine.Twin ⟨fun site twin => twin.line = site.line + shift site.id, machine.distances,
    other.distances⟩ other

section Machines

variable {pairing wider : Pairing} {machine other : Machine} {table otherTable : Distances}
  {limit otherLimit : Nat} {shift : Nat → Nat}

theorem Store.Twin.widen {store other : Store} (within : pairing.Within wider)
    (stores : store.Twin pairing other) : store.Twin wider other := by
  refine ⟨stores.next, stores.parent, fun frame name => ?_⟩
  rcases rel_option (stores.bound frame name) with ⟨here, there⟩ | ⟨_, _, here, there, values⟩
  · rw [here, there]
    exact .none
  · rw [here, there]
    exact .some (values.widen within)

theorem Machine.Twin.widen (machines : machine.Twin pairing other) (within : pairing.Within wider) :
    Machine.Twin wider { machine with distances := wider.table }
      { other with distances := wider.other } :=
  { machines with table := rfl, otherTable := rfl, store := machines.store.widen within }

theorem Aligned.within {nodes : Site → Site → Prop} {more further : Distances}
    (wider : ∀ site twin, Aligned limit otherLimit shift site twin → nodes site twin)
    (same : ∀ id, id < limit → more[id]? = table[id]?)
    (otherSame : ∀ id, id < otherLimit → further[id]? = otherTable[id]?) :
    Pairing.Within ⟨Aligned limit otherLimit shift, table, otherTable⟩ ⟨nodes, more, further⟩ := by
  refine ⟨wider _ _, fun reference => ⟨wider _ _ reference.1, ?_⟩⟩
  exact (same _ reference.1.1).trans (reference.2.trans (otherSame _ reference.1.2.1).symm)

theorem Machine.Twin.tables {nodes : Site → Site → Prop}
    (machines : machine.Twin ⟨nodes, table, otherTable⟩ other) :
    machine.Twin ⟨nodes, machine.distances, other.distances⟩ other := by
  rw [machines.table, machines.otherTable]
  exact machines

theorem Machine.Twin.alike
    (machines : machine.Twin ⟨Aligned limit otherLimit shift, table, otherTable⟩ other) :
    machine.Alike shift other :=
  machines.tables.widen (Aligned.within (fun _ _ node => node.2.2) (fun _ _ => rfl) fun _ _ => rfl)

/-- Two programs of the same shape are twins where each is resolved on its own side. -/
theorem Stmt.twins_of_resolved {lines : Nat} {nodes : Site → Site → Prop} {program twin : List Stmt}
    {nesting : Nesting} (alike : Stmt.eraseAll twin = Stmt.eraseAll (Stmt.downAll lines program))
    (pairs : Pairs lines nodes (Stmt.idsAll program) (Stmt.idsAll twin))
    (resolved : Stmt.ResolvedAll table nesting program)
    (otherResolved : Stmt.ResolvedAll otherTable nesting twin) :
    List.Forall₂ (Stmt.Twin ⟨nodes, table, otherTable⟩) program twin :=
  Stmt.Twin.boundAll (Stmt.twins_of_erase program alike pairs) resolved otherResolved

theorem Pairs.of_older {lines : Nat} {ids others : List Nat} (older : Older limit ids)
    (otherOlder : Older otherLimit others) (shifted : ∀ id ∈ ids, shift id = lines) :
    Pairs lines (Aligned limit otherLimit shift) ids others := by
  intro site twin member found below
  refine ⟨older _ member, otherOlder _ found, ?_⟩
  rw [below, shifted _ member]

theorem ValueOver.Sound.twin {value : Value} (sound : value.Sound table limit machine) :
    value.Twin ⟨Aligned limit limit fun _ => 0, table, table⟩ value := by
  cases value with
  | callable identity target =>
    cases target with
    | native builtin => exact .callable identity (.native builtin)
    | function declaration closure =>
      obtain ⟨nesting, _, resolved, older⟩ := sound
      -- the body is resolved on both sides alike, for it is the same side
      have pairs : Pairs 0 (Aligned limit limit fun _ => 0) (Stmt.idsAll declaration.body)
          (Stmt.idsAll declaration.body) := .of_older older older fun _ _ => rfl
      have itself := (congrArg Stmt.eraseAll (Stmt.downAll_zero declaration.body)).symm
      exact .callable identity
        (.function rfl (Stmt.twins_of_resolved itself pairs resolved resolved))
  | string text => exact .string text
  | number value => exact .number value
  | boolean value => exact .boolean value
  | nil => exact .nil

theorem Machine.Sound.twin (sound : machine.Sound table limit) :
    machine.Twin ⟨Aligned limit limit fun _ => 0, table, table⟩ machine := by
  refine ⟨sound.distances, sound.distances, ⟨rfl, fun _ => rfl, fun frame name => ?_⟩, rfl, rfl, rfl,
    rfl, rfl, rfl⟩
  cases found : machine.store.bound? frame name with
  | none => exact .none
  | some value => exact .some (sound.bound frame name value found).twin

end Machines
section Running

variable {pairing : Pairing} {program other : Program} {machine twin : Machine}

/-- The same outcome, with faults at nodes that go together. -/
inductive Outcome.Twin (pairing : Pairing) : Outcome → Outcome → Prop
  | finished : Twin pairing .finished .finished
  | unfinished : Twin pairing .unfinished .unfinished
  | failed {site twin : Site} (cause : RuntimeCause) : pairing.nodes site twin →
    Twin pairing (.failed ⟨cause, site.line⟩) (.failed ⟨cause, twin.line⟩)

theorem Stop.Twin.outcome {stop otherStop : Stop} (stops : stop.Twin pairing otherStop) :
    (Outcome.ofStop stop).Twin pairing (.ofStop otherStop) := by
  cases stops with
  | unfinished => exact .unfinished
  | fault cause node => exact .failed cause node

def Step.outcome {α : Type} : Step α → Outcome
  | .done _ _ => .finished
  | .stopped stop _ => .ofStop stop

theorem Session.start_eq (bound : Nat) (manner : Manner) (program : Program) (distances : Distances)
    (machine : Machine) :
    start bound manner program distances machine =
      ((runProgram bound manner program (machine.addDistances distances)).outcome,
        (runProgram bound manner program (machine.addDistances distances)).machine) := by
  unfold start
  cases runProgram bound manner program (machine.addDistances distances) <;> rfl

theorem executeProgram_eq (bound : Nat) (program : Program) (machine : Machine) :
    (executeProgram bound program machine).outcome =
        (runAll (execute bound) program machine).outcome ∧
      (executeProgram bound program machine).machine =
        (runAll (execute bound) program machine).machine := by
  rw [executeProgram, Exec.bind_apply]
  cases runAll (execute bound) program machine <;> exact ⟨rfl, rfl⟩

theorem Outcome.Twin.eq {outcome further : Outcome} (outcomes : outcome.Twin pairing further)
    (level : ∀ site twin, pairing.nodes site twin → twin.line = site.line) : further = outcome := by
  cases outcomes with
  | failed cause node => rw [level _ _ node]
  | _ => rfl

theorem Outcome.Twin.eq_of_quiet {outcome further : Outcome} (outcomes : outcome.Twin pairing further)
    (quiet : outcome.isFailed = false) : further = outcome := by
  cases outcomes with
  | failed cause node => cases quiet
  | _ => rfl

theorem twin_executeProgram (bound : Nat) (programs : List.Forall₂ (Stmt.Twin pairing) program other) :
    (executeProgram bound program).Twin pairing (fun _ _ => True) (executeProgram bound other) :=
  (twin_runAll (twin_execute pairing bound) programs).bind fun _ _ _ => .pure trivial

theorem twin_alone (bound : Nat) {value otherValue : Expr} (values : value.Twin pairing otherValue) :
    (runProgram bound .prompt [.expression value]).Twin pairing (fun _ _ => True)
      (runProgram bound .prompt [.expression otherValue]) := by
  have alone : (executeAlone bound (.expression value)).Twin pairing
      (Option.Rel (ValueOver.Twin pairing)) (executeAlone bound (.expression otherValue)) :=
    (twin_evaluate pairing bound _ _ values).bind fun _ _ results => .pure (.some results)
  apply alone.bind
  intro shown otherShown results
  cases results with
  | none => exact .pure trivial
  | some results =>
    cases results with
    | nil => exact .pure trivial
    | string text => exact twin_write (.string text)
    | number value => exact twin_write (.number value)
    | boolean value => exact twin_write (.boolean value)
    | callable identity targets => exact twin_write (.callable identity targets)

/-- Only a program that is one expression statement is treated in a way of its own. -/
theorem runProgram_eq {manner : Manner}
    (several : ∀ value, manner = .prompt → program ≠ [.expression value]) (bound : Nat) :
    runProgram bound manner program = executeProgram bound program := by
  unfold runProgram
  split
  · exact absurd rfl (several _ rfl)
  · rfl

theorem lone_of_twin (programs : List.Forall₂ (Stmt.Twin pairing) program other) {value : Expr}
    (lone : other = [.expression value]) : ∃ value, program = [.expression value] := by
  subst lone
  cases programs with
  | cons here later =>
    cases later with
    | nil =>
      cases here with
      | expression values => exact ⟨_, rfl⟩

theorem twin_runProgram (bound : Nat) (manner : Manner)
    (programs : List.Forall₂ (Stmt.Twin pairing) program other) :
    (runProgram bound manner program).Twin pairing (fun _ _ => True)
      (runProgram bound manner other) := by
  by_cases alone : ∃ value, manner = .prompt ∧ program = [.expression value]
  · obtain ⟨value, rfl, rfl⟩ := alone
    cases programs with
    | cons here later =>
      cases later with
      | nil =>
        cases here with
        | expression values => exact twin_alone bound values
  · have several : ∀ value, manner = .prompt → program ≠ [.expression value] :=
      fun value prompt lone => alone ⟨value, prompt, lone⟩
    have otherSeveral : ∀ value, manner = .prompt → other ≠ [.expression value] :=
      fun value prompt lone => alone ((lone_of_twin programs lone).imp fun _ lone => ⟨prompt, lone⟩)
    rw [runProgram_eq several, runProgram_eq otherSeveral]
    exact twin_executeProgram bound programs

theorem Step.Twin.outcome {α β : Type} {results : α → β → Prop} {step : Step α} {further : Step β}
    (steps : Step.Twin pairing results step further) :
    step.outcome.Twin pairing further.outcome ∧ step.machine.Twin pairing further.machine := by
  cases steps with
  | done _ machines => exact ⟨.finished, machines⟩
  | stopped stops machines => exact ⟨stops.outcome, machines⟩

end Running
end LoxLang
