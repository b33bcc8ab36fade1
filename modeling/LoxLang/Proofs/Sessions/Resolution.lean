import Mathlib
import LoxLang.Proofs.Sessions.Sources
import LoxLang.Proofs.Evaluation.References

/-!
Resolving is sound over whole sessions: what runs of earlier sources have left behind, closures over
their frames and distances of their nodes, stays sound however those runs have ended, and so every
reference of every accepted source is where its distance says, at every moment of its run.
-/
namespace LoxLang

/-- Sessions that come about by running sources one after the other, as wholes or at the prompt. -/
inductive Session.Reachable (clock : Nat → Float) : Session → Prop
  | fresh : Reachable clock (.fresh clock)
  | next {session : Session} (bound : Nat) (manner : Manner) (source : String) :
    Reachable clock session → Reachable clock (session.runAs bound manner source).2

/-- The moments that the run of a program consists of at the top: its statements in order, or a lone
expression at the prompt. -/
inductive Begins (bound : Nat) : Manner → Program → Machine → Moment → Prop
  | alone (value : Expr) (machine : Machine) :
    Begins bound .prompt [.expression value] machine (.evaluating bound none value machine)
  | comesUp {manner : Manner} {program : Program} {machine : Machine} {stmt : Stmt}
    {reached : Machine} :
    (∀ value, manner = .prompt → program ≠ [.expression value]) →
    ComesUp (execute bound) program machine stmt reached →
    Begins bound manner program machine (.executing bound stmt reached)

/-- All that the session relies on between two sources. -/
structure Session.Sound (session : Session) : Prop where
  machine : session.machine.Sound session.machine.distances session.nextId
  below : session.machine.distances.Below session.nextId
  outside : session.machine.current = session.machine.globals

theorem Machine.Sound.raise {table : Distances} {limit higher : Nat} {machine : Machine}
    (sound : machine.Sound table limit) (above : limit ≤ higher) : machine.Sound table higher := by
  refine ⟨sound.distances, sound.globals, fun frame name value found => ?_⟩
  have good := sound.bound frame name value found
  cases value with
  | callable identity target =>
    cases target with
    | native builtin => trivial
    | function declaration closure =>
      obtain ⟨nesting, framed, resolved, older⟩ := good
      exact ⟨nesting, framed, resolved, fun id member =>
        Nat.lt_of_lt_of_le (older id member) above⟩
  | _ => trivial

/-- Bodies that were read before do not notice distances of later nodes. -/
theorem Machine.Sound.add {table distances : Distances} {limit : Nat} {machine : Machine}
    (sound : machine.Sound table limit)
    (same : ∀ id, id < limit → (table ∪ distances)[id]? = table[id]?) :
    (machine.addDistances distances).Sound (table ∪ distances) limit := by
  refine ⟨by rw [← sound.distances]; rfl, sound.globals, fun frame name value found => ?_⟩
  have good := sound.bound frame name value found
  cases value with
  | callable identity target =>
    cases target with
    | native builtin => trivial
    | function declaration closure =>
      obtain ⟨nesting, framed, resolved, older⟩ := good
      exact ⟨nesting, framed, resolved.agree fun id member => same id (older id member), older⟩
  | _ => trivial

section Running

variable {table : Distances} {limit bound : Nat} {manner : Manner} {program : Program}
  {machine : Machine}

theorem ensures_executeProgram (resolved : Stmt.ResolvedAll table [] program)
    (older : Older limit (Stmt.idsAll program)) (bound : Nat) :
    Exec.Ensures table limit (Machine.Stands []) (executeProgram bound program)
      fun _ _ => True :=
  (ensures_runAll (sound_execute bound) program resolved older).bind fun _ =>
    .pure fun _ _ => trivial

theorem ensures_runProgram (resolved : Stmt.ResolvedAll table [] program)
    (older : Older limit (Stmt.idsAll program)) (bound : Nat) (manner : Manner) :
    Exec.Ensures table limit (Machine.Stands []) (runProgram bound manner program)
      fun _ _ => True := by
  unfold runProgram
  split
  · rename_i value
    have alone : Exec.Ensures table limit (Machine.Stands [])
        (executeAlone bound (.expression value)) fun _ _ => True :=
      ((sound_evaluate bound value).weaken (fun _ _ => trivial) fun _ _ _ => trivial).bind
        fun _ => .pure fun _ _ => trivial
    refine alone.bind fun shown => ?_
    split
    · exact .pure fun _ _ => trivial
    · exact ensures_write _
    · exact .pure fun _ _ => trivial
  · exact ensures_executeProgram resolved older bound

theorem Begins.sound {moment : Moment} (begins : Begins bound manner program machine moment)
    (kept : machine.Sound table limit) (stands : machine.Stands [])
    (resolved : Stmt.ResolvedAll table [] program) (older : Older limit (Stmt.idsAll program)) :
    moment.Sound table limit := by
  cases begins with
  | alone value => exact ⟨kept, [], stands, resolved.1⟩
  | comesUp _ found => exact sound_comesUp kept stands resolved older found

theorem runProgram_stops {fault : RuntimeFault} {final : Machine}
    (stops : runProgram bound manner program machine = .stopped (.fault fault) final) :
    ∃ first, Begins bound manner program machine first ∧ first.Stops fault := by
  unfold runProgram at stops
  split at stops
  · rename_i value
    rcases Exec.bind_eq_stopped.mp stops with alone | ⟨shown, after, _, never⟩
    · rcases Exec.bind_eq_stopped.mp alone with inner | ⟨_, _, _, never⟩
      · exact ⟨_, .alone value machine, final, inner⟩
      · cases never
    · split at never <;> cases never
  · rename_i other
    rcases Exec.bind_eq_stopped.mp stops with inner | ⟨_, _, _, never⟩
    · obtain ⟨stmt, reached, found, stopped⟩ := runAll_stopped inner
      refine ⟨_, .comesUp ?_ found, final, stopped⟩
      rintro value rfl rfl
      exact other value rfl rfl
    · cases never

end Running

section Sessions

variable {session : Session} {source : String} {program : Program} {distances : Distances}

theorem Session.start_machine (bound : Nat) (manner : Manner) (program : Program)
    (distances : Distances) (machine : Machine) :
    (start bound manner program distances machine).2 =
      (runProgram bound manner program (machine.addDistances distances)).machine := by
  unfold start
  cases runProgram bound manner program (machine.addDistances distances) <;> rfl

theorem Session.Sound.start (sound : session.Sound)
    (accepts : session.Accepts source program distances) :
    (session.machine.addDistances distances).Sound (session.machine.distances ∪ distances)
        (session.nextAfter source) ∧
      (session.machine.addDistances distances).Stands [] :=
  ⟨(sound.machine.add fun _ old => accepts.add_old old).raise
    (session.nextId_le_nextAfter source), sound.outside⟩

theorem Session.sound_fresh (clock : Nat → Float) : (Session.fresh clock).Sound := by
  refine ⟨⟨rfl, Machine.room_withNatives clock, fun frame name value found => ?_⟩,
    fun id _ => Std.TreeMap.getElem?_emptyc, rfl⟩
  change (Machine.withNatives clock).store.bound? frame name = some value at found
  rw [Machine.bound?_withNatives] at found
  split at found
  · cases found
    trivial
  · cases found

theorem Session.Sound.runAs (sound : session.Sound) (bound : Nat) (manner : Manner)
    (source : String) : (session.runAs bound manner source).2.Sound := by
  cases verdict : session.verdict source with
  | ok distances =>
    have accepts := Session.accepts_of_verdict verdict
    rw [Session.runAs_eq, verdict]
    change Session.Sound ⟨(Session.start _ _ _ _ _).2, _⟩
    rw [Session.start_machine]
    obtain ⟨kept, stands⟩ := sound.start accepts
    have grows := grows_runProgram bound manner (session.read source).parsed.program
      (session.machine.addDistances distances)
    have ran := (ensures_runProgram (accepts.resolvedAll sound.below) accepts.older bound manner)
      _ kept stands
    refine ⟨?_, ?_, ?_⟩
    · rw [grows.distances]
      exact ran.1
    · rw [grows.distances]
      exact accepts.add_below sound.below
    · rw [grows.current, grows.globals]
      exact sound.outside
  | error faults =>
    rw [Session.runAs_eq, verdict]
    -- Only the next number moves on.
    have above := session.nextId_le_nextAfter source
    exact ⟨sound.machine.raise above, fun id beyond => sound.below id (Nat.le_trans above beyond),
      sound.outside⟩

theorem Session.Reachable.sound {clock : Nat → Float} (reachable : Session.Reachable clock session) :
    session.Sound := by
  induction reachable with
  | fresh => exact Session.sound_fresh clock
  | next bound manner source _ ih => exact ih.runAs bound manner source

/-- Throughout a run of an accepted source every reference with a distance is placed, and a name is
missed only at a reference without one. -/
theorem references_placed {clock : Nat → Float} (reachable : Session.Reachable clock session)
    (accepts : session.Accepts source program distances) (bound : Nat) (manner : Manner) :
    (∀ first moment,
      Begins bound manner program (session.machine.addDistances distances) first →
      Reaches first moment → moment.Placed) ∧
    ∀ name line,
      (session.runAs bound manner source).1 = .failed ⟨.undefinedVariable name, line⟩ →
      ∃ first moment,
        Begins bound manner program (session.machine.addDistances distances) first ∧
          Reaches first moment ∧ moment.Dangling name line := by
  have sound := reachable.sound
  obtain ⟨kept, stands⟩ := sound.start accepts
  have soundFirst {first : Moment}
      (begins : Begins bound manner program (session.machine.addDistances distances) first) :
      first.Sound (session.machine.distances ∪ distances) (session.nextAfter source) :=
    begins.sound kept stands (accepts.resolvedAll sound.below) accepts.older
  constructor
  · intro first moment begins reaches
    exact ((soundFirst begins).reaches reaches).placed
  · intro name line failed
    rw [Session.runAs_of_accepts accepts] at failed
    unfold Session.start at failed
    split at failed
    · cases failed
    · rename_i stop after stops
      cases stop with
      | unfinished => cases failed
      | fault fault =>
        cases failed
        -- A name is missed somewhere, and at a sound moment only a reference without a distance
        -- misses one.
        obtain ⟨first, begins, misses⟩ := runProgram_stops stops
        obtain ⟨moment, reaches, dangling⟩ := (soundFirst begins).dangling misses
        exact ⟨first, moment, begins, reaches, dangling⟩

/-- A variable that a closure reads and that is assigned from inside a call. -/
theorem references_placed_closure :
    ∃ program distances,
      (Session.fresh fun _ => 0).Accepts "{ var a; fun f() { return a; } a = f(); }" program
        distances ∧
      distances.toList = [(0, 1), (2, 0), (4, 0)] ∧
      ∀ bound first moment,
        Begins bound .script program
          ((Session.fresh fun _ => 0).machine.addDistances distances) first →
        Reaches first moment → moment.Placed := by
  have accepts : (Session.fresh fun _ => 0).Accepts "{ var a; fun f() { return a; } a = f(); }"
      [.block [.var ⟨"a", 1⟩ none,
        .function ⟨"f", 1⟩ [] [.return 1 (some (.variable ⟨0, 1⟩ "a"))],
        .expression (.assign ⟨4, 1⟩ "a" (.call ⟨3, 1⟩ (.variable ⟨2, 1⟩ "f") []))]]
      {(0, 1), (2, 0), (4, 0)} := ⟨by decide +kernel, by cbv, by cbv⟩
  refine ⟨_, _, accepts, by decide +kernel, fun bound first moment begins reaches => ?_⟩
  exact (references_placed .fresh accepts bound .script).1 first moment begins reaches

end Sessions
end LoxLang
