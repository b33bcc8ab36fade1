import Mathlib
import LoxLang.Proofs.Lexical.Loops
import LoxLang.Proofs.Lexical.Moments
import LoxLang.Proofs.Sessions.Twins
import LoxLang.Proofs.Sessions.Variants

/-!
A `for` loop does what is meant by it. Wherever a run of an accepted source comes to one, the frames go
together with a memory in which the loop can be run with one scope and without further blocks; both
runs end in the same way, and with them every frame that was there before holds the same.
-/
namespace LoxLang

namespace Lexical

variable {table : Distances} {limit : Nat} {world after : World}

/-- What a memory has for a name in a frame: something global, or what is in the location that stands
for the name. -/
def World.holds? (world : World) (memory : Memory) (frame : FrameId) (name : String) : Option Value :=
  if frame = world.machine.globals then memory.globals[name]?
  else (world.links.idxOf? (frame, name)).bind fun location => memory.cells[location]?.join

/-- The output is the same, and every frame that was there binds the same names to like values; beyond
that, what was made in the meantime goes together too. -/
structure LeftAlike (table : Distances) (limit : Nat) (world after : World) : Prop where
  output : after.machine.output = after.memory.output
  frames : ∀ frame < world.machine.store.next, ∀ name,
    Option.Rel (Like table limit after) (after.machine.store.bound? frame name)
      (world.holds? after.memory frame name)
  agrees : after.Agrees table limit

/-- Two runs from one world end with the same exit and leave the same. -/
inductive EndAlike (table : Distances) (limit : Nat) (world : World) :
    Step LoxLang.Flow → EStateM.Result Stop Memory Flow → Prop
  | next {after : World} {region : Region} : LeftAlike table limit world after →
    EndAlike table limit world (.done .next after.machine) (.ok (.next region) after.memory)
  | returned {after : World} {value : LoxLang.Value} {other : Value} :
    LeftAlike table limit world after → Like table limit after value other →
    EndAlike table limit world (.done (.returned value) after.machine)
      (.ok (.returned other) after.memory)
  | stopped {after : World} (stop : Stop) : LeftAlike table limit world after →
    EndAlike table limit world (.stopped stop after.machine) (.error stop after.memory)

theorem World.Extends.left (wider : world.Extends none after)
    (kept : after.Agrees table limit) : LeftAlike table limit world after := by
  refine ⟨kept.output, fun frame old name => ?_, kept⟩
  unfold World.holds?
  by_cases outermost : frame = world.machine.globals
  · rw [if_pos outermost, outermost, ← wider.machine.globals]
    exact kept.globals name
  · rw [if_neg outermost]
    cases found : world.links.idxOf? (frame, name) with
    | some location =>
      have linked : world.links[location]? = some (frame, name) := by
        obtain ⟨inside, same, _⟩ := List.findIdx?_eq_some_iff_getElem.mp found
        rw [List.getElem?_eq_getElem inside]
        simpa using same
      exact kept.cells location frame name (wider.link linked)
    | none =>
      -- a link that came later leads into a frame that came later
      have unbound : after.machine.store.bound? frame name = none := by
        by_contra bound
        have apart : frame ≠ after.machine.globals := wider.machine.globals ▸ outermost
        have member := kept.bound frame name apart (Option.isSome_iff_ne_none.mpr bound)
        rcases wider.fresh _ member with earlier | new | never
        · exact List.idxOf?_eq_none_iff.mp found earlier
        · exact absurd old (Nat.not_lt.mpr new)
        · cases never
      rw [unbound]
      exact .none

theorem EndAlike.of_matches {nesting : Nesting} {step : Step LoxLang.Flow}
    {result : EStateM.Result Stop Memory Flow}
    (matched : Matches table limit none world
      (fun flow other after => LikeFlow table limit after nesting flow other) step result) :
    EndAlike table limit world step result := by
  match step, result, matched with
  | .done flow machine, .ok other memory, ⟨links, wider, kept, like⟩ =>
    have left := wider.left kept
    cases like with
    | next stands => exact .next left
    | returned like => exact .returned left like
  | .stopped stop machine, .error _ memory, ⟨rfl, links, wider, kept⟩ =>
    exact .stopped stop (wider.left kept)

section Loops

variable {nesting : Nesting} {region : Region} {frame : FrameId} {stmt : Stmt} {loop : ForLoop}
  {site : Site}

theorem EndAlike.ends {step : Step LoxLang.Flow} {result : EStateM.Result Stop Memory Flow}
    (alike : EndAlike table limit world step result) :
    (∀ after, step ≠ .stopped .unfinished after) ↔ ∀ after, result ≠ .error .unfinished after := by
  cases alike with
  | next | returned => exact ⟨fun _ _ => nofun, fun _ _ => nofun⟩
  | @stopped after stop _ =>
    constructor
    · rintro ends _ ⟨⟩
      exact ends _ rfl
    · rintro ends _ ⟨⟩
      exact ends _ rfl

theorem endAlike_execute (agrees : world.Agrees table limit)
    (standing : StandsIn frame nesting region world) (plain : stmt.isDeclaration = false)
    (resolved : stmt.Resolved table nesting) (older : Older limit stmt.ids) (bound : Nat) :
    EndAlike table limit world (LoxLang.execute bound stmt world.machine)
      (execute bound region stmt world.memory) :=
  .of_matches
    (simulates_plain bound frame stmt nesting region plain resolved older world agrees standing)

theorem endAlike_for (agrees : world.Agrees table limit)
    (standing : StandsIn frame nesting region world) (plain : loop.body.isDeclaration = false)
    (resolved : (loop.statement site).Resolved table nesting)
    (older : Older limit (loop.statement site).ids) (bound : Nat) :
    ((∀ after, LoxLang.execute bound (loop.statement site) world.machine ≠
          .stopped .unfinished after) →
        EndAlike table limit world (LoxLang.execute bound (loop.statement site) world.machine)
          (executeFor bound region loop world.memory)) ∧
      ((∀ after, executeFor bound region loop world.memory ≠ .error .unfinished after) →
        EndAlike table limit world (LoxLang.execute (bound + 4) (loop.statement site) world.machine)
          (executeFor bound region loop world.memory)) := by
  have whole := endAlike_execute agrees standing (loop.statement_plain site) resolved older
  have regular := ForLoop.body_regular resolved
  obtain ⟨forth, back⟩ := settles_for site plain regular (Nat.le_refl bound) region
  constructor
  · intro ends
    rw [forth.eq ((whole bound).ends.mp ends)]
    exact whole bound
  · intro ends
    rw [← back.eq ends]
    exact whole (bound + 4)

theorem modelled_begins {bound : Nat} {manner : Manner} {program : Program} {machine : Machine}
    {first : Moment} (begins : Begins bound manner program machine first)
    (start : Modelled table limit machine (StandsIn frame [] .outermost))
    (resolved : Stmt.ResolvedAll table [] program) (older : Older limit (Stmt.idsAll program)) :
    ModelledAt table limit first := by
  cases begins with
  | alone value =>
    exact ⟨[], none, [], resolved.1, start.imp fun _ _ standing => standing.2.carries⟩
  | comesUp _ found => exact modelled_comesUp resolved older start found

end Loops

theorem Alike.modelled {links : Links} {session : LoxLang.Session} {model : Session}
    {source : String} {program : Program} {distances : Distances} (alike : Alike links session model)
    (accepts : session.Accepts source program distances) :
    Modelled (session.machine.distances ∪ distances) (session.nextAfter source)
      (session.machine.addDistances distances)
      (StandsIn session.machine.current [] .outermost) :=
  ⟨⟨links, session.machine.addDistances distances, model.memory⟩, rfl, alike.start accepts, rfl,
    .outermost alike.outside⟩

end Lexical

section Sessions

variable {clock : Nat → Float} {session : Session} {source : String} {program : Program}
  {distances : Distances}

/-- A `for` loop is what it is made into, for all clauses and bodies that can be read
(`Grammar.restOfFor_gives`). The condition and the increment refer to the variable of the initializer
or to what is further out; and whenever the loop is to be run, the frames go together with a memory in
which one scope does for the whole loop: if the statement comes to an end on the machine, the loop does
so there, and the other way round, with the same exit, the same output and like values under the names
of all frames that there were. -/
theorem for_loops_run_directly (reachable : Session.Reachable clock session)
    (accepts : session.Accepts source program distances) (loop : ForLoop) (site : Site)
    (plain : loop.body.isDeclaration = false) :
    (∀ stmt ∈ program, ∀ nesting, (loop.statement site).Places nesting [] stmt →
        loop.Bound distances nesting) ∧
      ∀ manner depth inner first machine,
        Begins depth manner program (session.machine.addDistances distances) first →
        Reaches first (.executing inner (loop.statement site) machine) →
        ∃ (world : Lexical.World) (nesting : Nesting) (region : Lexical.Region),
          world.machine = machine ∧
          world.Agrees machine.distances (session.nextAfter source) ∧
          Lexical.Stands world nesting region ∧ loop.Bound machine.distances nesting ∧
          ∀ bound,
            ((∀ after, execute bound (loop.statement site) machine ≠ .stopped .unfinished after) →
              Lexical.EndAlike machine.distances (session.nextAfter source) world
                (execute bound (loop.statement site) machine)
                (Lexical.executeFor bound region loop world.memory)) ∧
            ((∀ after, Lexical.executeFor bound region loop world.memory ≠
                .error .unfinished after) →
              Lexical.EndAlike machine.distances (session.nextAfter source) world
                (execute (bound + 4) (loop.statement site) machine)
                (Lexical.executeFor bound region loop world.memory)) := by
  constructor
  · intro stmt member nesting places
    have resolved : Stmt.ResolvedAll distances [] program :=
      resolve_resolved accepts.resolved accepts.regular accepts.numbered.1 fun _ _ => rfl
    obtain ⟨before, rest, rfl⟩ := List.append_of_mem member
    have placed := ((Stmt.resolvedAll_append before (stmt :: rest)).mp resolved).2.1
    rw [Nesting.afterAll_outermost] at placed
    exact ForLoop.bound_of_resolved plain (places.resolved placed)
  · intro manner depth inner first machine begins reaches
    obtain ⟨links, model, alike, _⟩ := Lexical.reachable_model reachable
    have start := Lexical.modelled_begins begins (alike.modelled accepts)
      (accepts.resolvedAll alike.below) accepts.older
    obtain ⟨nesting, region, frame, resolved, older, world, rfl, agrees, standing⟩ :=
      start.reaches reaches
    rw [← agrees.distances] at resolved agrees
    exact ⟨world, nesting, region, rfl, agrees, standing.2, ForLoop.bound_of_resolved plain resolved,
      Lexical.endAlike_for agrees standing plain resolved older⟩

/-- The clauses of `for (var i = a; i; i = nil) { var i; print i; }`. -/
def ForLoop.shadowed : ForLoop where
  initializer := some (.var ⟨"i", 1⟩ (some (.variable ⟨1, 1⟩ "a")))
  condition := some (.variable ⟨2, 1⟩ "i")
  increment := some (.assign ⟨5, 1⟩ "i" (.literal ⟨4, 1⟩ .nil))
  body := .block [.var ⟨"i", 1⟩ none, .print (.variable ⟨6, 1⟩ "i")]

/-- A body with a variable of the same name, which the increment does not assign to. -/
theorem for_loops_run_directly_shadowed :
    ∃ distances : Distances, (Session.fresh fun _ => 0).Accepts
        "{ var a = true; for (var i = a; i; i = nil) { var i; print i; } }"
        [.block [.var ⟨"a", 1⟩ (some (.literal ⟨0, 1⟩ (.boolean true))),
          ForLoop.shadowed.statement ⟨0, 0⟩]] distances ∧
      ForLoop.shadowed.Bound distances [["a"]] ∧
      ∃ (limit : Nat) (world : Lexical.World) (nesting : Nesting) (region : Lexical.Region),
        let step := execute 9 (ForLoop.shadowed.statement ⟨0, 0⟩) world.machine
        world.Agrees world.machine.distances limit ∧ Lexical.Stands world nesting region ∧
          Lexical.EndAlike world.machine.distances limit world step
            (Lexical.executeFor 9 region ForLoop.shadowed world.memory) ∧
          step.outcome = .finished ∧ step.machine.output = "nil\n" := by
  have accepts : (Session.fresh fun _ => 0).Accepts
      "{ var a = true; for (var i = a; i; i = nil) { var i; print i; } }"
      [.block [.var ⟨"a", 1⟩ (some (.literal ⟨0, 1⟩ (.boolean true))),
        ForLoop.shadowed.statement ⟨0, 0⟩]] {(5, 1), (6, 0), (2, 0), (1, 1)} :=
    ⟨by decide +kernel, by cbv, by cbv⟩
  have placed : (ForLoop.shadowed.statement ⟨0, 0⟩).Places [["a"]] []
      (.block ([.var ⟨"a", 1⟩ (some (.literal ⟨0, 1⟩ (.boolean true)))] ++
        ForLoop.shadowed.statement ⟨0, 0⟩ :: [])) := .block .here
  obtain ⟨bound, runs⟩ := for_loops_run_directly .fresh accepts ForLoop.shadowed ⟨0, 0⟩ rfl
  refine ⟨_, accepts, bound _ (List.mem_singleton_self _) _ placed, ?_⟩
  obtain ⟨world, nesting, region, same, agrees, stands, _, ends⟩ :=
    runs .script 9 8 _ _ (.comesUp (by simp) ⟨[], [], rfl, rfl⟩) (.single (.block rfl
      ⟨[.var ⟨"a", 1⟩ (some (.literal ⟨0, 1⟩ (.boolean true)))], [], rfl, rfl⟩))
  have finished : (execute 9 (ForLoop.shadowed.statement ⟨0, 0⟩) world.machine).outcome =
      .finished := by
    rw [same]
    decide +kernel
  have printed : (execute 9 (ForLoop.shadowed.statement ⟨0, 0⟩) world.machine).machine.output =
      "nil\n" := by
    rw [same]
    decide +kernel
  have alike := (ends 9).1
  rw [← same] at agrees alike
  refine ⟨_, world, nesting, region, agrees, stands, alike fun after spent => ?_, finished, printed⟩
  rw [spent] at finished
  cases finished

end Sessions
end LoxLang
