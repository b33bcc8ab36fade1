import LoxLang.Proofs.Evaluation.Globals
import LoxLang.Proofs.Sessions.Resolution
import LoxLang.Proofs.Sessions.Twins

/-!
The names that a source adds to the global frame: those of its outermost declarations that have been
run to their end, however the run itself ends, and no others.
-/
namespace LoxLang

section Running

variable {table : Distances} {limit bound : Nat} {manner : Manner} {program : Program}
  {machine : Machine}

theorem Begins.knows {first moment : Moment} (begins : Begins bound manner program machine first)
    (kept : machine.Sound table limit) (stands : machine.Stands [])
    (resolved : Stmt.ResolvedAll table [] program) (older : Older limit (Stmt.idsAll program))
    (reaches : Reaches first moment) (name : String) :
    moment.final.Knows name ↔
      moment.machine.Knows name ∨ moment = first ∧ moment.Introduces name := by
  have sound := begins.sound kept stands resolved older
  by_cases top : moment = first
  · subst top
    cases begins with
    | alone value => simpa [Moment.Introduces] using (sound.sameGlobals trivial).knows name
    | comesUp _ comesUp =>
      obtain ⟨before, _, rfl, ran⟩ := comesUp
      have grows := (grows_runAll (grows_execute bound) before).done ran
      have outside : machine.current = machine.globals := stands
      have here := knows_execute sound (by rw [grows.current, grows.globals, outside]) name
      simpa [Moment.final, Moment.machine] using here
  · -- whatever else is reached has been started by something sound
    rcases Relation.ReflTransGen.cases_tail reaches with same | ⟨middle, before, starts⟩
    · exact absurd same top
    · have own := (sound.reaches before).local_starts starts
      simpa [top] using ((sound.reaches reaches).sameGlobals own).knows name

/-- At the prompt a lone expression leaves the global frame as it is, also if its value is shown. -/
theorem sameGlobals_alone {value : Expr}
    (sound : Moment.Sound table limit (.evaluating bound none value machine)) :
    machine.SameGlobals (runProgram bound .prompt [.expression value] machine).machine := by
  have evaluated : machine.SameGlobals (executeAlone bound (.expression value) machine).machine :=
    Machine.SameGlobals.traceable.bind (sound.sameGlobals trivial) fun result after _ =>
      Machine.SameGlobals.traceable.refl after
  refine Machine.SameGlobals.traceable.bind evaluated fun result after _ => ?_
  split
  · exact Machine.SameGlobals.traceable.refl after
  · exact .of_store rfl rfl
  · exact Machine.SameGlobals.traceable.refl after

theorem knows_runProgram (kept : machine.Sound table limit) (stands : machine.Stands [])
    (resolved : Stmt.ResolvedAll table [] program) (older : Older limit (Stmt.idsAll program))
    (manner : Manner) (name : String) :
    (runProgram bound manner program machine).machine.Knows name ↔
      machine.Knows name ∨
        ∃ first, Begins bound manner program machine first ∧ first.Introduces name := by
  by_cases lone : ∃ value, manner = .prompt ∧ program = [.expression value]
  · obtain ⟨value, rfl, rfl⟩ := lone
    have own : Moment.Sound table limit (.evaluating bound none value machine) :=
      ⟨kept, [], stands, resolved.1⟩
    -- A lone expression declares nothing.
    have none : ¬∃ first, Begins bound .prompt [.expression value] machine first ∧
        first.Introduces name := by
      rintro ⟨first, begins, introduces⟩
      cases begins with
      | alone => exact introduces
      | comesUp several _ => exact several value rfl rfl
    simpa [none] using (sameGlobals_alone own).knows name
  · have several (value : Expr) (prompt : manner = .prompt) : program ≠ [.expression value] :=
      fun same => lone ⟨value, prompt, same⟩
    have all := knows_runAll bound kept stands resolved older name
    rw [runProgram_eq several, (executeProgram_eq bound program machine).2]
    refine all.trans (or_congr_right ⟨?_, ?_⟩)
    · rintro ⟨stmt, reached, comesUp, introduces⟩
      exact ⟨_, .comesUp several comesUp, introduces⟩
    · rintro ⟨first, begins, introduces⟩
      cases begins with
      | alone value => exact introduces.elim
      | comesUp _ comesUp => exact ⟨_, _, comesUp, introduces⟩

end Running

/-- However a run ends, it adds to the global frame the names of the outermost declarations of its source
that it has run to their end. None of the moments that it comes to adds a name, but these, and none
takes a name away. -/
theorem globals_declared {clock : Nat → Float} {session : Session}
    (reachable : Session.Reachable clock session) (bound : Nat) (manner : Manner) (source : String) :
    let after := (session.runAs bound manner source).2
    after.machine.globals = session.machine.globals ∧
    (∀ name, after.machine.Knows name ↔ session.machine.Knows name ∨
      ∃ program distances first, session.Accepts source program distances ∧
        Begins bound manner program (session.machine.addDistances distances) first ∧
        first.Introduces name) ∧
    ∀ program distances first moment, session.Accepts source program distances →
      Begins bound manner program (session.machine.addDistances distances) first →
      Reaches first moment → ∀ name, moment.final.Knows name ↔
        moment.machine.Knows name ∨ moment = first ∧ moment.Introduces name := by
  have sound := reachable.sound
  cases verdict : session.verdict source with
  | error faults =>
    -- A source that is turned down runs nothing, so nothing is declared and no moment is reached.
    have rejected : (session.runAs bound manner source).2.machine = session.machine := by
      rw [Session.runAs_eq, verdict]
    have never {program : Program} {distances : Distances} :
        ¬session.Accepts source program distances := by
      intro accepts
      rw [accepts.verdict] at verdict
      cases verdict
    simp [rejected, never]
  | ok distances =>
    have accepts := Session.accepts_of_verdict verdict
    obtain ⟨kept, stands⟩ := sound.start accepts
    have resolved := accepts.resolvedAll sound.below
    have ran : (session.runAs bound manner source).2.machine =
        (runProgram bound manner (session.read source).parsed.program
          (session.machine.addDistances distances)).machine := by
      rw [Session.runAs_of_accepts accepts]
      exact Session.start_machine bound manner _ distances session.machine
    dsimp only
    rw [ran]
    refine ⟨(grows_runProgram bound manner _ _).globals, fun name => ?_, ?_⟩
    · refine (knows_runProgram kept stands resolved accepts.older manner name).trans
        (or_congr_right ⟨?_, ?_⟩)
      · rintro ⟨first, begins, introduces⟩
        exact ⟨_, distances, first, accepts, begins, introduces⟩
      · rintro ⟨program, found, first, again, begins, introduces⟩
        -- There is only one way to accept the source.
        obtain ⟨rfl, rfl⟩ := accepts.unique again
        exact ⟨first, begins, introduces⟩
    · intro program found first moment again begins reaches name
      obtain ⟨rfl, rfl⟩ := accepts.unique again
      exact begins.knows kept stands resolved accepts.older reaches name

/-- A function, called with a parameter and a variable of its own, a block, and a declaration that
fails: only the function is there afterwards. -/
theorem globals_declared_function :
    let session := Session.fresh fun _ => 0
    let source := "fun f(x) { var y; } f(true); { var b; } var c = -true;"
    let after := (session.runAs 9 .script source).2
    (["f", "x", "y", "b", "c"].filter fun name =>
        (after.machine.store.bound? after.machine.globals name).isSome) = ["f"] ∧
      ∀ name, after.machine.Knows name ↔ session.machine.Knows name ∨
        ∃ program distances first, session.Accepts source program distances ∧
          Begins 9 .script program (session.machine.addDistances distances) first ∧
          first.Introduces name :=
  ⟨by decide +kernel, (globals_declared .fresh 9 .script _).2.1⟩

end LoxLang
