import LoxLang.Proofs.Sessions.Histories
import LoxLang.Proofs.Lexical.Refinement

/-!
Whole sessions side by side. Between two sources machine and memory agree, so each source finds what
the earlier ones have left, does the same on both sides and leaves them agreeing again, whether it
ends or not.
-/
namespace LoxLang.Lexical

def Session.submit (session : Session) : List Submission → List Outcome × Session
  | [] => ([], session)
  | first :: rest =>
    let (outcome, after) := session.runAs first.bound first.manner first.source
    let (outcomes, last) := after.submit rest
    (outcome :: outcomes, last)

def Session.Ends (session : Session) (manner : Manner) (source : String) (outcome : Outcome)
    (output : String) : Prop :=
  outcome ≠ .unfinished ∧ ∃ bound after,
    session.runAs bound manner source = (outcome, after) ∧ after.output = output

structure Alike (links : Links) (session : LoxLang.Session) (model : Session) : Prop where
  nextId : session.nextId = model.nextId
  agrees : World.Agrees session.machine.distances session.nextId
    ⟨links, session.machine, model.memory⟩
  below : session.machine.distances.Below session.nextId
  outside : session.machine.current = session.machine.globals

theorem alike_fresh (clock : Nat → Float) : Alike [] (.fresh clock) (Session.fresh clock) := by
  refine ⟨rfl, ⟨rfl, Machine.room_withNatives clock, Machine.parent?_withNatives clock, rfl,
    List.nodup_nil, nofun, ?_, nofun, ?_, rfl, rfl, rfl, rfl⟩,
    fun _ _ => Std.TreeMap.getElem?_emptyc, rfl⟩
  · intro frame name apart bound
    change ((Machine.withNatives clock).store.bound? frame name).isSome at bound
    rw [Machine.bound?_withNatives, if_neg fun here => apart here.1.symm] at bound
    cases bound
  · intro name
    change Option.Rel _ ((Machine.withNatives clock).store.bound? 0 name)
      (Std.TreeMap.insert ∅ "clock" (ValueOver.callable 0 (.native ⟨"clock", 0, .clock⟩)))[name]?
    rw [Machine.bound?_withNatives, Std.TreeMap.getElem?_insert, Std.TreeMap.getElem?_emptyc]
    by_cases same : "clock" = name
    · rw [if_pos ⟨rfl, same⟩, if_pos (by simpa using same)]
      exact .some (.callable 0 (.native _))
    · rw [if_neg fun here => same here.2, if_neg (by simpa using same)]
      exact .none

section Running

variable {links : Links} {session : LoxLang.Session} {model : Session} {source : String}
  {program : Program} {distances : Distances}

theorem Session.runAs_eq (same : session.nextId = model.nextId) (bound : Nat) (manner : Manner)
    (source : String) :
    model.runAs bound manner source =
      match session.verdict source with
      | .error faults => (.rejected faults, { model with nextId := session.nextAfter source })
      | .ok _ =>
        let ran := start bound manner (session.read source).parsed.program model.memory
        (ran.1, ⟨ran.2, session.nextAfter source⟩) := by
  have read : ReadSource.ofText model.nextId source = session.read source :=
    congrArg (ReadSource.ofText · source) same.symm
  unfold runAs
  rw [read]
  by_cases clean : (session.read source).faults.isEmpty
  · have verdict : session.verdict source = resolve (session.read source).parsed.program :=
      if_pos clean
    rw [verdict]
    refine (if_pos clean).trans ?_
    cases resolve (session.read source).parsed.program <;> rfl
  · have verdict : session.verdict source = .error (session.read source).faults := if_neg clean
    rw [verdict]
    exact if_neg clean

theorem Alike.start (alike : Alike links session model)
    (accepts : session.Accepts source program distances) :
    World.Agrees (session.machine.distances ∪ distances) (session.nextAfter source)
      ⟨links, session.machine.addDistances distances, model.memory⟩ := by
  refine alike.agrees.of_same (fun like => like.imp (fun carries => carries)
    fun resolved older => ⟨?_, ?_⟩) rfl ⟨rfl, rfl, rfl, rfl, rfl⟩
    ⟨alike.agrees.output, alike.agrees.callables, alike.agrees.clock, alike.agrees.readings⟩
  · exact resolved.agree fun id member => accepts.add_old (older id member)
  · exact fun id member =>
      Nat.lt_of_lt_of_le (older id member) (session.nextId_le_nextAfter source)

/-- What a run leaves, together with the next number, goes together again. -/
theorem Alike.ran (alike : Alike links session model)
    (accepts : session.Accepts source program distances) {more : Links} {machine : Machine}
    {memory : Memory} (grows : (session.machine.addDistances distances).Grows machine)
    (agrees : World.Agrees (session.machine.distances ∪ distances) (session.nextAfter source)
      ⟨more, machine, memory⟩) :
    Alike more ⟨machine, session.nextAfter source⟩ ⟨memory, session.nextAfter source⟩ := by
  have table : machine.distances = session.machine.distances ∪ distances := agrees.distances
  refine ⟨rfl, table ▸ agrees, table ▸ accepts.add_below alike.below, ?_⟩
  rw [grows.current, grows.globals]
  exact alike.outside

theorem Alike.runAs (alike : Alike links session model) (bound : Nat) (manner : Manner)
    (source : String) :
    (session.runAs bound manner source).1 = (model.runAs bound manner source).1 ∧
      ∃ more, Alike more (session.runAs bound manner source).2
        (model.runAs bound manner source).2 := by
  rw [LoxLang.Session.runAs_eq, Session.runAs_eq alike.nextId]
  cases verdict : session.verdict source with
  | ok distances =>
    have accepts := LoxLang.Session.accepts_of_verdict verdict
    -- Both run the same program from states that go together, so they end alike; the other two
    -- pairs of ends are impossible.
    have matched := simulates_runProgram bound manner (accepts.resolvedAll alike.below)
      accepts.older session.machine.current _ (alike.start accepts)
      ⟨rfl, .outermost alike.outside⟩
    have grows := grows_runProgram bound manner (session.read source).parsed.program
      (session.machine.addDistances distances)
    simp only [LoxLang.Session.start, Session.start]
    cases ran : LoxLang.runProgram bound manner (session.read source).parsed.program
        (session.machine.addDistances distances) with
    | done _ machine =>
      rw [ran] at grows matched
      cases modelRan : runProgram bound manner (session.read source).parsed.program
          model.memory with
      | ok _ memory =>
        rw [modelRan] at matched
        obtain ⟨more, _, agrees, _⟩ := matched
        exact ⟨rfl, more, alike.ran accepts grows agrees⟩
      | error _ memory =>
        rw [modelRan] at matched
        exact False.elim matched
    | stopped stop machine =>
      rw [ran] at grows matched
      cases modelRan : runProgram bound manner (session.read source).parsed.program
          model.memory with
      | ok _ memory =>
        rw [modelRan] at matched
        exact False.elim matched
      | error _ memory =>
        rw [modelRan] at matched
        obtain ⟨rfl, more, _, agrees⟩ := matched
        exact ⟨rfl, more, alike.ran accepts grows agrees⟩
  | error faults =>
    -- A source that is turned down uses up numbers and changes nothing else.
    have above := session.nextId_le_nextAfter source
    refine ⟨rfl, links, rfl, ?_, fun id beyond => alike.below id (Nat.le_trans above beyond),
      alike.outside⟩
    exact alike.agrees.of_same (fun like => like.imp (fun carries => carries)
      fun resolved older => ⟨resolved, fun id member =>
        Nat.lt_of_lt_of_le (older id member) above⟩) alike.agrees.distances
      ⟨rfl, rfl, rfl, rfl, rfl⟩
      ⟨alike.agrees.output, alike.agrees.callables, alike.agrees.clock, alike.agrees.readings⟩

theorem Alike.submit (alike : Alike links session model) (history : List Submission) :
    (session.submit history).1 = (model.submit history).1 ∧
      ∃ more, Alike more (session.submit history).2 (model.submit history).2 := by
  induction history generalizing links session model with
  | nil => exact ⟨rfl, links, alike⟩
  | cons first rest ih =>
    obtain ⟨outcome, more, further⟩ := alike.runAs first.bound first.manner first.source
    obtain ⟨outcomes, last⟩ := ih further
    exact ⟨congrArg₂ List.cons outcome outcomes, last⟩

end Running

/-- Frames and distances do what persistent environments do: over any history the outcomes and the
output are the same, and the next source ends in one if and only if it ends in the other, with the
same outcome and the same output. -/
theorem static_scoping (clock : Nat → Float) (history : List Submission) :
    ((LoxLang.Session.fresh clock).submit history).1 =
        ((Session.fresh clock).submit history).1 ∧
      ((LoxLang.Session.fresh clock).submit history).2.output =
        ((Session.fresh clock).submit history).2.output ∧
      ∀ manner source outcome output,
        ((LoxLang.Session.fresh clock).submit history).2.Ends manner source outcome output ↔
          ((Session.fresh clock).submit history).2.Ends manner source outcome output := by
  obtain ⟨outcomes, links, alike⟩ := (alike_fresh clock).submit history
  refine ⟨outcomes, alike.agrees.output, fun manner source outcome output => ?_⟩
  constructor
  · rintro ⟨ended, bound, after, ran, printed⟩
    obtain ⟨same, more, further⟩ := alike.runAs bound manner source
    rw [ran] at same further
    exact ⟨ended, bound, _, Prod.ext same.symm rfl, further.agrees.output.symm.trans printed⟩
  · rintro ⟨ended, bound, after, ran, printed⟩
    obtain ⟨same, more, further⟩ := alike.runAs bound manner source
    rw [ran] at same further
    exact ⟨ended, bound, _, Prod.ext same rfl, further.agrees.output.trans printed⟩

end LoxLang.Lexical
