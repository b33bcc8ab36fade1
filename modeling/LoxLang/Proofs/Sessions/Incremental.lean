import LoxLang.Proofs.Evaluation.Returns
import LoxLang.Proofs.Sessions.Faults

/-!
Running two sources one after the other, or as one with a line break between them. The first part of
the joined source does what the first source does; if that is stopped, nothing else happens, and
otherwise the second part does what the second source does, on twins of the same machine.
-/
namespace LoxLang

section Parts

variable {run : Stmt → Exec Flow} {front back : List Stmt} {machine middle : Machine}

theorem runAll_append (front back : List Stmt) :
    runAll run (front ++ back) = runAll run front >>= fun flow =>
      match flow with
      | .next => runAll run back
      | .returned value => pure (.returned value) := by
  induction front with
  | nil => rfl
  | cons first rest ih =>
    funext machine
    rw [List.cons_append, runAll, runAll, Exec.bind_apply, Exec.bind_apply, Exec.bind_apply]
    cases run first machine with
    | stopped stop after => rfl
    | done flow after =>
      cases flow with
      | next => exact congrFun ih after
      | returned value => rfl

theorem ComesUp.ahead {stmt : Stmt} {reached : Machine}
    (comesUp : ComesUp run (front ++ back) machine stmt reached)
    (never : ∀ after, runAll run front machine ≠ .done .next after) :
    ComesUp run front machine stmt reached := by
  obtain ⟨before, rest, split, ran⟩ := comesUp
  -- what comes up stands in the first part, or all of the first part has been run
  rcases List.append_eq_append_iff.mp split.symm with ⟨more, rfl, later⟩ | ⟨more, rfl, _⟩
  · cases more with
    | nil =>
      rw [List.append_nil] at never
      exact absurd ran (never reached)
    | cons other more =>
      cases later
      exact ⟨before, more, rfl, ran⟩
  · rw [runAll_append] at ran
    obtain ⟨flow, after, done, returns⟩ := Exec.bind_eq_done.mp ran
    cases flow with
    | next => exact absurd done (never after)
    | returned value => cases returns

theorem ComesUp.behind {stmt : Stmt} {reached : Machine}
    (comesUp : ComesUp run back middle stmt reached)
    (ran : runAll run front machine = .done .next middle) :
    ComesUp run (front ++ back) machine stmt reached := by
  obtain ⟨before, rest, rfl, ready⟩ := comesUp
  refine ⟨front ++ before, rest, by rw [List.append_assoc], ?_⟩
  rw [runAll_append]
  exact Exec.bind_eq_done.mpr ⟨.next, middle, ran, ready⟩

end Parts

/-- A source with a line break in it, as it is read in one go and as its two parts are read one after
the other. -/
structure Session.Joined (session : Session) (first last : String) where
  ahead : Program
  later : Program
  front : Program
  back : Program
  aheadDistances : Distances
  laterDistances : Distances
  distances : Distances
  acceptsAhead : session.Accepts first ahead aheadDistances
  acceptsLater : Session.Accepts ⟨session.machine, session.nextAfter first⟩ last later laterDistances
  acceptsWhole : session.Accepts (first ++ "\n" ++ last) (front ++ back) distances
  frontAlike : Stmt.eraseAll front = Stmt.eraseAll ahead
  backAlike : Stmt.eraseAll back = Stmt.eraseAll (Stmt.downAll (linesBefore first) later)

theorem Session.run_of_accepts {session : Session} {source : String} {program : Program}
    {distances : Distances} (accepts : session.Accepts source program distances) (bound : Nat) :
    session.run bound source =
      ((runAll (execute bound) program (session.machine.addDistances distances)).outcome,
        ⟨(runAll (execute bound) program (session.machine.addDistances distances)).machine,
          session.nextAfter source⟩) := by
  have script : runProgram bound .script program = executeProgram bound program := by
    apply runProgram_eq
    exact fun value => nofun
  obtain ⟨outcome, machine⟩ :=
    executeProgram_eq bound program (session.machine.addDistances distances)
  rw [run, runAs_of_accepts accepts, start_eq, script, outcome, machine]

namespace Session.Joined

variable {session : Session} {first last : String}

/-- The code of the second source stands further down when the two are read as one. -/
def shift (parts : session.Joined first last) (id : Nat) : Nat :=
  if id ∈ Stmt.idsAll parts.later then linesBefore first else 0

/-- The machine that the first part runs on, on both sides. -/
def pairing (parts : session.Joined first last) : Pairing :=
  ⟨Aligned (session.nextAfter first) (session.nextAfter (first ++ "\n" ++ last)) fun _ => 0,
    session.machine.distances ∪ parts.aheadDistances, session.machine.distances ∪ parts.distances⟩

def laterPairing (parts : session.Joined first last) : Pairing :=
  ⟨Aligned (Session.nextAfter ⟨session.machine, session.nextAfter first⟩ last)
      (session.nextAfter (first ++ "\n" ++ last)) parts.shift,
    session.machine.distances ∪ parts.aheadDistances ∪ parts.laterDistances,
    session.machine.distances ∪ parts.distances⟩

variable (parts : session.Joined first last)

theorem older : Older (session.nextAfter (first ++ "\n" ++ last))
    (Stmt.idsAll parts.front ++ Stmt.idsAll parts.back) :=
  Stmt.idsAll_append parts.front parts.back ▸ parts.acceptsWhole.older

theorem starts (sound : session.Sound) :
    (session.machine.addDistances parts.aheadDistances).Twin parts.pairing
      (session.machine.addDistances parts.distances) := by
  refine sound.machine.twin.widen (Aligned.within ?_ (fun _ => parts.acceptsAhead.add_old)
    fun _ => parts.acceptsWhole.add_old)
  rintro site twin ⟨old, otherOld, level⟩
  exact ⟨Nat.lt_of_lt_of_le old (session.nextId_le_nextAfter first),
    Nat.lt_of_lt_of_le otherOld (session.nextId_le_nextAfter _), level⟩

theorem frontTwins (sound : session.Sound) :
    List.Forall₂ (Stmt.Twin parts.pairing) parts.ahead parts.front := by
  have resolved := (Stmt.resolvedAll_append parts.front parts.back).mp
    (parts.acceptsWhole.resolvedAll sound.below)
  exact Stmt.twins_of_resolved
    (parts.frontAlike.trans (congrArg _ (Stmt.downAll_zero parts.ahead)).symm)
    (.of_older parts.acceptsAhead.older parts.older.left fun _ _ => rfl)
    (parts.acceptsAhead.resolvedAll sound.below) resolved.1

theorem continues {middle other : Machine} (machines : middle.Twin parts.pairing other) :
    (middle.addDistances parts.laterDistances).Twin parts.laterPairing other := by
  have known := parts.acceptsLater.numbered.2
  have within : parts.pairing.Within parts.laterPairing := by
    refine Aligned.within ?_ (fun _ => parts.acceptsLater.add_old) fun _ _ => rfl
    rintro site twin ⟨old, otherOld, level⟩
    -- numbers of the second source are given out later
    have ahead : site.id ∉ Stmt.idsAll parts.later := fun member =>
      absurd old (Nat.not_lt.mpr (known site.id member).1)
    refine ⟨Nat.lt_of_lt_of_le old
      (nextId_le_nextAfter ⟨session.machine, session.nextAfter first⟩ last), otherOld, ?_⟩
    rw [shift, if_neg ahead]
    exact level
  rw [Machine.addDistances, machines.table]
  exact { machines.widen within with otherTable := machines.otherTable }

theorem backTwins (sound : session.Sound) :
    List.Forall₂ (Stmt.Twin parts.laterPairing) parts.later parts.back := by
  have resolved := (Stmt.resolvedAll_append parts.front parts.back).mp
    (parts.acceptsWhole.resolvedAll sound.below)
  rw [Nesting.afterAll_outermost] at resolved
  exact Stmt.twins_of_resolved parts.backAlike
    (.of_older parts.acceptsLater.older parts.older.right fun _ member => if_pos member)
    (parts.acceptsLater.resolvedAll (parts.acceptsAhead.add_below sound.below)) resolved.2

/-- If the first source is stopped, the joined one is stopped in the same way, and nothing comes up in
it but what is its own. -/
theorem stopped (sound : session.Sound) (bound : Nat)
    (short : (session.run bound first).1 ≠ .finished) :
    (session.run bound (first ++ "\n" ++ last)).1 = (session.run bound first).1 ∧
      (session.run bound first).2.machine.Alike (fun _ => 0)
        (session.run bound (first ++ "\n" ++ last)).2.machine ∧
      ∀ moment, Begins bound .script (parts.front ++ parts.back)
          (session.machine.addDistances parts.distances) moment →
        Begins bound .script parts.front (session.machine.addDistances parts.distances) moment := by
  rw [run_of_accepts parts.acceptsAhead] at short ⊢
  rw [run_of_accepts parts.acceptsWhole]
  have runs := twin_runAll (twin_execute parts.pairing bound) (parts.frontTwins sound)
  cases ran : runAll (execute bound) parts.ahead
      (session.machine.addDistances parts.aheadDistances) with
  | done flow after =>
    rw [ran] at short
    exact absurd rfl short
  | stopped stop after =>
    obtain ⟨other, final, stops, same, machines⟩ := runs.stops (parts.starts sound) ran
    -- The joined source is stopped in its first part as well, so nothing of the second comes up.
    have never (machine : Machine) : runAll (execute bound) parts.front
        (session.machine.addDistances parts.distances) ≠ .done .next machine := by
      rw [stops]
      exact nofun
    have whole : runAll (execute bound) (parts.front ++ parts.back)
        (session.machine.addDistances parts.distances) = .stopped other final := by
      refine (congrFun (runAll_append _ _) _).trans ?_
      exact Exec.bind_eq_stopped.mpr (.inl stops)
    rw [whole]
    refine ⟨same.outcome.eq fun _ _ node => node.2.2, machines.alike, fun moment begins => ?_⟩
    cases begins with
    | comesUp _ comesUp => exact .comesUp (fun _ script => nomatch script) (comesUp.ahead never)

/-- If the first source finishes, the joined one goes on where the second source would begin. -/
theorem finished (sound : session.Sound) (bound : Nat)
    (done : (session.run bound first).1 = .finished) :
    ∃ middle, (session.run bound first).2.machine.Twin parts.pairing middle ∧
      runAll (execute bound) parts.front (session.machine.addDistances parts.distances) =
        .done .next middle := by
  rw [run_of_accepts parts.acceptsAhead] at done ⊢
  have runs := twin_runAll (twin_execute parts.pairing bound) (parts.frontTwins sound)
  cases ran : runAll (execute bound) parts.ahead
      (session.machine.addDistances parts.aheadDistances) with
  | done flow after =>
    obtain ⟨other, middle, ended, flows, machines⟩ := runs.ends (parts.starts sound) ran
    -- what is accepted does not return, so it has come to its end
    have stays := stays_runAll (fun _ => stays_execute bound)
      (resolve_stays parts.acceptsAhead.resolved)
    cases flows with
    | next => exact ⟨middle, machines, ended⟩
    | returned values => exact absurd ran (stays _ _ _)
  | stopped stop after =>
    rw [ran] at done
    cases stop <;> cases done

theorem accepts_later (bound : Nat) :
    (session.run bound first).2.Accepts last parts.later parts.laterDistances := by
  rw [run_of_accepts parts.acceptsAhead]
  exact parts.acceptsLater.withMachine _

section After

variable {bound : Nat} {middle : Machine}

theorem whole_eq
    (ran : runAll (execute bound) parts.front (session.machine.addDistances parts.distances) =
      .done .next middle) :
    runAll (execute bound) (parts.front ++ parts.back)
      (session.machine.addDistances parts.distances) = runAll (execute bound) parts.back middle := by
  refine (congrFun (runAll_append _ _) _).trans ?_
  rw [Exec.bind_apply, ran]

/-- The second part runs like the second source. -/
theorem resembles (sound : session.Sound)
    (machines : (session.run bound first).2.machine.Twin parts.pairing middle)
    (ran : runAll (execute bound) parts.front (session.machine.addDistances parts.distances) =
      .done .next middle) :
    ((session.run bound first).2.run bound last).1.Twin parts.laterPairing
        (session.run bound (first ++ "\n" ++ last)).1 ∧
      ((session.run bound first).2.run bound last).2.machine.Twin parts.laterPairing
        (session.run bound (first ++ "\n" ++ last)).2.machine := by
  have runs := twin_runAll (twin_execute parts.laterPairing bound) (parts.backTwins sound)
  rw [run_of_accepts (parts.accepts_later bound), run_of_accepts parts.acceptsWhole,
    parts.whole_eq ran]
  exact (runs _ _ (parts.continues machines)).outcome

theorem blames (sound : session.Sound)
    (machines : (session.run bound first).2.machine.Twin parts.pairing middle)
    (ran : runAll (execute bound) parts.front (session.machine.addDistances parts.distances) =
      .done .next middle) {site : Site} {cause : RuntimeCause}
    (blamed : Blamed bound .script parts.later
      ((session.run bound first).2.machine.addDistances parts.laterDistances) site cause) :
    (session.run bound (first ++ "\n" ++ last)).1 =
      .failed ⟨cause, site.line + parts.shift site.id⟩ := by
  obtain ⟨otherSite, node, start, moment, begins, reaches, raises⟩ :=
    blamed.twin (parts.backTwins sound) (parts.continues machines)
  have wholeBegins : Begins bound .script (parts.front ++ parts.back)
      (session.machine.addDistances parts.distances) start := by
    cases begins with
    | comesUp _ comesUp => exact .comesUp (fun _ => nofun) (comesUp.behind ran)
  rw [← node.2.2]
  exact (Session.failed_iff parts.acceptsWhole).mpr
    ⟨otherSite, cause, ⟨start, moment, wholeBegins, reaches, raises⟩, rfl⟩

end After
end Session.Joined

theorem Session.Accepts.parts {session : Session} {first last : String}
    {firstProgram lastProgram : Program} {firstDistances lastDistances : Distances}
    (firstAccepts : session.Accepts first firstProgram firstDistances)
    (lastAccepts : session.Accepts last lastProgram lastDistances) :
    ∃ parts : session.Joined first last, parts.ahead = firstProgram ∧
      Stmt.eraseAll parts.later = Stmt.eraseAll lastProgram := by
  obtain ⟨later, laterDistances, laterAccepts, alike⟩ :=
    lastAccepts.elsewhere ⟨session.machine, session.nextAfter first⟩
  obtain ⟨front, back, distances, accepts, frontAlike, backAlike⟩ :=
    firstAccepts.joined laterAccepts
  exact ⟨⟨firstProgram, later, front, back, firstDistances, laterDistances, distances, firstAccepts,
    laterAccepts, accepts, frontAlike, backAlike⟩, rfl, alike⟩

/-- Two accepted sources with a line break between them are accepted as one, and run as one after the
other: a fault of the first ends the run, and otherwise all is as the second leaves it, but that a
fault raised by its own code has its line counted from the beginning of the whole. -/
theorem incremental_batch {clock : Nat → Float} {session : Session}
    (reachable : Session.Reachable clock session) {first last : String}
    {firstProgram lastProgram : Program} {firstDistances lastDistances : Distances}
    (firstAccepts : session.Accepts first firstProgram firstDistances)
    (lastAccepts : session.Accepts last lastProgram lastDistances) :
    ∃ parts : session.Joined first last, parts.ahead = firstProgram ∧
      Stmt.eraseAll parts.later = Stmt.eraseAll lastProgram ∧
      session.Accepts (first ++ "\n" ++ last) (parts.front ++ parts.back) parts.distances ∧
      ∀ bound,
        let ran := session.run bound first
        let next := ran.2.run bound last
        let joined := session.run bound (first ++ "\n" ++ last)
        (ran.1 ≠ .finished → joined.1 = ran.1 ∧
          ran.2.machine.Alike (fun _ => 0) joined.2.machine ∧
          ∀ moment, Begins bound .script (parts.front ++ parts.back)
              (session.machine.addDistances parts.distances) moment →
            Begins bound .script parts.front (session.machine.addDistances parts.distances)
              moment) ∧
        (ran.1 = .finished →
          next.2.machine.Alike parts.shift joined.2.machine ∧
          (next.1.isFailed = false → joined.1 = next.1) ∧
          (∀ fault, next.1 = .failed fault → ∃ site cause, fault = ⟨cause, site.line⟩ ∧
            Blamed bound .script parts.later
              (ran.2.machine.addDistances parts.laterDistances) site cause) ∧
          ∀ site cause, Blamed bound .script parts.later
              (ran.2.machine.addDistances parts.laterDistances) site cause →
            joined.1 = .failed ⟨cause, site.line + parts.shift site.id⟩) := by
  have sound := reachable.sound
  obtain ⟨parts, same, alike⟩ := firstAccepts.parts lastAccepts
  refine ⟨parts, same, alike, parts.acceptsWhole, fun bound => ⟨parts.stopped sound bound, ?_⟩⟩
  -- Through its first part the joined source does what the first source did; the rest resembles the
  -- second one.
  intro done
  obtain ⟨middle, machines, ended⟩ := parts.finished sound bound done
  obtain ⟨outcomes, after⟩ := parts.resembles sound machines ended
  refine ⟨after.alike, outcomes.eq_of_quiet, ?_, fun site cause => parts.blames sound machines ended⟩
  intro fault failed
  obtain ⟨site, cause, blamed, same⟩ := (Session.failed_iff (parts.accepts_later bound)).mp failed
  exact ⟨site, cause, same, blamed⟩

/-- A call on the second line of the second source is one on the third line of the whole. -/
theorem incremental_batch_call :
    let session := Session.fresh fun _ => 0
    let first := "var a;"
    let last := "\na();"
    (∃ parts : session.Joined first last, session.Accepts (first ++ "\n" ++ last)
      (parts.front ++ parts.back) parts.distances) ∧
    (session.run 9 first).1 = .finished ∧
    ((session.run 9 first).2.run 9 last).1 = .failed ⟨.notCallable, 2⟩ ∧
    (session.run 9 (first ++ "\n" ++ last)).1 = .failed ⟨.notCallable, 3⟩ := by
  intro session first last
  have firstAccepts : session.Accepts first [.var ⟨"a", 1⟩ none] ∅ :=
    ⟨by decide +kernel, by cbv, by cbv⟩
  have lastAccepts : session.Accepts last
      [.expression (.call ⟨1, 2⟩ (.variable ⟨0, 2⟩ "a") [])] ∅ :=
    ⟨by decide +kernel, by cbv, by cbv⟩
  obtain ⟨parts, _, _, accepts, _⟩ := incremental_batch .fresh firstAccepts lastAccepts
  exact ⟨⟨parts, accepts⟩, by decide +kernel, by decide +kernel, by decide +kernel⟩

end LoxLang
