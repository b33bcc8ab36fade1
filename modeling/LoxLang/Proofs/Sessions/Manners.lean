import LoxLang.Proofs.Evaluation.Returns
import LoxLang.Proofs.Sessions.Histories
import LoxLang.Proofs.Sessions.Twins

/-!
A source as a whole and a source typed at a prompt. What the prompt shows comes behind everything that
the source does, and the statements of an accepted program may as well be run one at a time.
-/
namespace LoxLang

def executeSingly (bound : Nat) : List Stmt → Exec Unit
  | [] => pure ()
  | first :: rest => do
    let _ ← executeAlone bound first
    executeSingly bound rest

section Statements

variable {bound larger : Nat} {program : Program}

theorem Exec.bind_assoc {α β γ : Type} (first : Exec α) (next : α → Exec β) (last : β → Exec γ) :
    ((first >>= next) >>= last) = (first >>= fun value => next value >>= last) := by
  funext machine
  rw [bind_apply, bind_apply, bind_apply]
  cases first machine with
  | done value after => rfl
  | stopped stop after => rfl

/-- A statement by itself is the statement, with a bound that differs by one at most: what follows an
expression statement does not see its value. -/
theorem executeAlone_then {α : Type} (bound : Nat) (stmt : Stmt) (next : Exec α) :
    ∃ further, bound ≤ further ∧ further ≤ bound + 1 ∧
      (executeAlone bound stmt >>= fun _ => next) = (execute further stmt >>= fun _ => next) := by
  by_cases expression : ∃ value, stmt = .expression value
  · obtain ⟨value, rfl⟩ := expression
    have alone := Exec.bind_assoc (evaluate bound value) (fun result => pure (some result))
      fun _ => next
    have within := Exec.bind_assoc (evaluate bound value) (fun _ => pure Flow.next) fun _ => next
    exact ⟨bound + 1, by omega, by omega, alone.trans within.symm⟩
  · have other : executeAlone bound stmt =
        Exec.bind (execute bound stmt) fun _ => pure none := by
      cases stmt with
      | expression value => exact absurd ⟨value, rfl⟩ expression
      | _ => rfl
    rw [other]
    exact ⟨bound, by omega, by omega, Exec.bind_assoc (execute bound stmt) _ _⟩

theorem Exec.Stays.bind_eq {α : Type} {exec : Exec Flow} (stays : exec.Stays)
    (next : Flow → Exec α) : (exec >>= next) = (exec >>= fun _ => next .next) := by
  funext machine
  rw [bind_apply, bind_apply]
  cases ran : exec machine with
  | stopped stop after => rfl
  | done flow after =>
    cases flow with
    | next => rfl
    | returned value => exact absurd ran (stays machine value after)

theorem executeProgram_cons (bound : Nat) {first : Stmt} (stays : first.Stays) (rest : List Stmt) :
    executeProgram bound (first :: rest) =
      (execute bound first >>= fun _ => executeProgram bound rest) :=
  (Exec.bind_assoc (execute bound first) _ _).trans ((stays_execute bound stays).bind_eq _)

theorem settles_singly (order : bound + 1 ≤ larger) (stays : Stmt.StaysAll program) :
    (executeSingly bound program).Settles (executeProgram larger program) := by
  induction program with
  | nil => exact .refl _
  | cons first rest ih =>
    obtain ⟨further, _, below, same⟩ := executeAlone_then bound first (executeSingly bound rest)
    have ahead := (settles_evaluate_execute (Nat.le_trans below order)).2 first
    rw [executeSingly, same, executeProgram_cons larger stays.1]
    exact ahead.bind fun _ => ih stays.2

theorem singly_settles (order : bound ≤ larger) (stays : Stmt.StaysAll program) :
    (executeProgram bound program).Settles (executeSingly larger program) := by
  induction program with
  | nil => exact .refl _
  | cons first rest ih =>
    obtain ⟨further, above, _, same⟩ := executeAlone_then larger first (executeSingly larger rest)
    have ahead := (settles_evaluate_execute (Nat.le_trans order above)).2 first
    rw [executeSingly, same, executeProgram_cons bound stays.1]
    exact ahead.bind fun _ => ih stays.2

/-- Statement by statement an accepted program comes to the same end. -/
theorem executeSingly_iff {distances : Distances} (accepted : resolve program = .ok distances)
    {machine : Machine} {result : Step Unit} (ended : ∀ after, result ≠ .stopped .unfinished after) :
    (∃ bound, executeProgram bound program machine = result) ↔
      ∃ bound, executeSingly bound program machine = result := by
  have stays := resolve_stays accepted
  constructor
  · rintro ⟨bound, rfl⟩
    exact ⟨bound, (singly_settles (Nat.le_refl bound) stays).eq ended⟩
  · rintro ⟨bound, rfl⟩
    exact ⟨bound + 1, (settles_singly (Nat.le_refl _) stays).eq ended⟩

theorem evaluate_eq {expr : Expr} {machine : Machine}
    (first : ∀ after, evaluate bound expr machine ≠ .stopped .unfinished after)
    (second : ∀ after, evaluate larger expr machine ≠ .stopped .unfinished after) :
    evaluate bound expr machine = evaluate larger expr machine := by
  have one := ((settles_evaluate_execute (Nat.le_max_left bound larger)).1 expr).eq first
  have two := ((settles_evaluate_execute (Nat.le_max_right bound larger)).1 expr).eq second
  exact one.symm.trans two

end Statements

namespace Session

/-- With some bound the source comes to an end, with this outcome and this session. -/
def EndsIn (session : Session) (manner : Manner) (source : String) (outcome : Outcome)
    (after : Session) : Prop :=
  outcome ≠ .unfinished ∧ ∃ bound, session.runAs bound manner source = (outcome, after)

/-- The source is one expression statement, and its value is not nil. -/
def Shows (session : Session) (source : String) (value : Value) : Prop :=
  ∃ expr distances bound after, session.Accepts source [.expression expr] distances ∧
    evaluate bound expr (session.machine.addDistances distances) = .done value after ∧
    value ≠ .nil

/-- `shown` is `after` with the value that the source shows, if it shows one, printed last. -/
structure Echoes (session : Session) (source : String) (after shown : Session) : Prop where
  value : ∀ value, session.Shows source value → shown = after.emit (value.text ++ "\n")
  silent : (∀ value, ¬session.Shows source value) → shown = after

section Manners

variable {session : Session} {source : String} {expr : Expr} {distances : Distances}

/-- Any bound that suffices tells what is shown. -/
theorem shows_iff (accepts : session.Accepts source [.expression expr] distances) (bound : Nat)
    (value : Value) (enough : ∀ after,
      evaluate bound expr (session.machine.addDistances distances) ≠ .stopped .unfinished after) :
    session.Shows source value ↔ value ≠ .nil ∧ ∃ after,
      evaluate bound expr (session.machine.addDistances distances) = .done value after := by
  constructor
  · rintro ⟨_, _, larger, after, again, evaluated, visible⟩
    obtain ⟨same, rfl⟩ := accepts.unique again
    cases same
    have settled : ∀ final, evaluate larger expr (session.machine.addDistances distances) ≠
        .stopped .unfinished final := by simp [evaluated]
    exact ⟨visible, after, (evaluate_eq enough settled).trans evaluated⟩
  · rintro ⟨visible, after, evaluated⟩
    exact ⟨expr, distances, bound, after, accepts, evaluated, visible⟩

theorem runProgram_script (bound : Nat) (expr : Expr) (machine : Machine) :
    runProgram (bound + 1) .script [.expression expr] machine =
      match evaluate bound expr machine with
      | .done _ after => .done () after
      | .stopped stop after => .stopped stop after := by
  have stays : (Stmt.expression expr).Stays := trivial
  have first := congrFun (executeProgram_cons (bound + 1) stays []) machine
  refine first.trans ((congrFun (Exec.bind_assoc (evaluate bound expr) _ _) machine).trans ?_)
  refine (Exec.bind_apply (evaluate bound expr) _ machine).trans ?_
  cases evaluate bound expr machine <;> rfl

theorem runProgram_prompt (bound : Nat) (expr : Expr) (machine : Machine) :
    runProgram bound .prompt [.expression expr] machine =
      match evaluate bound expr machine with
      | .done .nil after => .done () after
      | .done value after => .done () (after.write value)
      | .stopped stop after => .stopped stop after := by
  refine (congrFun (Exec.bind_assoc (evaluate bound expr) _ _) machine).trans ?_
  refine (Exec.bind_apply (evaluate bound expr) _ machine).trans ?_
  cases evaluate bound expr machine with
  | stopped stop after => rfl
  | done value after => cases value <;> rfl

theorem emit_text (machine : Machine) (number : Nat) (value : Value) :
    (Session.mk machine number).emit (value.text ++ "\n") = ⟨machine.write value, number⟩ := by
  simp [emit, Machine.write, String.append_assoc]

theorem echoes_expression (accepts : session.Accepts source [.expression expr] distances)
    (bound : Nat) :
    let ran := session.runAs (bound + 1) .script source
    let typed := session.runAs bound .prompt source
    typed.1 = ran.1 ∧ (ran.1 ≠ .unfinished → session.Echoes source ran.2 typed.2) := by
  have visible := shows_iff accepts bound
  rw [runAs_of_accepts accepts, runAs_of_accepts accepts, start_eq, start_eq, runProgram_script,
    runProgram_prompt]
  cases evaluated : evaluate bound expr (session.machine.addDistances distances) with
  | stopped stop after =>
    simp only [evaluated] at visible
    refine ⟨rfl, fun ended => ⟨fun value shown => ?_, fun _ => rfl⟩⟩
    -- This bound is enough, since the run did not end for want of a larger one.
    have enough : ∀ final, (.stopped stop after : Step Value) ≠ .stopped .unfinished final := by
      rintro final ⟨⟩
      exact ended rfl
    simpa using (visible value enough).mp shown
  | done value after =>
    simp only [evaluated] at visible
    have shown {other : Value} : session.Shows source other ↔ other ≠ .nil ∧ other = value := by
      simpa [eq_comm] using visible other
    cases value with
    | nil => exact ⟨rfl, fun _ => ⟨fun other seen => absurd (shown.mp seen).2 (shown.mp seen).1,
        fun _ => rfl⟩⟩
    | _ =>
      refine ⟨rfl, fun _ => ⟨fun other seen => ?_, fun silent => ?_⟩⟩
      · rw [(shown.mp seen).2]
        exact (emit_text _ _ _).symm
      · exact absurd (shown.mpr ⟨by simp, rfl⟩) (silent _)

theorem echoes_other (other : ∀ expr distances, ¬session.Accepts source [.expression expr] distances)
    (bound : Nat) :
    session.runAs bound .prompt source = session.runAs bound .script source ∧
      ∀ value, ¬session.Shows source value := by
  constructor
  · rw [runAs_eq, runAs_eq]
    cases verdict : session.verdict source with
    | error faults => rfl
    | ok distances =>
      have several (manner : Manner) (expr : Expr) : manner = .prompt →
          (session.read source).parsed.program ≠ [.expression expr] := by
        intro _ lone
        have accepts := accepts_of_verdict verdict
        rw [lone] at accepts
        exact other expr distances accepts
      simp only [start_eq, runProgram_eq (several _)]
  · rintro value ⟨expr, distances, _, _, accepts, _, _⟩
    exact other expr distances accepts

/-- What a source does as a script, it does at the prompt. -/
theorem EndsIn.prompt {outcome : Outcome} {after : Session}
    (ends : session.EndsIn .script source outcome after) :
    ∃ shown, session.EndsIn .prompt source outcome shown ∧ session.Echoes source after shown := by
  obtain ⟨ended, bound, ran⟩ := ends
  by_cases lone : ∃ expr distances, session.Accepts source [.expression expr] distances
  · obtain ⟨expr, distances, accepts⟩ := lone
    cases bound with
    | zero =>
      rw [runAs_of_accepts accepts] at ran
      cases ran
      exact absurd rfl ended
    | succ bound =>
      obtain ⟨same, echoes⟩ := echoes_expression accepts bound
      rw [ran] at same echoes
      exact ⟨(session.runAs bound .prompt source).2, ⟨ended, bound, Prod.ext same rfl⟩, echoes ended⟩
  · obtain ⟨same, silent⟩ := echoes_other (fun expr distances accepts => lone ⟨expr, distances, accepts⟩)
      bound
    exact ⟨after, ⟨ended, bound, same.trans ran⟩, fun value visible => absurd visible (silent value),
      fun _ => rfl⟩

/-- What a source does at the prompt, it does as a script. -/
theorem EndsIn.script {outcome : Outcome} {shown : Session}
    (ends : session.EndsIn .prompt source outcome shown) :
    ∃ after, session.EndsIn .script source outcome after ∧ session.Echoes source after shown := by
  obtain ⟨ended, bound, typed⟩ := ends
  by_cases lone : ∃ expr distances, session.Accepts source [.expression expr] distances
  · obtain ⟨expr, distances, accepts⟩ := lone
    obtain ⟨same, echoes⟩ := echoes_expression accepts bound
    rw [typed] at same echoes
    exact ⟨(session.runAs (bound + 1) .script source).2,
      ⟨ended, bound + 1, Prod.ext same.symm rfl⟩, echoes fun out => ended (same.trans out)⟩
  · obtain ⟨same, silent⟩ := echoes_other (fun expr distances accepts => lone ⟨expr, distances, accepts⟩)
      bound
    exact ⟨shown, ⟨ended, bound, same.symm.trans typed⟩,
      fun value visible => absurd visible (silent value), fun _ => rfl⟩

end Manners
end Session

/-- As a script and at the prompt a source comes to the same end and leaves the same session, but that
the prompt prints the value of a lone expression statement last, unless it is nil. An accepted program
may also be run statement by statement. -/
theorem manners_agree (session : Session) (source : String) :
    (∀ outcome after, session.EndsIn .script source outcome after →
      ∃ shown, session.EndsIn .prompt source outcome shown ∧ session.Echoes source after shown) ∧
    (∀ outcome shown, session.EndsIn .prompt source outcome shown →
      ∃ after, session.EndsIn .script source outcome after ∧ session.Echoes source after shown) ∧
    ∀ program distances, resolve program = .ok distances → ∀ machine result,
      (∀ after, result ≠ .stopped .unfinished after) →
      ((∃ bound, executeProgram bound program machine = result) ↔
        ∃ bound, executeSingly bound program machine = result) := by
  refine ⟨fun _ _ ends => ends.prompt, fun _ _ ends => ends.script, ?_⟩
  intro program distances accepted machine result ended
  exact executeSingly_iff accepted ended

/-- A value that only the prompt shows, and a run that fails before there is anything to show. -/
theorem manners_agree_echoed :
    let session := Session.fresh fun _ => 0
    let program : Program :=
      [.print (.literal ⟨0, 1⟩ (.boolean true)),
        .expression (.unary ⟨2, 1⟩ .negative (.literal ⟨1, 1⟩ .nil))]
    (∃ after, session.EndsIn .script "true;" .finished after ∧
      session.EndsIn .prompt "true;" .finished (after.emit "true\n")) ∧
    (∃ fault after, session.EndsIn .prompt "print true; -nil;" (.failed fault) after ∧
      session.EndsIn .script "print true; -nil;" (.failed fault) after) ∧
    ∃ bound, executeSingly bound program session.machine =
      executeProgram 9 program session.machine := by
  intro session program
  have accepts : session.Accepts "true;" [.expression (.literal ⟨0, 1⟩ (.boolean true))] ∅ :=
    ⟨by decide +kernel, by cbv, by cbv⟩
  have acceptsBoth : session.Accepts "print true; -nil;" program ∅ :=
    ⟨by decide +kernel, by cbv, by cbv⟩
  obtain ⟨prompted, _, _⟩ := manners_agree session "true;"
  obtain ⟨_, scripted, singly⟩ := manners_agree session "print true; -nil;"
  refine ⟨?_, ?_, ?_⟩
  · have ends : (session.runAs 9 .script "true;").1 = .finished := by decide +kernel
    obtain ⟨shown, typed, echoes⟩ := prompted .finished _ ⟨by decide, 9, Prod.ext ends rfl⟩
    have visible : session.Shows "true;" (.boolean true) :=
      ⟨_, _, 9, _, accepts, rfl, by simp⟩
    rw [echoes.value _ visible] at typed
    exact ⟨_, ⟨by decide, 9, Prod.ext ends rfl⟩, typed⟩
  · have fails : (session.runAs 9 .prompt "print true; -nil;").1 = .failed ⟨.operandNotNumber, 1⟩ := by
      decide +kernel
    obtain ⟨after, ran, echoes⟩ := scripted _ _ ⟨by decide, 9, Prod.ext fails rfl⟩
    have silent (value : Value) : ¬session.Shows "print true; -nil;" value := by
      rintro ⟨expr, _, _, _, again, _, _⟩
      simpa [program] using (acceptsBoth.unique again).1
    rw [← echoes.silent silent] at ran
    exact ⟨_, _, ⟨by decide, 9, Prod.ext fails rfl⟩, ran⟩
  · have ended (after : Machine) : executeProgram 9 program session.machine ≠
        .stopped .unfinished after := by
      have fault : (executeProgram 9 program session.machine).outcome =
          .failed ⟨.operandNotNumber, 1⟩ := by decide +kernel
      intro cut
      rw [cut] at fault
      cases fault
    exact (singly program ∅ acceptsBoth.resolved _ _ ended).mp ⟨9, rfl⟩

end LoxLang
