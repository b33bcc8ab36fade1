import LoxLang.Proofs.Sessions.Histories
import LoxLang.Proofs.Sessions.Resolution

/-!
Whoever enters a frame comes back from it. A block, a loop and the body of a function may be left
in the middle, by a return or by a fault somewhere deep inside; the frame that was current before is
current again all the same, with any distances that the machine may have been given.
-/
namespace LoxLang

/-- However it ends, the current frame and the global one are the same as before. -/
def Exec.Restores {α : Type} (exec : Exec α) : Prop :=
  ∀ machine : Machine, (exec machine).machine.current = machine.current ∧
    (exec machine).machine.globals = machine.globals

theorem Exec.Grows.restores {α : Type} {exec : Exec α} (grows : exec.Grows) : exec.Restores :=
  fun machine => ⟨(grows machine).current, (grows machine).globals⟩

theorem grows_executeAlone (bound : Nat) (stmt : Stmt) : (executeAlone bound stmt).Grows := by
  cases stmt with
  | expression value => exact Exec.Grows.bind (grows_evaluate bound value) fun _ => .pure _
  | _ => exact Exec.Grows.bind (grows_execute bound _) fun _ => .pure none

theorem grows_callDirectly (bound : Nat) (target : Callable) (arguments : List Value) :
    (callDirectly bound target arguments).Grows :=
  grows_callable (grows_execute bound) arguments target

/-- What can be done with a machine from outside. The distances need not come from resolving
anything. -/
inductive Interaction where
  | learn (distances : Distances)
  | interpret (bound : Nat) (program : Program)
  | interpretAlone (bound : Nat) (stmt : Stmt)
  | call (bound : Nat) (target : Callable) (arguments : List Value)
  | show (value : Value)

namespace Interaction

def perform (machine : Machine) : Interaction → Machine
  | .learn distances => machine.addDistances distances
  | .interpret bound program => (executeProgram bound program machine).machine
  | .interpretAlone bound stmt => (executeAlone bound stmt machine).machine
  | .call bound target arguments => (callDirectly bound target arguments machine).machine
  | .show value => machine.write value

theorem perform_outside (interaction : Interaction) (machine : Machine) :
    (interaction.perform machine).inGlobalScope = machine.inGlobalScope := by
  have kept {α : Type} {exec : Exec α} (grows : exec.Grows) :
      (exec machine).machine.inGlobalScope = machine.inGlobalScope := by
    obtain ⟨current, globals⟩ := grows.restores machine
    rw [Machine.inGlobalScope, current, globals]
    rfl
  cases interaction with
  | learn distances => rfl
  | interpret bound program => exact kept (grows_executeProgram bound program)
  | interpretAlone bound stmt => exact kept (grows_executeAlone bound stmt)
  | call bound target arguments => exact kept (grows_callDirectly bound target arguments)
  | «show» value => rfl

end Interaction

def Machine.perform (machine : Machine) (interactions : List Interaction) : Machine :=
  interactions.foldl Interaction.perform machine

theorem Machine.perform_outside (machine : Machine) (interactions : List Interaction) :
    (machine.perform interactions).inGlobalScope = machine.inGlobalScope := by
  induction interactions generalizing machine with
  | nil => rfl
  | cons interaction rest ih =>
    exact (ih (interaction.perform machine)).trans (interaction.perform_outside machine)

theorem Session.submit_reachable {clock : Nat → Float} {session : Session}
    (reachable : Session.Reachable clock session) (history : List Submission) :
    Session.Reachable clock (session.submit history).2 := by
  induction history generalizing session with
  | nil => exact reachable
  | cons first rest ih => exact ih (.next first.bound first.manner first.source reachable)

/-- Expressions, statements, blocks, programs and calls come back to the frame they were started in,
and between two steps of a session no block and no call is open. -/
theorem frames_restored :
    (∀ bound expr, Exec.Restores (evaluate bound expr)) ∧
    (∀ bound stmt, Exec.Restores (execute bound stmt)) ∧
    (∀ bound frame body, (within frame (runAll (execute bound) body)).Restores) ∧
    (∀ bound program, (executeProgram bound program).Restores) ∧
    (∀ bound stmt, (executeAlone bound stmt).Restores) ∧
    (∀ bound target arguments, (callDirectly bound target arguments).Restores) ∧
    (∀ clock interactions,
      ((Machine.withNatives clock).perform interactions).inGlobalScope = true) ∧
    ∀ clock history, ((Session.fresh clock).submit history).2.machine.inGlobalScope = true := by
  -- However something ends, it has only let the machine grow, and growing keeps both frames.
  refine ⟨fun bound expr => (grows_evaluate bound expr).restores,
    fun bound stmt => (grows_execute bound stmt).restores, ?_,
    fun bound program => (grows_executeProgram bound program).restores,
    fun bound stmt => (grows_executeAlone bound stmt).restores,
    fun bound target arguments => (grows_callDirectly bound target arguments).restores, ?_, ?_⟩
  · intro bound frame body
    have inside := grows_runAll (grows_execute bound) body
    exact (grows_within frame inside).restores
  · intro clock interactions
    exact (Machine.withNatives clock).perform_outside interactions
  · intro clock history
    have start : Session.Reachable clock (.fresh clock) := .fresh
    have between := Session.submit_reachable start history
    exact beq_iff_eq.mpr between.sound.outside

end LoxLang
