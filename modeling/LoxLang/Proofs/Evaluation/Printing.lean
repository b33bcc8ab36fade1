import LoxLang.Proofs.Evaluation.Uniform

/-!
What was printed before makes no difference: a run only adds to the output, and it adds the same to
every output.
-/
namespace LoxLang

variable {α β : Type}

/-- The same machine behind some more output. -/
def Machine.behind (text : String) (machine : Machine) : Machine :=
  { machine with output := text ++ machine.output }

def Step.behind (text : String) : Step α → Step α
  | .done value machine => .done value (machine.behind text)
  | .stopped stop machine => .stopped stop (machine.behind text)

/-- The run is the same behind any output. -/
def Exec.Appends (exec : Exec α) : Prop :=
  ∀ text machine, exec (machine.behind text) = (exec machine).behind text

namespace Exec.Appends

theorem bind {first : Exec α} {next : α → Exec β} (ahead : first.Appends)
    (further : ∀ value, (next value).Appends) : (first >>= next).Appends := by
  intro text machine
  rw [bind_apply, bind_apply, ahead]
  cases first machine with
  | done value after => exact further value text after
  | stopped stop after => rfl

theorem within (frame : FrameId) {body : Exec α} (appends : body.Appends) :
    (LoxLang.within frame body).Appends := by
  intro text machine
  have inside := appends text { machine with current := frame }
  unfold LoxLang.within
  change (match body (Machine.behind text { machine with current := frame }) with
    | .done value after => Step.done value { after with current := machine.current }
    | .stopped stop after => .stopped stop { after with current := machine.current }) = _
  rw [inside]
  cases body { machine with current := frame } <;> rfl

theorem readVariable (site : Site) (name : String) : (LoxLang.readVariable site name).Appends := by
  intro text machine
  have same : (machine.behind text).lookUp? site.id name = machine.lookUp? site.id name := rfl
  unfold LoxLang.readVariable
  rw [same]
  cases machine.lookUp? site.id name <;> rfl

theorem assignVariable (site : Site) (name : String) (value : Value) :
    (LoxLang.assignVariable site name value).Appends := by
  intro text machine
  have same : (machine.behind text).readFrame? site.id name = machine.readFrame? site.id name := rfl
  unfold LoxLang.assignVariable
  rw [same]
  cases machine.readFrame? site.id name <;> rfl

theorem write (value : Value) : (LoxLang.write value).Appends := by
  intro text machine
  simp [LoxLang.write, Machine.write, Machine.behind, Step.behind, String.append_assoc]

theorem uniform : Exec.Uniform @Exec.Appends where
  pure _ _ _ := rfl
  bind := bind
  fault _ _ _ _ := rfl
  unfinished _ _ := rfl
  readVariable := readVariable
  assignVariable := assignVariable
  defineHere _ _ _ _ := rfl
  defineIn _ _ _ _ _ := rfl
  currentFrame _ _ := rfl
  openInside _ _ _ := rfl
  makeCallable _ _ _ := rfl
  write := write
  readClock _ _ := rfl
  within := within

end Exec.Appends

theorem Session.start_behind (bound : Nat) (manner : Manner) (program : Program)
    (distances : Distances) (text : String) (machine : Machine) :
    Session.start bound manner program distances (machine.behind text) =
      ((Session.start bound manner program distances machine).1,
        (Session.start bound manner program distances machine).2.behind text) := by
  have added : (machine.behind text).addDistances distances =
      (machine.addDistances distances).behind text := rfl
  have appends := Exec.Appends.uniform.runProgram bound manner program
  rw [Session.start, Session.start, added, appends]
  cases runProgram bound manner program (machine.addDistances distances) <;> rfl

end LoxLang
