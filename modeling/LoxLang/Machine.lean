import LoxLang.Store
import LoxLang.Scoping
/-!
The state of a running script, and the steps that running is made of. A step that is stopped keeps
everything that was done before; a return is not a stop but a way for a statement to end.
-/
namespace LoxLang

/-- `clock` gives the time at its n-th reading, as part of what a run is given. -/
structure Machine where
  store : Store
  globals : FrameId
  current : FrameId
  distances : Distances
  output : String
  callables : Nat
  clock : Nat → Float
  readings : Nat

/-- Why a run does not go on: a fault, or the bound that it was given is used up. -/
inductive Stop where
  | fault (fault : RuntimeFault)
  | unfinished

inductive Step (α : Type) where
  | done (value : α) (machine : Machine)
  | stopped (stop : Stop) (machine : Machine)

def Step.machine {α : Type} : Step α → Machine
  | .done _ machine => machine
  | .stopped _ machine => machine

def Exec (α : Type) : Type := Machine → Step α

/-- How a statement ends: the next one follows, or the function being run returns. -/
inductive Flow where
  | next
  | returned (value : Value)

namespace Exec

@[always_inline, inline]
def bind {α β : Type} (first : Exec α) (next : α → Exec β) : Exec β := fun machine =>
  match first machine with
  | .done value after => next value after
  | .stopped stop after => .stopped stop after

instance : Monad Exec where
  pure value := fun machine => .done value machine
  bind := bind

@[simp] theorem pure_apply {α : Type} (value : α) (machine : Machine) :
    (pure value : Exec α) machine = .done value machine := rfl

theorem bind_apply {α β : Type} (first : Exec α) (next : α → Exec β) (machine : Machine) :
    (first >>= next) machine =
      match first machine with
      | .done value after => next value after
      | .stopped stop after => .stopped stop after := rfl

def fault {α : Type} (cause : RuntimeCause) (line : Nat) : Exec α :=
  fun machine => .stopped (.fault ⟨cause, line⟩) machine

def unfinished {α : Type} : Exec α := fun machine => .stopped .unfinished machine

/-- The value of an operation, or its fault at a line. -/
def atLine {α : Type} (line : Nat) : Except RuntimeCause α → Exec α
  | .ok value => pure value
  | .error cause => fault cause line

end Exec

namespace Machine

def define (frame : FrameId) (name : String) (value : Value) (machine : Machine) : Machine :=
  { machine with store := machine.store.define frame name value }

def write (value : Value) (machine : Machine) : Machine :=
  { machine with output := machine.output ++ value.text ++ "\n" }

def inGlobalScope (machine : Machine) : Bool := machine.current == machine.globals

def global? (name : String) (machine : Machine) : Option Value :=
  machine.store.lookUp? machine.globals name

/-- Distances of new code beside those known before. -/
def addDistances (distances : Distances) (machine : Machine) : Machine :=
  { machine with distances := machine.distances ∪ distances }

/-- A callable value made now, different from all others. -/
def newCallable (target : Callable) (machine : Machine) : Value × Machine :=
  (.callable machine.callables target, { machine with callables := machine.callables + 1 })

/-- A new frame inside `parent`, or one without a parent. -/
def openFrame (parent : Option FrameId) (machine : Machine) : FrameId × Machine :=
  (machine.store.next, { machine with store := machine.store.push parent })

/-- The frame that a variable is read from: a known distance away, or wherever the search from the
global frame ends. -/
def readFrame? (id : Nat) (name : String) (machine : Machine) : Option FrameId :=
  match machine.distances[id]? with
  | some distance => machine.store.ancestor? machine.current distance
  | none => machine.store.holder? machine.globals name

def lookUp? (id : Nat) (name : String) (machine : Machine) : Option Value :=
  match machine.readFrame? id name with
  | none => none
  | some frame => machine.store.bound? frame name

end Machine

def readVariable (site : Site) (name : String) : Exec Value := fun machine =>
  match machine.lookUp? site.id name with
  | some value => .done value machine
  | none => .stopped (.fault ⟨.undefinedVariable name, site.line⟩) machine

def assignVariable (site : Site) (name : String) (value : Value) : Exec Unit := fun machine =>
  match machine.readFrame? site.id name with
  | some frame => .done () (machine.define frame name value)
  | none => .stopped (.fault ⟨.undefinedVariable name, site.line⟩) machine

def defineHere (name : String) (value : Value) : Exec Unit := fun machine =>
  let here := machine.current
  .done () (machine.define here name value)

def defineIn (frame : FrameId) (name : String) (value : Value) : Exec Unit := fun machine =>
  .done () (machine.define frame name value)

def currentFrame : Exec FrameId := fun machine => .done machine.current machine

def openInside (parent : FrameId) : Exec FrameId := fun machine =>
  let (frame, after) := machine.openFrame (some parent)
  .done frame after

def makeCallable (target : Callable) : Exec Value := fun machine =>
  let (value, after) := machine.newCallable target
  .done value after

def write (value : Value) : Exec Unit := fun machine => .done () (machine.write value)

def readClock : Exec Value := fun machine =>
  let reading := machine.readings
  let time := machine.clock reading
  .done (.number time) { machine with readings := reading + 1 }

/-- Runs `body` with another current frame and comes back to this one however it ends. -/
def within {α : Type} (frame : FrameId) (body : Exec α) : Exec α := fun machine =>
  let previous := machine.current
  match body { machine with current := frame } with
  | .done value after => .done value { after with current := previous }
  | .stopped stop after => .stopped stop { after with current := previous }

end LoxLang
