import LoxLang.Proofs.Evaluation.Frames

/-!
What the machine relies on at every moment: a function value was declared where its body is resolved,
and the frames for that place are still there. Whatever runs, and however it ends, keeps it so. An
expression needs no scopes for that, a statement those around it, for the closures that it makes.
-/
namespace LoxLang

/-- All these nodes were read before `limit` was given out. -/
def Older (limit : Nat) (ids : List Nat) : Prop := ∀ id ∈ ids, id < limit

namespace Older

variable {limit : Nat} {ids others : List Nat}

theorem left (older : Older limit (ids ++ others)) : Older limit ids :=
  fun id member => older id (List.mem_append_left _ member)

theorem right (older : Older limit (ids ++ others)) : Older limit others :=
  fun id member => older id (List.mem_append_right _ member)

end Older

/-- The current frame stands for the innermost scope. -/
def Machine.Stands (nesting : Nesting) (machine : Machine) : Prop :=
  nesting.Framed machine.store machine.globals machine.current

/-- The frame that a closure keeps stands for the scopes around the declaration, and those are the
scopes that the body was resolved in. -/
def CallableOver.Sound (table : Distances) (limit : Nat) (machine : Machine) : Callable → Prop
  | .native _ => True
  | .function declaration closure =>
    ∃ nesting : Nesting, nesting.Framed machine.store machine.globals closure ∧
      Stmt.ResolvedAll table ((declaration.parameters.map Ident.name).reverse :: nesting)
        declaration.body ∧
      Older limit (Stmt.idsAll declaration.body)

def ValueOver.Sound (table : Distances) (limit : Nat) (machine : Machine) : Value → Prop
  | .callable _ target => target.Sound table limit machine
  | _ => True

/-- After a returned value nothing follows, after any other statement those that see `nesting`. -/
def Flow.Sound (table : Distances) (limit : Nat) (nesting : Nesting) (machine : Machine) :
    Flow → Prop
  | .next => machine.Stands nesting
  | .returned value => value.Sound table limit machine

structure Machine.Sound (table : Distances) (limit : Nat) (machine : Machine) : Prop where
  distances : machine.distances = table
  globals : machine.globals < machine.store.next
  bound : ∀ frame name value, machine.store.bound? frame name = some value →
    value.Sound table limit machine

/-- A condition that holds on as the machine grows. -/
def Lasting (condition : Machine → Prop) : Prop :=
  ∀ before after : Machine, before.Grows after → condition before → condition after

section Lasting

variable (table : Distances) (limit : Nat)

theorem lasting_stands (nesting : Nesting) : Lasting (Machine.Stands nesting) := by
  intro before after grows stands
  unfold Machine.Stands at *
  rw [grows.globals, grows.current]
  exact stands.grows grows.store

theorem lasting_callable (target : Callable) :
    Lasting fun machine => target.Sound table limit machine := by
  intro before after grows sound
  cases target with
  | native builtin => trivial
  | function declaration closure =>
    obtain ⟨nesting, framed, resolved, older⟩ := sound
    refine ⟨nesting, ?_, resolved, older⟩
    rw [grows.globals]
    exact framed.grows grows.store

theorem lasting_value (value : Value) :
    Lasting fun machine => value.Sound table limit machine := by
  intro before after grows sound
  cases value with
  | callable identity target => exact lasting_callable table limit target before after grows sound
  | _ => trivial

theorem lasting_values (values : List Value) :
    Lasting fun machine => ∀ value ∈ values, value.Sound table limit machine :=
  fun before after grows sound value member =>
    lasting_value table limit value before after grows (sound value member)

end Lasting

theorem Lasting.and {first second : Machine → Prop} (ahead : Lasting first)
    (further : Lasting second) : Lasting fun machine => first machine ∧ second machine :=
  fun before after grows both =>
    ⟨ahead before after grows both.1, further before after grows both.2⟩

namespace Machine.Sound

variable {table : Distances} {limit : Nat} {machine : Machine}

theorem of_same_store {after : Machine} (sound : machine.Sound table limit) (grows : machine.Grows after)
    (same : after.store = machine.store) : after.Sound table limit := by
  refine ⟨grows.distances.trans sound.distances, ?_, fun frame name value found => ?_⟩
  · rw [grows.globals, same]
    exact sound.globals
  · rw [same] at found
    exact lasting_value table limit value machine after grows (sound.bound frame name value found)

theorem enter (sound : machine.Sound table limit) (frame : FrameId) :
    ({ machine with current := frame } : Machine).Sound table limit :=
  ⟨sound.distances, sound.globals, sound.bound⟩

theorem define {frame : FrameId} {name : String} {value : Value} (sound : machine.Sound table limit)
    (good : value.Sound table limit (machine.define frame name value)) :
    (machine.define frame name value).Sound table limit := by
  have grows := Machine.Grows.define machine frame name value
  refine ⟨sound.distances, ?_, fun other sought found bound => ?_⟩
  · rw [grows.globals]
    exact Nat.lt_of_lt_of_le sound.globals grows.store.next
  · have cases := Store.bound?_define machine.store frame other name sought value
    rw [show (machine.define frame name value).store = machine.store.define frame name value
      from rfl, cases] at bound
    split at bound
    · cases bound
      exact good
    · exact lasting_value table limit found machine _ grows (sound.bound other sought found bound)

theorem define_sound {frame : FrameId} {name : String} {value : Value}
    (sound : machine.Sound table limit) (good : value.Sound table limit machine) :
    (machine.define frame name value).Sound table limit :=
  sound.define (lasting_value table limit value machine _ (.define machine frame name value) good)

theorem opened {parent : FrameId} (sound : machine.Sound table limit) :
    (machine.openFrame (some parent)).2.Sound table limit := by
  have grows := grows_openInside parent machine
  refine ⟨sound.distances, ?_, fun frame name value found => ?_⟩
  · exact Nat.lt_of_lt_of_le sound.globals grows.store.next
  · refine lasting_value table limit value machine _ grows (sound.bound frame name value ?_)
    rwa [show (machine.openFrame (some parent)).2.store = machine.store.push (some parent)
      from rfl, Store.bound?_push] at found

end Machine.Sound

/-- Started soundly and where `before` holds, it leaves a sound machine however it ends, and one where
`after` holds when it gives a value. -/
def Exec.Ensures {α : Type} (table : Distances) (limit : Nat) (before : Machine → Prop) (exec : Exec α)
    (after : α → Machine → Prop) : Prop :=
  ∀ machine : Machine, machine.Sound table limit → before machine →
    (exec machine).machine.Sound table limit ∧
      ∀ value final, exec machine = .done value final → after value final

namespace Exec.Ensures

variable {α β : Type} {table : Distances} {limit : Nat} {before condition : Machine → Prop}
  {after : α → Machine → Prop}

theorem pure {value : α} (holds : ∀ machine, before machine → after value machine) :
    Ensures table limit before (Pure.pure value : Exec α) after := by
  intro machine sound start
  refine ⟨sound, fun made final same => ?_⟩
  cases same
  exact holds machine start

theorem stopped (stop : Stop) :
    Ensures table limit before (fun machine => .stopped stop machine : Exec α) after :=
  fun _ sound _ => ⟨sound, fun _ _ same => nomatch same⟩

theorem bind {middle : α → Machine → Prop} {last : β → Machine → Prop} {first : Exec α}
    {next : α → Exec β} (ahead : Ensures table limit before first middle)
    (further : ∀ value, Ensures table limit (middle value) (next value) last) :
    Ensures table limit before (first >>= next) last := by
  intro machine sound start
  obtain ⟨kept, reached⟩ := ahead machine sound start
  rw [bind_apply]
  cases result : first machine with
  | done value final =>
    rw [result] at kept
    exact further value final kept (reached value final result)
  | stopped stop final =>
    rw [result] at kept
    exact ⟨kept, fun _ _ same => nomatch same⟩

theorem weaken {weaker : Machine → Prop} {stronger : α → Machine → Prop} {exec : Exec α}
    (ensures : Ensures table limit weaker exec stronger)
    (start : ∀ machine, before machine → weaker machine)
    (finish : ∀ value machine, stronger value machine → after value machine) :
    Ensures table limit before exec after := by
  intro machine sound holds
  obtain ⟨kept, reached⟩ := ensures machine sound (start machine holds)
  exact ⟨kept, fun value final result => finish value final (reached value final result)⟩

theorem done {exec : Exec α} (ensures : Ensures table limit before exec after)
    {machine final : Machine} {value : α} (sound : machine.Sound table limit)
    (start : before machine) (result : exec machine = .done value final) :
    final.Sound table limit ∧ after value final := by
  obtain ⟨kept, reached⟩ := ensures machine sound start
  rw [result] at kept
  exact ⟨kept, reached value final result⟩

theorem keep {exec : Exec α} (ensures : Ensures table limit before exec after) (grows : exec.Grows)
    (lasting : Lasting condition) (start : ∀ machine, condition machine → before machine) :
    Ensures table limit condition exec
      fun value machine => condition machine ∧ after value machine := by
  intro machine sound holds
  obtain ⟨kept, reached⟩ := ensures machine sound (start machine holds)
  exact ⟨kept, fun value final result =>
    ⟨lasting machine final (grows.done result) holds, reached value final result⟩⟩

end Exec.Ensures
end LoxLang
