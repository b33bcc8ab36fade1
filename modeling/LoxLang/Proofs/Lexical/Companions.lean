import LoxLang.Proofs.Evaluation.Values
import LoxLang.Proofs.Lexical.Semantics
import LoxLang.Proofs.Syntax.Variants

/-!
Two memories of the model that hold the same, with variants of the same functions in them. Locations
are the same on both sides, only the names that stand for them differ; and every local name has a
content, but for one whose value is being made.
-/
namespace LoxLang.Lexical

/-- The same locations under the names of both sides. -/
inductive Paired : Renaming → Environment → Environment → Prop
  | nil : Paired [] [] []
  | cons {known : Renaming} {environment twin : Environment} (name other : String)
    (location : Location) : Paired known environment twin →
    Paired ((name, other) :: known) ((name, location) :: environment) ((other, location) :: twin)

/-- All names have a content but the pending one. -/
def Filled (pending : Option String) (environment : Environment) (memory : Memory) : Prop :=
  ∀ name location, environment.lookup name = some location → pending ≠ some name →
    memory.cells[location]?.join.isSome

structure Surrounds (known : Renaming) (pending : Option String) (environment twin : Environment)
    (memory : Memory) : Prop where
  paired : Paired known environment twin
  filled : Filled pending environment memory

/-- Functions with the same name and variants for bodies, each in the environment of its own side. -/
inductive AkinTarget (further : Prop) (memory : Memory) : Callable → Callable → Prop
  | native (builtin : Native) : AkinTarget further memory (.native builtin) (.native builtin)
  | function {declaration other : Function} {environment twin : Environment} {known : Renaming} :
    other.name.name = declaration.name.name →
    other.parameters.length = declaration.parameters.length →
    Surrounds known none environment twin memory →
    Stmt.VariantAll further
      (some (.ofParameters declaration.parameters other.parameters ++ known))
      declaration.body other.body →
    AkinTarget further memory (.function declaration environment) (.function other twin)

abbrev Akin (further : Prop) (memory : Memory) : Value → Value → Prop :=
  ValueOver.Alike (AkinTarget further memory)

structure Memory.Akin (further : Prop) (memory twin : Memory) : Prop where
  size : twin.cells.size = memory.cells.size
  cells : ∀ location : Location,
    Option.Rel (Lexical.Akin further memory) memory.cells[location]?.join twin.cells[location]?.join
  globals : ∀ name : String,
    Option.Rel (Lexical.Akin further memory) memory.globals[name]? twin.globals[name]?
  output : twin.output = memory.output
  callables : twin.callables = memory.callables
  clock : twin.clock = memory.clock
  readings : twin.readings = memory.readings

/-- What is there stays there, though perhaps with another content. -/
structure Memory.Keeps (before after : Memory) : Prop where
  size : before.cells.size ≤ after.cells.size
  filled : ∀ location : Location, before.cells[location]?.join.isSome →
    after.cells[location]?.join.isSome

namespace Memory.Keeps

theorem refl (memory : Memory) : memory.Keeps memory := ⟨Nat.le_refl _, fun _ has => has⟩

theorem trans {first middle last : Memory} (ahead : first.Keeps middle)
    (further : middle.Keeps last) : first.Keeps last :=
  ⟨Nat.le_trans ahead.size further.size, fun location has =>
    further.filled location (ahead.filled location has)⟩

theorem of_cells {before after : Memory} (same : after.cells = before.cells) : before.Keeps after :=
  ⟨Nat.le_of_eq (congrArg Array.size same).symm, fun _ has => same ▸ has⟩

end Memory.Keeps

section Lookup

variable {known : Renaming} {environment twin : Environment} {name other : String}

/-- Names that stand for the same have the same location, or are both not local. -/
theorem Paired.lookup (paired : Paired known environment twin)
    (relates : known.Relates name other) :
    (∃ location, environment.lookup name = some location ∧ twin.lookup other = some location) ∨
      (environment.lookup name = none ∧ twin.lookup other = none ∧ other = name) := by
  induction paired with
  | nil => exact .inr ⟨rfl, rfl, Eq.symm relates⟩
  | cons first second location _ ih =>
    rcases relates with ⟨rfl, rfl⟩ | ⟨apart, further, rest⟩
    · exact .inl ⟨location, by simp, by simp⟩
    · have here : (name == first) = false := by simpa using Ne.symm apart
      have there : (other == second) = false := by simpa using Ne.symm further
      simp only [List.lookup_cons, here, there]
      exact ih rest

end Lookup

section Lasting

def Enduring (condition : Memory → Prop) : Prop :=
  ∀ before after : Memory, before.Keeps after → condition before → condition after

theorem Enduring.and {first second : Memory → Prop} (ahead : Enduring first)
    (further : Enduring second) : Enduring fun memory => first memory ∧ second memory :=
  fun before after keeps both =>
    ⟨ahead before after keeps both.1, further before after keeps both.2⟩

theorem enduring_surrounds (known : Renaming) (pending : Option String)
    (environment twin : Environment) : Enduring (Surrounds known pending environment twin) :=
  fun _ _ keeps surrounds => ⟨surrounds.paired, fun name location found apart =>
    keeps.filled location (surrounds.filled name location found apart)⟩

theorem enduring_target (further : Prop) (target other : Callable) :
    Enduring fun memory => AkinTarget further memory target other := by
  intro before after keeps akin
  cases akin with
  | native builtin => exact .native builtin
  | function name enough surrounds bodies =>
    exact .function name enough (enduring_surrounds _ _ _ _ before after keeps surrounds) bodies

theorem enduring_akin (further : Prop) (value other : Value) :
    Enduring fun memory => Akin further memory value other :=
  fun before after keeps akin =>
    akin.imp fun target other => enduring_target further target other before after keeps

theorem enduring_akins (further : Prop) (values others : List Value) :
    Enduring fun memory => List.Forall₂ (Akin further memory) values others :=
  fun before after keeps akins =>
    akins.imp fun value other akin => enduring_akin further value other before after keeps akin

theorem enduring_size (location : Location) :
    Enduring fun memory => location < memory.cells.size :=
  fun _ _ keeps inside => Nat.lt_of_lt_of_le inside keeps.size

theorem enduring_option {further : Prop} {before after : Memory} (keeps : before.Keeps after)
    {value other : Option Value} (akin : Option.Rel (Akin further before) value other) :
    Option.Rel (Akin further after) value other := by
  cases akin with
  | none => exact .none
  | some akin => exact .some (enduring_akin further _ _ before after keeps akin)

end Lasting
section Targets

variable {further : Prop} {memory : Memory} {target other : Callable}

theorem AkinTarget.text (akin : AkinTarget further memory target other) :
    target.text = other.text := by
  cases akin with
  | native builtin => rfl
  | function name _ _ _ => rw [CallableOver.text, CallableOver.text, name]

theorem AkinTarget.arity (akin : AkinTarget further memory target other) :
    target.arity = other.arity := by
  cases akin with
  | native builtin => rfl
  | function _ enough _ _ => exact enough.symm

end Targets
section Changes

variable {further : Prop} {memory twin : Memory}

theorem keeps_fill (location : Location) (value : Value) (memory : Memory) :
    memory.Keeps (memory.fill location value) := by
  refine ⟨?_, fun spot has => ?_⟩
  · simp [Memory.fill]
  · rw [Memory.fill, Array.getElem?_setIfInBounds]
    split
    · split
      · rfl
      · rename_i same outside
        rw [← same, Array.getElem?_eq_none (Nat.not_lt.mp outside)] at has
        cases has
    · exact has

theorem filled_fill {location : Location} (value : Value) (inside : location < memory.cells.size) :
    (memory.fill location value).cells[location]?.join = some value := by
  simp [Memory.fill, inside]

theorem Memory.Akin.fill (akin : memory.Akin further twin) {location : Location}
    {value other : Value} (values : Lexical.Akin further (memory.fill location value) value other) :
    (memory.fill location value).Akin further (twin.fill location other) := by
  have keeps := keeps_fill location value memory
  refine ⟨?_, fun spot => ?_, fun name => enduring_option keeps (akin.globals name), akin.output,
    akin.callables, akin.clock, akin.readings⟩
  · simpa [Memory.fill] using akin.size
  -- what the other locations hold was alike before, and filling a location takes nothing away
  · have before := enduring_option keeps (akin.cells spot)
    simp only [Memory.fill, Array.getElem?_setIfInBounds] at before values ⊢
    rw [akin.size]
    split
    · split
      · exact .some values
      · exact .none
    · exact before

theorem Memory.Akin.setGlobal (akin : memory.Akin further twin) (name : String)
    {value other : Value} (values : Lexical.Akin further memory value other) :
    (memory.setGlobal name value).Akin further (twin.setGlobal name other) := by
  have keeps : memory.Keeps (memory.setGlobal name value) := .of_cells rfl
  refine ⟨akin.size, fun spot => enduring_option keeps (akin.cells spot), fun sought => ?_,
    akin.output, akin.callables, akin.clock, akin.readings⟩
  simp only [Memory.setGlobal, Std.TreeMap.getElem?_insert]
  split
  · exact .some (enduring_akin further _ _ _ _ keeps values)
  · exact enduring_option keeps (akin.globals sought)

theorem keeps_allocate (content : Option Value) (memory : Memory) :
    memory.Keeps { memory with cells := memory.cells.push content } := by
  refine ⟨by simp, fun location has => ?_⟩
  rw [Array.getElem?_push]
  split
  · rename_i last
    rw [last, Array.getElem?_eq_none (Nat.le_refl _)] at has
    cases has
  · exact has

theorem Memory.Akin.allocate (akin : memory.Akin further twin) {content other : Option Value}
    (contents : Option.Rel (Lexical.Akin further memory) content other) :
    Memory.Akin further { memory with cells := memory.cells.push content }
      { twin with cells := twin.cells.push other } := by
  have keeps := keeps_allocate content memory
  refine ⟨by simp [akin.size], fun spot => ?_, fun name => enduring_option keeps (akin.globals name),
    akin.output, akin.callables, akin.clock, akin.readings⟩
  have before := enduring_option keeps (akin.cells spot)
  simp only [Array.getElem?_push, akin.size]
  split
  · exact enduring_option keeps contents
  · exact before

theorem Memory.Akin.of_same (akin : memory.Akin further twin) {after twinAfter : Memory}
    (cells : after.cells = memory.cells ∧ twinAfter.cells = twin.cells)
    (globals : after.globals = memory.globals ∧ twinAfter.globals = twin.globals)
    (rest : twinAfter.output = after.output ∧ twinAfter.callables = after.callables ∧
      twinAfter.clock = after.clock ∧ twinAfter.readings = after.readings) :
    after.Akin further twinAfter := by
  have keeps : memory.Keeps after := .of_cells cells.1
  refine ⟨?_, fun spot => ?_, fun name => ?_, rest.1, rest.2.1, rest.2.2.1, rest.2.2.2⟩
  · rw [cells.1, cells.2, akin.size]
  · rw [cells.1, cells.2]
    exact enduring_option keeps (akin.cells spot)
  · rw [globals.1, globals.2]
    exact enduring_option keeps (akin.globals name)

end Changes
end LoxLang.Lexical
