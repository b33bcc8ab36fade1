import Std.Data.TreeMap
import LoxLang.Value
/-!
Frames of variable bindings. A frame is opened inside a parent, which never changes, and stays in
the store for good, so whoever knows its number can go on using it. A name is looked up either by
searching outwards or in the frame a known number of parents away.
-/
namespace LoxLang

structure Frame where
  bindings : Std.TreeMap String Value
  parent : Option FrameId

structure Store where
  frames : Array Frame

namespace Store

def empty : Store := ⟨#[]⟩

def next (store : Store) : FrameId := store.frames.size

def push (store : Store) (parent : Option FrameId) : Store :=
  ⟨store.frames.push ⟨∅, parent⟩⟩

def parent? (store : Store) (frame : FrameId) : Option FrameId :=
  match store.frames[frame]? with
  | none => none
  | some found => found.parent

/-- What a name is bound to in exactly this frame. -/
def bound? (store : Store) (frame : FrameId) (name : String) : Option Value :=
  match store.frames[frame]? with
  | none => none
  | some found => found.bindings[name]?

/-- Binds a name in this frame, in place of what it was bound to there. -/
def define (store : Store) (frame : FrameId) (name : String) (value : Value) : Store :=
  ⟨store.frames.modify frame fun found =>
    { found with bindings := found.bindings.insert name value }⟩

/-- The nearest frame, from this one outwards, that binds a name. Parents are older than the frames
opened in them. -/
def holder? (store : Store) (frame : FrameId) (name : String) : Option FrameId :=
  match store.bound? frame name with
  | some _ => some frame
  | none =>
    match store.parent? frame with
    | none => none
    | some parent => if parent < frame then store.holder? parent name else none
termination_by frame

def lookUp? (store : Store) (frame : FrameId) (name : String) : Option Value :=
  match store.holder? frame name with
  | none => none
  | some holder => store.bound? holder name

/-- Assignment changes a binding that is there and makes none. -/
def assign? (store : Store) (frame : FrameId) (name : String) (value : Value) : Option Store :=
  match store.holder? frame name with
  | none => none
  | some holder => some (store.define holder name value)

def ancestor? (store : Store) (frame : FrameId) : Nat → Option FrameId
  | 0 => some frame
  | distance + 1 =>
    match store.parent? frame with
    | none => none
    | some parent => store.ancestor? parent distance

def lookUpAt? (store : Store) (frame : FrameId) (distance : Nat) (name : String) : Option Value :=
  match store.ancestor? frame distance with
  | none => none
  | some ancestor => store.bound? ancestor name

/-- Binds a name in the frame so many parents away, whether or not it was bound there. -/
def assignAt? (store : Store) (frame : FrameId) (distance : Nat) (name : String)
    (value : Value) : Option Store :=
  match store.ancestor? frame distance with
  | none => none
  | some ancestor => some (store.define ancestor name value)

@[simp] theorem next_define (store : Store) (frame : FrameId) (name : String) (value : Value) :
    (store.define frame name value).next = store.next := by
  simp [next, define]

@[simp] theorem next_push (store : Store) (parent : Option FrameId) :
    (store.push parent).next = store.next + 1 := by
  simp [next, push]

theorem parent?_push (store : Store) (parent : Option FrameId) (frame : FrameId) :
    (store.push parent).parent? frame =
      if frame = store.next then parent else store.parent? frame := by
  simp only [parent?, push, next, Array.getElem?_push]
  by_cases here : frame = store.frames.size <;> simp [here]

theorem bound?_push (store : Store) (parent : Option FrameId) (frame : FrameId) (name : String) :
    (store.push parent).bound? frame name = store.bound? frame name := by
  simp only [bound?, push, Array.getElem?_push]
  by_cases here : frame = store.frames.size <;> simp [here]

theorem parent?_define (store : Store) (frame other : FrameId) (name : String) (value : Value) :
    (store.define frame name value).parent? other = store.parent? other := by
  simp only [parent?, define, Array.getElem?_modify]
  by_cases here : frame = other
  · cases store.frames[other]? <;> simp [here]
  · simp [here]

theorem bound?_define (store : Store) (frame other : FrameId) (name sought : String)
    (value : Value) :
    (store.define frame name value).bound? other sought =
      if frame = other ∧ name = sought ∧ other < store.next then some value
      else store.bound? other sought := by
  simp only [bound?, define, next, Array.getElem?_modify]
  by_cases here : frame = other
  · subst here
    cases found : store.frames[frame]? with
    | none =>
      have outside : ¬ frame < store.frames.size :=
        Nat.not_lt.mpr (Array.getElem?_eq_none_iff.mp found)
      simp [outside]
    | some content =>
      obtain ⟨inside, _⟩ := Array.getElem?_eq_some_iff.mp found
      by_cases equal : name = sought
      · simp [equal, inside]
      · simp [equal, Std.TreeMap.getElem?_insert]
  · simp [here]

end Store
end LoxLang
