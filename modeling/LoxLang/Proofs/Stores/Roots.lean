import LoxLang.Proofs.Evaluation.Operators
import LoxLang.Proofs.Evaluation.Growth
import LoxLang.Proofs.Stores.Chains

/-!
Stores that grow from one global frame. Every other frame was opened inside one that was there before,
so that all chains of parents end at the global frame, and every function keeps a frame of the store.
-/
namespace LoxLang

/-- A function has been declared in a frame that is there. -/
def CallableOver.Anchored (store : Store) : Callable → Prop
  | .native _ => True
  | .function _ closure => closure < store.next

def ValueOver.Anchored (store : Store) : Value → Prop
  | .callable _ target => target.Anchored store
  | _ => True

namespace ValueOver.Anchored

variable {before after : Store} {value : Value}

theorem later (anchored : value.Anchored before) (more : before.next ≤ after.next) :
    value.Anchored after := by
  cases value with
  | callable identity target =>
    cases target with
    | native builtin => trivial
    | function declaration closure => exact Nat.lt_of_lt_of_le anchored more
  | _ => trivial

theorem of_plain (plain : value.Plain) : value.Anchored before := by
  cases value with
  | callable identity target => exact plain.elim
  | _ => trivial

end ValueOver.Anchored

namespace Store

structure Rooted (globals : FrameId) (store : Store) : Prop where
  room : globals < store.next
  outermost : store.parent? globals = none
  inside : ∀ frame, frame < store.next → frame ≠ globals →
    ∃ parent, store.parent? frame = some parent ∧ parent < frame
  anchored : ∀ frame name value, store.bound? frame name = some value → value.Anchored store

/-- From this frame outwards there are these frames and no others, each older than the one before it,
up to the global one; and whoever looks for a name or for a frame walks along them. -/
structure Walked (globals : FrameId) (store : Store) (frame : FrameId) (chain : List FrameId) :
    Prop where
  outwards : store.Chain frame chain
  last : chain.getLast? = some globals
  older : chain.Pairwise fun inner outer => outer < inner
  ancestor : ∀ distance, store.ancestor? frame distance = chain[distance]?
  get : ∀ name, store.lookUp? frame name = chain.findSome? fun other => store.bound? other name
  assign : ∀ name value, store.assign? frame name value =
    (chain.find? (store.binds name)).map fun holder => store.define holder name value

variable {store : Store} {globals frame : FrameId} {chain : List FrameId}

theorem Chain.older (is : store.Chain frame chain) (ordered : store.Ordered) :
    chain.Pairwise fun inner outer => outer < inner := by
  induction is with
  | outermost _ => exact List.pairwise_singleton _ _
  | inside above rest ih =>
    refine List.pairwise_cons.mpr ⟨fun outer member => ?_, ih⟩
    exact Nat.lt_of_le_of_lt (rest.le ordered outer member) (ordered _ _ above)

theorem Chain.assign? (is : store.Chain frame chain) (ordered : store.Ordered) (name : String)
    (value : Value) : store.assign? frame name value =
      (chain.find? (store.binds name)).map fun holder => store.define holder name value := by
  rw [Store.assign?, is.holder? ordered]
  cases chain.find? (store.binds name) <;> rfl

namespace Rooted

variable (rooted : store.Rooted globals)

include rooted

theorem ordered : store.Ordered := by
  intro frame parent found
  have apart : frame ≠ globals := by
    rintro rfl
    rw [rooted.outermost] at found
    cases found
  obtain ⟨above, known, older⟩ := rooted.inside frame (lt_next_of_parent? found) apart
  cases known.symm.trans found
  exact older

theorem define (frame : FrameId) (name : String) {value : Value} (good : value.Anchored store) :
    (store.define frame name value).Rooted globals := by
  refine ⟨by simpa using rooted.room, ?_, ?_, ?_⟩
  · rw [parent?_define]
    exact rooted.outermost
  · intro other old apart
    rw [parent?_define]
    exact rooted.inside other (by simpa using old) apart
  · intro other sought found bound
    have more : store.next ≤ (store.define frame name value).next := by simp
    rw [bound?_define] at bound
    split at bound
    · cases bound
      exact good.later more
    · exact (rooted.anchored other sought found bound).later more

theorem push {parent : FrameId} (old : parent < store.next) :
    (store.push (some parent)).Rooted globals := by
  have more : store.next ≤ (store.push (some parent)).next := by simp
  refine ⟨Nat.lt_of_lt_of_le rooted.room more, ?_, ?_, ?_⟩
  · rw [parent?_push, if_neg (Nat.ne_of_lt rooted.room)]
    exact rooted.outermost
  · intro frame there apart
    rw [parent?_push]
    by_cases fresh : frame = store.next
    · rw [if_pos fresh, fresh]
      exact ⟨parent, rfl, old⟩
    · rw [if_neg fresh]
      rw [next_push] at there
      exact rooted.inside frame (Nat.lt_of_le_of_ne (Nat.le_of_lt_succ there) fresh) apart
  · intro frame name value found
    rw [bound?_push] at found
    exact (rooted.anchored frame name value found).later more

theorem chain_last (is : store.Chain frame chain) (there : frame < store.next) :
    chain.getLast? = some globals := by
  induction is with
  | @outermost frame above =>
    by_cases same : frame = globals
    · rw [same, List.getLast?_singleton]
    · obtain ⟨parent, found, _⟩ := rooted.inside frame there same
      rw [above] at found
      cases found
  | @inside frame parent outer above rest ih =>
    have older := rooted.ordered frame parent above
    rw [List.getLast?_cons, ih (Nat.lt_trans older there)]
    rfl

theorem walked (there : frame < store.next) : ∃ chain, store.Walked globals frame chain := by
  obtain ⟨chain, is⟩ := rooted.ordered.exists_chain frame
  exact ⟨chain, is, rooted.chain_last is there, is.older rooted.ordered, is.ancestor?,
    is.lookUp? rooted.ordered, is.assign? rooted.ordered⟩

end Rooted
end Store
end LoxLang
