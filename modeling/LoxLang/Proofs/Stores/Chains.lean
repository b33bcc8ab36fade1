import LoxLang.Store

/-!
Chains of frames. Parents are older than the frames opened in them, in every store that can be built, so
from each frame a chain of parents leads outwards and ends. A search ends at the first frame of the
chain that binds the name, and a distance is a place on the chain.
-/
namespace LoxLang
namespace Store

/-- The frames from this one outwards: its parents in turn, up to one that has none. -/
inductive Chain (store : Store) : FrameId → List FrameId → Prop
  | outermost {frame : FrameId} : store.parent? frame = none → Chain store frame [frame]
  | inside {frame parent : FrameId} {outer : List FrameId} : store.parent? frame = some parent →
    Chain store parent outer → Chain store frame (frame :: outer)

/-- Parents are older than the frames opened in them. -/
def Ordered (store : Store) : Prop :=
  ∀ frame parent, store.parent? frame = some parent → parent < frame

def binds (store : Store) (name : String) (frame : FrameId) : Bool :=
  (store.bound? frame name).isSome

/-- The ways to bind a name: in the frame itself, in the nearest frame that binds it already, or in the
frame so many parents away. -/
inductive Write where
  | define
  | assign
  | assignAt (distance : Nat)

/-- The answer to a write that may be refused, and the store behind it. -/
def settled (store : Store) : Option Store → Bool × Store
  | some after => (true, after)
  | none => (false, store)

def write (store : Store) (how : Write) (frame : FrameId) (name : String) (value : Value) :
    Bool × Store :=
  match how with
  | .define => (true, store.define frame name value)
  | .assign => store.settled (store.assign? frame name value)
  | .assignAt distance => store.settled (store.assignAt? frame distance name value)

/-- One operation, on a frame that is there. -/
inductive Changes (before : Store) : Store → Prop
  | openGlobal : Changes before (before.push none)
  | openScope {parent : FrameId} : parent < before.next → Changes before (before.push (some parent))
  | write (how : Write) {frame : FrameId} (name : String) (value : Value) : frame < before.next →
    Changes before (before.write how frame name value).2

/-- What any sequence of operations leads to. -/
inductive Built : Store → Prop
  | empty : Built .empty
  | changed {before after : Store} : Built before → before.Changes after → Built after

def target? (store : Store) (how : Write) (frame : FrameId) (name : String) : Option FrameId :=
  match how with
  | .define => some frame
  | .assign => store.holder? frame name
  | .assignAt distance => store.ancestor? frame distance

section Writes

variable {store : Store} {how : Write} {frame : FrameId} {name : String}

theorem write_eq (value : Value) :
    store.write how frame name value = store.settled
      ((store.target? how frame name).map fun target => store.define target name value) := by
  cases how with
  | define => rfl
  | assign =>
    simp only [write, target?, assign?]
    cases store.holder? frame name <;> rfl
  | assignAt distance =>
    simp only [write, target?, assignAt?]
    cases store.ancestor? frame distance <;> rfl

end Writes

namespace Ordered

variable {store : Store}

theorem define (ordered : store.Ordered) (frame : FrameId) (name : String) (value : Value) :
    (store.define frame name value).Ordered := by
  intro other parent found
  rw [parent?_define] at found
  exact ordered other parent found

theorem push (ordered : store.Ordered) {parent : Option FrameId}
    (old : ∀ above ∈ parent, above < store.next) : (store.push parent).Ordered := by
  intro frame above found
  rw [parent?_push] at found
  split at found
  · rename_i here
    exact here ▸ old above found
  · exact ordered frame above found

theorem changed {after : Store} (ordered : store.Ordered) (changes : store.Changes after) :
    after.Ordered := by
  cases changes with
  | openGlobal => exact ordered.push nofun
  | openScope old =>
    refine ordered.push fun above same => ?_
    cases same
    exact old
  | @write how frame name value _ =>
    rw [write_eq]
    cases store.target? how frame name with
    | none => exact ordered
    | some target => exact ordered.define target name value

end Ordered

theorem Built.ordered {store : Store} (built : store.Built) : store.Ordered := by
  induction built with
  | empty =>
    intro frame parent found
    simp [parent?, Store.empty] at found
  | changed _ changes ih => exact ih.changed changes

theorem Ordered.exists_chain {store : Store} (ordered : store.Ordered) (frame : FrameId) :
    ∃ chain, store.Chain frame chain := by
  induction frame using Nat.strongRecOn with
  | ind frame ih =>
    cases above : store.parent? frame with
    | none => exact ⟨[frame], .outermost above⟩
    | some parent =>
      obtain ⟨outer, rest⟩ := ih parent (ordered frame parent above)
      exact ⟨frame :: outer, .inside above rest⟩

namespace Chain

variable {store : Store} {frame : FrameId} {chain : List FrameId}

theorem unique {other : List FrameId} (first : store.Chain frame chain)
    (second : store.Chain frame other) : chain = other := by
  induction first generalizing other with
  | outermost above =>
    cases second with
    | outermost _ => rfl
    | inside found _ => simp [above] at found
  | inside above _ ih =>
    cases second with
    | outermost found => simp [above] at found
    | inside found rest =>
      cases above.symm.trans found
      rw [ih rest]

theorem mem_first (is : store.Chain frame chain) : frame ∈ chain := by
  cases is <;> exact List.mem_cons_self

theorem le (is : store.Chain frame chain) (ordered : store.Ordered) :
    ∀ other ∈ chain, other ≤ frame := by
  induction is with
  | outermost _ => simp
  | inside above _ ih =>
    intro other member
    rcases List.mem_cons.mp member with here | outside
    · exact Nat.le_of_eq here
    · exact Nat.le_trans (ih other outside) (Nat.le_of_lt (ordered _ _ above))

theorem moved {other : Store} (is : store.Chain frame chain)
    (same : ∀ member ∈ chain, other.parent? member = store.parent? member) :
    other.Chain frame chain := by
  induction is with
  | outermost above => exact .outermost ((same _ (List.mem_singleton.mpr rfl)).trans above)
  | inside above _ ih =>
    have here := same _ List.mem_cons_self
    exact .inside (here.trans above) (ih fun member outside =>
      same member (List.mem_cons_of_mem _ outside))

theorem define (is : store.Chain frame chain) (target : FrameId) (name : String) (value : Value) :
    (store.define target name value).Chain frame chain :=
  is.moved fun member _ => parent?_define store target member name value

theorem push (is : store.Chain frame chain) (ordered : store.Ordered) (old : frame < store.next)
    (parent : Option FrameId) : (store.push parent).Chain frame chain := by
  refine is.moved fun member found => ?_
  have inside := Nat.lt_of_le_of_lt (is.le ordered member found) old
  rw [parent?_push, if_neg (Nat.ne_of_lt inside)]

theorem ancestor? (is : store.Chain frame chain) (distance : Nat) :
    store.ancestor? frame distance = chain[distance]? := by
  induction is generalizing distance with
  | outermost above =>
    cases distance with
    | zero => rfl
    | succ distance => simp [Store.ancestor?, above]
  | inside above _ ih =>
    cases distance with
    | zero => rfl
    | succ distance => simpa [Store.ancestor?, above] using ih distance

theorem holder? (is : store.Chain frame chain) (ordered : store.Ordered) (name : String) :
    store.holder? frame name = chain.find? (store.binds name) := by
  induction is with
  | outermost above =>
    rw [Store.holder?, List.find?_cons, binds]
    cases found : store.bound? _ name with
    | none => simp [above]
    | some value => rfl
  | inside above _ ih =>
    rw [Store.holder?, List.find?_cons, binds]
    cases found : store.bound? _ name with
    | none => simp [above, ordered _ _ above, ih]
    | some value => rfl

theorem lookUp? (is : store.Chain frame chain) (ordered : store.Ordered) (name : String) :
    store.lookUp? frame name = chain.findSome? fun other => store.bound? other name := by
  rw [Store.lookUp?, is.holder? ordered]
  clear is
  induction chain with
  | nil => rfl
  | cons first rest ih =>
    rw [List.find?_cons, List.findSome?_cons, binds]
    cases found : store.bound? first name with
    | none => exact ih
    | some value => simp [found]

end Chain

end Store
end LoxLang
