import Mathlib
import LoxLang.Proofs.Stores.Chains

/-!
What reads and writes see. A search for a name ends at the nearest frame that binds it, so it does the
same as going there by the distance. A write changes one binding of one frame, and it is seen from
those frames for which that one is now the nearest that binds the name, and from no others.
-/
namespace LoxLang
namespace Store

/-- So many places outwards on the chain, the name is bound. -/
def BoundAt (store : Store) (chain : List FrameId) (name : String) (distance : Nat) : Prop :=
  ∃ frame ∈ chain[distance]?, store.binds name frame = true

/-- The least distance at which the name is bound. -/
def Nearest (store : Store) (chain : List FrameId) (name : String) (distance : Nat) : Prop :=
  IsLeast {away | store.BoundAt chain name away} distance

def Shows (store : Store) (viewer : FrameId) (name : String) (holder : FrameId) : Prop :=
  ∃ chain distance, store.Chain viewer chain ∧ store.Nearest chain name distance ∧
    chain[distance]? = some holder

section Searches

variable {store : Store} {frame holder : FrameId} {chain : List FrameId} {name : String}
  {distance : Nat}

theorem bound?_of_not_binds (free : store.binds name frame = false) :
    store.bound? frame name = none := by
  simpa [binds] using free

theorem nearest_iff : (∃ distance, store.Nearest chain name distance ∧ chain[distance]? = some holder) ↔
    chain.find? (store.binds name) = some holder := by
  rw [List.find?_eq_some_iff_getElem]
  constructor
  · rintro ⟨distance, ⟨⟨frame, found, bound⟩, least⟩, here⟩
    cases found.symm.trans here
    obtain ⟨inside, there⟩ := List.getElem?_eq_some_iff.mp here
    refine ⟨bound, distance, inside, there, fun nearer before => ?_⟩
    cases free : store.binds name chain[nearer] with
    | false => rfl
    | true =>
      have late := least ⟨chain[nearer], List.getElem?_eq_getElem _, free⟩
      exact absurd before (Nat.not_lt.mpr late)
  · rintro ⟨bound, distance, inside, there, free⟩
    have here : chain[distance]? = some holder := List.getElem?_eq_some_iff.mpr ⟨inside, there⟩
    refine ⟨distance, ⟨⟨holder, here, bound⟩, fun away ⟨frame, found, binds⟩ => ?_⟩, here⟩
    by_cases before : away < distance
    · obtain ⟨_, same⟩ := List.getElem?_eq_some_iff.mp found
      have none := free away before
      rw [same, binds] at none
      cases none
    · exact Nat.not_lt.mp before

/-- What a search finds is the nearest frame that binds the name. -/
theorem shows_iff (ordered : store.Ordered) :
    store.Shows frame name holder ↔ store.holder? frame name = some holder := by
  obtain ⟨chain, is⟩ := ordered.exists_chain frame
  rw [is.holder? ordered, ← nearest_iff]
  constructor
  · rintro ⟨other, distance, also, nearest⟩
    cases is.unique also
    exact ⟨distance, nearest⟩
  · rintro ⟨distance, nearest⟩
    exact ⟨chain, distance, is, nearest⟩

/-- The search and the walk by the distance end at the same frame. -/
theorem Chain.holder?_eq_ancestor? (is : store.Chain frame chain) (ordered : store.Ordered)
    (nearest : store.Nearest chain name distance) :
    store.holder? frame name = store.ancestor? frame distance := by
  obtain ⟨holder, found, _⟩ := nearest.1
  rw [is.holder? ordered, is.ancestor?, found]
  exact nearest_iff.mp ⟨distance, nearest, found⟩

theorem Chain.lookUpAt?_eq_none (is : store.Chain frame chain)
    (free : ¬ store.BoundAt chain name distance) : store.lookUpAt? frame distance name = none := by
  rw [Store.lookUpAt?, is.ancestor?]
  cases found : chain[distance]? with
  | none => rfl
  | some holder =>
    cases bound : store.binds name holder with
    | true => exact absurd ⟨holder, found, bound⟩ free
    | false => exact bound?_of_not_binds bound

theorem Chain.lookUpAt?_isSome (is : store.Chain frame chain)
    (bound : store.BoundAt chain name distance) : (store.lookUpAt? frame distance name).isSome := by
  obtain ⟨holder, found, binds⟩ := bound
  rw [Store.lookUpAt?, is.ancestor?, found]
  exact binds

theorem Chain.holder?_eq_none (is : store.Chain frame chain) (ordered : store.Ordered)
    (free : ∀ distance, ¬ store.BoundAt chain name distance) : store.holder? frame name = none := by
  rw [is.holder? ordered, List.find?_eq_none]
  intro holder member binds
  obtain ⟨distance, inside, there⟩ := List.mem_iff_getElem.mp member
  exact free distance ⟨holder, List.getElem?_eq_some_iff.mpr ⟨inside, there⟩, binds⟩

end Searches

/-- With the name bound nearest at a distance, searching reads and assigns as going there does, and
nothing nearer can be read; with the name bound nowhere on the chain, all of it fails and changes
nothing, and so does a distance that goes beyond the chain. -/
theorem searched_access_resolved {store : Store} (built : store.Built) (frame : FrameId)
    (name : String) (value : Value) :
    ∃ chain, store.Chain frame chain ∧
      (∀ distance, store.Nearest chain name distance →
        store.lookUp? frame name = store.lookUpAt? frame distance name ∧
        (store.lookUp? frame name).isSome ∧
        (∀ nearer, nearer < distance → store.lookUpAt? frame nearer name = none) ∧
        store.write .assign frame name value = store.write (.assignAt distance) frame name value ∧
        (store.write .assign frame name value).1 = true) ∧
      ((∀ distance, ¬ store.BoundAt chain name distance) →
        store.lookUp? frame name = none ∧ (∀ distance, store.lookUpAt? frame distance name = none) ∧
        store.write .assign frame name value = (false, store)) ∧
      ∀ distance, chain.length ≤ distance → store.lookUpAt? frame distance name = none ∧
        store.write (.assignAt distance) frame name value = (false, store) := by
  have ordered := built.ordered
  obtain ⟨chain, is⟩ := ordered.exists_chain frame
  refine ⟨chain, is, fun distance nearest => ?_, fun free => ?_, fun distance beyond => ?_⟩
  -- The search ends at the nearest frame, which is the one that the distance counts to.
  · have same := is.holder?_eq_ancestor? ordered nearest
    have reads : store.lookUp? frame name = store.lookUpAt? frame distance name := by
      rw [lookUp?, lookUpAt?, same]
    refine ⟨reads, reads ▸ is.lookUpAt?_isSome nearest.1, fun nearer before => ?_, ?_, ?_⟩
    · refine is.lookUpAt?_eq_none fun bound => ?_
      exact absurd before (Nat.not_lt.mpr (nearest.2 bound))
    · simp only [write_eq, target?, same]
    · obtain ⟨holder, found, _⟩ := nearest.1
      simp only [write_eq, target?, same, is.ancestor?, Option.mem_def.mp found]
      rfl
  -- Bound nowhere on the chain: neither way finds anything or writes anywhere.
  · have nowhere := is.holder?_eq_none ordered free
    refine ⟨by rw [lookUp?, nowhere], fun distance => is.lookUpAt?_eq_none (free distance), ?_⟩
    simp only [write_eq, target?, nowhere]
    rfl
  · have beyond := List.getElem?_eq_none_iff.mpr beyond
    constructor
    · rw [lookUpAt?, is.ancestor?, beyond]
    · simp only [write_eq, target?, is.ancestor?, beyond]
      rfl

/-- A name that is bound outside and again inside, and a frame opened in that one. -/
def shadowed : Store :=
  ((((Store.empty.push none).write .define 0 "a" (.boolean false)).2.push (some 0)).write
    .define 1 "a" (.boolean true)).2.push (some 1)

theorem shadowed_built : shadowed.Built :=
  .changed (.changed (.changed (.changed (.changed .empty .openGlobal)
    (.write .define "a" (.boolean false) (by decide))) (.openScope (by decide)))
    (.write .define "a" (.boolean true) (by decide))) (.openScope (by decide))

theorem shadowed_chain : shadowed.Chain 2 [2, 1, 0] :=
  .inside rfl (.inside rfl (.outermost rfl))

theorem searched_access_resolved_shadowed :
    shadowed.Built ∧ shadowed.lookUp? 2 "a" = shadowed.lookUpAt? 2 1 "a" ∧
      shadowed.lookUpAt? 2 0 "a" = none ∧
      shadowed.write .assign 2 "a" .nil = shadowed.write (.assignAt 1) 2 "a" .nil ∧
      shadowed.write (.assignAt 5) 2 "a" .nil = (false, shadowed) := by
  obtain ⟨chain, is, found, _, beyond⟩ :=
    searched_access_resolved shadowed_built 2 "a" .nil
  cases is.unique shadowed_chain
  have nearest : shadowed.Nearest [2, 1, 0] "a" 1 := by
    refine ⟨⟨1, rfl, by decide +kernel⟩, fun away bound => Nat.one_le_iff_ne_zero.mpr ?_⟩
    rintro rfl
    obtain ⟨frame, here, binds⟩ := bound
    cases here
    exact absurd binds (by decide +kernel)
  obtain ⟨reads, _, nearer, assigns, _⟩ := found 1 nearest
  exact ⟨shadowed_built, reads, nearer 0 (by decide), assigns, (beyond 5 (by decide)).2⟩

/-- Where a write on a chain goes: to its first frame, to the nearest one that binds the name, or to the one
at the distance. -/
def Reaches (store : Store) (how : Write) (frame : FrameId) (name : String) (target : FrameId) : Prop :=
  match how with
  | .define => target = frame
  | .assign => store.Shows frame name target
  | .assignAt distance => ∃ chain, store.Chain frame chain ∧ chain[distance]? = some target

section Writes

variable {store : Store} {how : Write} {frame target : FrameId} {name : String}

theorem reaches_iff (ordered : store.Ordered) :
    store.Reaches how frame name target ↔ store.target? how frame name = some target := by
  cases how with
  | define => simp [Reaches, target?, eq_comm]
  | assign => exact shows_iff ordered
  | assignAt distance =>
    obtain ⟨chain, is⟩ := ordered.exists_chain frame
    rw [target?, is.ancestor?]
    constructor
    · rintro ⟨other, also, found⟩
      cases is.unique also
      exact found
    · exact fun found => ⟨chain, is, found⟩

theorem bound?_written {value : Value} (inside : target < store.next) (other : FrameId)
    (sought : String) : (store.define target name value).bound? other sought =
      if other = target ∧ sought = name then some value else store.bound? other sought := by
  rw [bound?_define]
  by_cases here : other = target ∧ sought = name
  · obtain ⟨rfl, rfl⟩ := here
    rw [if_pos ⟨rfl, rfl, inside⟩, if_pos ⟨rfl, rfl⟩]
  · rw [if_neg here, if_neg fun same => here ⟨same.1.symm, same.2.1.symm⟩]

theorem findSome?_written {value : Value} (inside : target < store.next) (chain : List FrameId)
    (sought : String) :
    (chain.findSome? fun other => (store.define target name value).bound? other sought) =
      if sought = name ∧ chain.find? ((store.define target name value).binds name) = some target then
        some value
      else chain.findSome? fun other => store.bound? other sought := by
  by_cases same : sought = name
  · subst same
    induction chain with
    | nil => simp
    | cons first rest ih =>
      simp only [List.findSome?_cons, List.find?_cons, binds] at ih ⊢
      by_cases here : first = target
      · simp [bound?_written inside, here]
      · -- a frame that was not written to binds what it bound before
        have kept : (store.define target sought value).bound? first sought =
            store.bound? first sought := by
          rw [bound?_written inside, if_neg fun same => here same.1]
        rw [kept]
        cases bound : store.bound? first sought with
        | none => simpa using ih
        | some old => simp [here]
  · have kept : ∀ other, (store.define target name value).bound? other sought =
        store.bound? other sought := fun other => by
      rw [bound?_written inside, if_neg fun both => same both.2]
    simp only [kept, same, false_and, ↓reduceIte]

theorem target?_lt (ordered : store.Ordered) (inside : frame < store.next)
    (found : store.target? how frame name = some target) : target < store.next := by
  obtain ⟨chain, is⟩ := ordered.exists_chain frame
  have on : target ∈ chain := by
    cases how with
    | define =>
      cases found
      exact is.mem_first
    | assign =>
      rw [target?, is.holder? ordered] at found
      exact List.mem_of_find?_eq_some found
    | assignAt distance =>
      rw [target?, is.ancestor?] at found
      exact List.mem_of_getElem? found
  exact Nat.lt_of_le_of_lt (is.le ordered target on) inside

theorem lookUp?_written {value : Value} (ordered : store.Ordered) (inside : target < store.next)
    (viewer : FrameId) (sought : String) :
    (store.define target name value).lookUp? viewer sought =
      if sought = name ∧ (store.define target name value).holder? viewer name = some target then
        some value
      else store.lookUp? viewer sought := by
  have after := ordered.define target name value
  obtain ⟨chain, is⟩ := ordered.exists_chain viewer
  have kept := is.define target name value
  rw [kept.lookUp? after, kept.holder? after, is.lookUp? ordered, findSome?_written inside]

end Writes

section Scopes

variable {store : Store} {parent : FrameId}

theorem bound?_outside {frame : FrameId} (outside : store.next ≤ frame) (name : String) :
    store.bound? frame name = none := by
  rw [bound?, Array.getElem?_eq_none outside]

theorem lookUp?_push_old (ordered : store.Ordered) (inside : parent < store.next) {viewer : FrameId}
    (old : viewer < store.next) (name : String) :
    (store.push (some parent)).lookUp? viewer name = store.lookUp? viewer name := by
  obtain ⟨chain, is⟩ := ordered.exists_chain viewer
  have kept := is.push ordered old (some parent)
  rw [kept.lookUp? (ordered.changed (.openScope inside)), is.lookUp? ordered]
  simp only [bound?_push]

theorem lookUp?_push_new (ordered : store.Ordered) (inside : parent < store.next) (name : String) :
    (store.push (some parent)).lookUp? store.next name = store.lookUp? parent name := by
  obtain ⟨chain, is⟩ := ordered.exists_chain parent
  have above : (store.push (some parent)).parent? store.next = some parent := by
    rw [parent?_push, if_pos rfl]
  have new := Chain.inside above (is.push ordered inside (some parent))
  rw [new.lookUp? (ordered.changed (.openScope inside)), is.lookUp? ordered, List.findSome?_cons,
    bound?_push, bound?_outside (Nat.le_refl _)]
  simp only [bound?_push]

end Scopes

/-- A write that succeeds changes one binding of one frame. It is seen as this name from the frames that
reach that frame first, and every other look-up finds what it found before. A frame that is opened
changes nothing for those that are there, and sees what its parent sees. -/
theorem writes_seen_through_sharing {store : Store} (built : store.Built) :
    (∀ how frame name value after, frame < store.next →
      store.write how frame name value = (true, after) →
      ∃ target, store.Reaches how frame name target ∧
        (∀ other, after.parent? other = store.parent? other) ∧
        (∀ other sought, after.bound? other sought =
          if other = target ∧ sought = name then some value else store.bound? other sought) ∧
        ∀ viewer sought,
          (sought = name ∧ after.Shows viewer name target →
            after.lookUp? viewer sought = some value) ∧
          (¬ (sought = name ∧ after.Shows viewer name target) →
            after.lookUp? viewer sought = store.lookUp? viewer sought)) ∧
    ∀ parent, parent < store.next →
      (∀ viewer name, viewer < store.next →
        (store.push (some parent)).lookUp? viewer name = store.lookUp? viewer name) ∧
      ∀ name, (store.push (some parent)).lookUp? store.next name = store.lookUp? parent name := by
  have ordered := built.ordered
  constructor
  · intro how frame name value after inside written
    rw [write_eq] at written
    cases found : store.target? how frame name with
    | none => simp [found, settled] at written
    | some target =>
      rw [found] at written
      cases written
      -- The write stays on the chain, so the frame it goes to is one that is there.
      have there := target?_lt ordered inside found
      refine ⟨target, (reaches_iff ordered).mpr found, fun other => parent?_define store target other name value,
        bound?_written there, fun viewer sought => ?_⟩
      rw [shows_iff (ordered.define target name value), lookUp?_written ordered there]
      constructor
      · exact fun here => if_pos here
      · exact fun elsewhere => if_neg elsewhere
  · exact fun parent inside => ⟨fun viewer name old => lookUp?_push_old ordered inside old name,
      lookUp?_push_new ordered inside⟩

theorem writes_seen_through_sharing_shadowed :
    shadowed.Built ∧ ∃ after, shadowed.write .assign 2 "a" .nil = (true, after) ∧
      after.lookUp? 2 "a" = some .nil ∧ after.lookUp? 0 "a" = shadowed.lookUp? 0 "a" := by
  have before := shadowed_built.ordered
  have finds : shadowed.holder? 2 "a" = some 1 :=
    (shadowed_chain.holder? before "a").trans (by decide +kernel)
  have written : shadowed.write .assign 2 "a" .nil = (true, shadowed.define 1 "a" .nil) := by
    rw [write_eq, target?, finds]
    rfl
  have ordered := before.define 1 "a" .nil
  have inner := shadowed_chain.define 1 "a" .nil
  have outer : (shadowed.define 1 "a" .nil).Chain 0 [0] := .outermost rfl
  obtain ⟨target, reaches, _, _, seen⟩ :=
    (writes_seen_through_sharing shadowed_built).1 .assign 2 "a" .nil _ (by decide) written
  cases finds.symm.trans ((reaches_iff before).mp reaches)
  refine ⟨shadowed_built, _, written, (seen 2 "a").1 ⟨rfl, ?_⟩, (seen 0 "a").2 fun both => ?_⟩
  · rw [shows_iff ordered, inner.holder? ordered]
    decide +kernel
  · have shows := both.2
    rw [shows_iff ordered, outer.holder? ordered] at shows
    revert shows
    decide +kernel

end Store
end LoxLang
