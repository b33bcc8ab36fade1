import LoxLang.Proofs.Lexical.Semantics
import LoxLang.Proofs.Evaluation.Soundness

/-!
How frames and locations go together. Every location stands for one name in one frame, its link; the
frames of a nesting carry an environment if its entries are linked to them, scope by scope. A machine
and a memory agree when linked places hold like values, and so do the globals.
-/
namespace LoxLang
namespace Lexical

/-- The name and the frame that each location stands for. -/
abbrev Links : Type := List (FrameId × String)

/-- Machine and memory side by side. -/
structure World where
  links : Links
  machine : Machine
  memory : Memory

/-- From `frame` outwards there is one frame for each scope, which the entries for the names of the
scope are linked to. -/
def Carries (links : Links) (store : Store) (globals : FrameId) :
    Nesting → FrameId → Environment → Prop
  | [], frame, environment => frame = globals ∧ environment = []
  | names :: outer, frame, environment =>
    frame ≠ globals ∧ ∃ inner rest parent, environment = inner ++ rest ∧
      inner.map Prod.fst = names ∧ (∀ entry ∈ inner, links[entry.2]? = some (frame, entry.1)) ∧
      store.parent? frame = some parent ∧ Carries links store globals outer parent rest

def World.Carries (world : World) (nesting : Nesting) (frame : FrameId)
    (environment : Environment) : Prop :=
  Lexical.Carries world.links world.machine.store world.machine.globals nesting frame environment

variable {table : Distances} {limit : Nat}

/-- Functions are alike if they are the same declaration and close over the same names, each in its
own way. -/
inductive LikeCallable (table : Distances) (limit : Nat) (world : World) :
    LoxLang.Callable → Callable → Prop
  | native (builtin : Native) : LikeCallable table limit world (.native builtin) (.native builtin)
  | function {declaration : Function} {closure : FrameId} {environment : Environment}
    {nesting : Nesting} :
    world.Carries nesting closure environment →
    (declaration.parameters.map Ident.name).Nodup →
    Stmt.ResolvedAll table ((declaration.parameters.map Ident.name).reverse :: nesting)
      declaration.body →
    Older limit (Stmt.idsAll declaration.body) →
    LikeCallable table limit world (.function declaration closure)
      (.function declaration environment)

inductive Like (table : Distances) (limit : Nat) (world : World) : LoxLang.Value → Value → Prop
  | string (text : String) : Like table limit world (.string text) (.string text)
  | number (value : Float) : Like table limit world (.number value) (.number value)
  | boolean (value : Bool) : Like table limit world (.boolean value) (.boolean value)
  | nil : Like table limit world .nil .nil
  | callable {target : LoxLang.Callable} {other : Callable} (identity : Nat) :
    LikeCallable table limit world target other →
    Like table limit world (.callable identity target) (.callable identity other)

structure World.Agrees (table : Distances) (limit : Nat) (world : World) : Prop where
  distances : world.machine.distances = table
  room : world.machine.globals < world.machine.store.next
  outermost : world.machine.store.parent? world.machine.globals = none
  size : world.links.length = world.memory.cells.size
  nodup : world.links.Nodup
  placed : ∀ link ∈ world.links,
    link.1 ≠ world.machine.globals ∧ link.1 < world.machine.store.next
  bound : ∀ frame name, frame ≠ world.machine.globals →
    (world.machine.store.bound? frame name).isSome → (frame, name) ∈ world.links
  cells : ∀ (location : Location) (frame : FrameId) (name : String),
    world.links[location]? = some (frame, name) →
    Option.Rel (Like table limit world) (world.machine.store.bound? frame name)
      world.memory.cells[location]?.join
  globals : ∀ name, Option.Rel (Like table limit world)
    (world.machine.store.bound? world.machine.globals name) world.memory.globals[name]?
  output : world.machine.output = world.memory.output
  callables : world.machine.callables = world.memory.callables
  clock : world.machine.clock = world.memory.clock
  readings : world.machine.readings = world.memory.readings

/-- Links only come in addition: for frames that are opened in the meantime, and for the one where
declarations happen `here`. -/
structure World.Extends (here : Option FrameId) (before after : World) : Prop where
  machine : before.machine.Grows after.machine
  links : before.links <+: after.links
  fresh : ∀ link ∈ after.links,
    link ∈ before.links ∨ before.machine.store.next ≤ link.1 ∨ here = some link.1

namespace World.Extends

variable {here : Option FrameId} {first middle last : World}

theorem refl (here : Option FrameId) (world : World) : world.Extends here world :=
  ⟨.refl world.machine, List.prefix_refl world.links, fun _ member => .inl member⟩

theorem trans (ahead : first.Extends here middle) (further : middle.Extends here last) :
    first.Extends here last := by
  refine ⟨ahead.machine.trans further.machine, ahead.links.trans further.links, ?_⟩
  intro link member
  rcases further.fresh link member with earlier | new | own
  · exact ahead.fresh link earlier
  · exact .inr (.inl (Nat.le_trans ahead.machine.store.next new))
  · exact .inr (.inr own)

theorem anywhere (wider : first.Extends none last) : first.Extends here last := by
  refine ⟨wider.machine, wider.links, fun link member => ?_⟩
  rcases wider.fresh link member with earlier | new | never
  · exact .inl earlier
  · exact .inr (.inl new)
  · cases never

theorem inside {frame : FrameId} (new : first.machine.store.next ≤ frame)
    (wider : first.Extends (some frame) last) : first.Extends none last := by
  refine ⟨wider.machine, wider.links, fun link member => ?_⟩
  rcases wider.fresh link member with earlier | later | same
  · exact .inl earlier
  · exact .inr (.inl later)
  · cases same
    exact .inr (.inl new)

theorem link {location : Location} {place : FrameId × String} (wider : first.Extends here last)
    (found : first.links[location]? = some place) : last.links[location]? = some place := by
  obtain ⟨inside, _⟩ := List.getElem?_eq_some_iff.mp found
  obtain ⟨more, grown⟩ := wider.links
  rw [← grown, List.getElem?_append_left inside, found]

end World.Extends

section Lasting

variable {here : Option FrameId} {before after : World}

theorem Carries.grows {links more : Links} {store grown : Store} {globals : FrameId}
    {nesting : Nesting} {frame : FrameId} {environment : Environment}
    (carries : Carries links store globals nesting frame environment)
    (linked : ∀ (location : Location) (place : FrameId × String),
      links[location]? = some place → more[location]? = some place)
    (grows : store.Grows grown) : Carries more grown globals nesting frame environment := by
  induction nesting generalizing frame environment with
  | nil => exact carries
  | cons names outer ih =>
    obtain ⟨apart, inner, rest, parent, split, same, links, above, outside⟩ := carries
    exact ⟨apart, inner, rest, parent, split, same,
      fun entry member => linked _ _ (links entry member), grows.parent_some above, ih outside⟩

theorem World.Carries.extends {nesting : Nesting} {frame : FrameId} {environment : Environment}
    (carries : before.Carries nesting frame environment) (wider : before.Extends here after) :
    after.Carries nesting frame environment := by
  unfold World.Carries
  rw [wider.machine.globals]
  exact Lexical.Carries.grows carries (fun _ _ => wider.link) wider.machine.store

theorem Like.imp {later : Distances} {higher : Nat} {value : LoxLang.Value} {other : Value}
    (like : Like table limit before value other)
    (carried : ∀ {nesting frame environment}, before.Carries nesting frame environment →
      after.Carries nesting frame environment)
    (kept : ∀ {nesting body}, Stmt.ResolvedAll table nesting body →
      Older limit (Stmt.idsAll body) →
      Stmt.ResolvedAll later nesting body ∧ Older higher (Stmt.idsAll body)) :
    Like later higher after value other := by
  cases like with
  | string text => exact .string text
  | number value => exact .number value
  | boolean value => exact .boolean value
  | nil => exact .nil
  | callable identity like =>
    refine .callable identity ?_
    cases like with
    | native builtin => exact .native builtin
    | function carries nodup resolved older =>
      obtain ⟨resolvedLater, olderLater⟩ := kept resolved older
      exact .function (carried carries) nodup resolvedLater olderLater

theorem Like.extends {value : LoxLang.Value} {other : Value} (like : Like table limit before value other)
    (wider : before.Extends here after) : Like table limit after value other :=
  like.imp (fun carries => carries.extends wider) fun resolved older => ⟨resolved, older⟩

theorem Like.option {value : Option LoxLang.Value} {other : Option Value}
    (like : Option.Rel (Like table limit before) value other) (wider : before.Extends here after) :
    Option.Rel (Like table limit after) value other := by
  cases like with
  | some like => exact .some (like.extends wider)
  | none => exact .none

end Lasting
section Lookup

variable {links : Links} {store : Store} {globals frame : FrameId} {nesting : Nesting}
  {environment : Environment} {name : String}

theorem lookup_of_not_mem {inner : Environment} (absent : name ∉ inner.map Prod.fst) :
    inner.lookup name = none := by
  rw [List.lookup_eq_none_iff]
  intro entry member
  have different : name ≠ entry.1 := fun same => absent (same ▸ List.mem_map_of_mem member)
  simpa using different

theorem Carries.lookup_none (carries : Carries links store globals nesting frame environment)
    (outside : nesting.distance? name = none) : environment.lookup name = none := by
  induction nesting generalizing frame environment with
  | nil => rw [carries.2, List.lookup_nil]
  | cons names outer ih =>
    obtain ⟨_, inner, rest, parent, rfl, rfl, _, _, further⟩ := carries
    rw [Nesting.distance?_cons] at outside
    split at outside
    · cases outside
    · rename_i absent
      rw [List.lookup_append, lookup_of_not_mem absent, Option.none_or]
      exact ih further (by simpa using outside)

theorem Carries.lookup_some {distance : Nat}
    (carries : Carries links store globals nesting frame environment)
    (found : nesting.distance? name = some distance) :
    ∃ holder location, store.ancestor? frame distance = some holder ∧
      environment.lookup name = some location ∧ links[location]? = some (holder, name) := by
  induction nesting generalizing frame environment distance with
  | nil => simp [Nesting.distance?] at found
  | cons names outer ih =>
    obtain ⟨_, inner, rest, parent, rfl, rfl, linked, above, further⟩ := carries
    rw [Nesting.distance?_cons] at found
    split at found
    · rename_i present
      cases found
      cases own : inner.lookup name with
      | none =>
        obtain ⟨entry, member, same⟩ := List.mem_map.mp present
        have never := List.lookup_eq_none_iff.mp own entry member
        simp [same] at never
      | some location =>
        obtain ⟨first, last, split, _⟩ := List.lookup_eq_some_iff.mp own
        refine ⟨frame, location, rfl, by rw [List.lookup_append, own, Option.some_or], ?_⟩
        exact linked (name, location) (by simp [split])
    · rename_i absent
      obtain ⟨steps, outside, rfl⟩ := Option.map_eq_some_iff.mp found
      obtain ⟨holder, location, away, located, link⟩ := ih further outside
      refine ⟨holder, location, by simpa [Store.ancestor?, above] using away, ?_, link⟩
      rw [List.lookup_append, lookup_of_not_mem absent, Option.none_or, located]

end Lookup

namespace World

def fill (world : World) (frame : FrameId) (name : String) (value : LoxLang.Value)
    (location : Location) (other : Value) : World :=
  ⟨world.links, world.machine.define frame name value, world.memory.fill location other⟩

def setGlobal (world : World) (name : String) (value : LoxLang.Value) (other : Value) : World :=
  ⟨world.links, world.machine.define world.machine.globals name value,
    world.memory.setGlobal name other⟩

/-- Links a new location without content to a name in a frame. -/
def link (world : World) (frame : FrameId) (name : String) : World :=
  ⟨world.links ++ [(frame, name)], world.machine,
    { world.memory with cells := world.memory.cells.push none }⟩

def openFrame (world : World) (parent : FrameId) : World :=
  ⟨world.links, (world.machine.openFrame (some parent)).2, world.memory⟩

def enter (world : World) (frame : FrameId) : World :=
  ⟨world.links, { world.machine with current := frame }, world.memory⟩

end World

section Changes

variable {here : Option FrameId} {world : World} {frame : FrameId} {name : String}
  {value : LoxLang.Value} {location : Location} {other : Value}

theorem extends_fill (here : Option FrameId) (world : World) :
    world.Extends here (world.fill frame name value location other) :=
  ⟨.define world.machine frame name value, List.prefix_refl world.links,
    fun _ member => .inl member⟩

theorem extends_setGlobal (here : Option FrameId) (world : World) :
    world.Extends here (world.setGlobal name value other) :=
  ⟨.define world.machine world.machine.globals name value, List.prefix_refl world.links,
    fun _ member => .inl member⟩

theorem extends_link (world : World) :
    world.Extends (some frame) (world.link frame name) := by
  refine ⟨.refl world.machine, List.prefix_append world.links _, fun link member => ?_⟩
  rcases List.mem_append.mp member with old | new
  · exact .inl old
  · rw [List.mem_singleton.mp new]
    exact .inr (.inr rfl)

theorem extends_openFrame (here : Option FrameId) (world : World) (parent : FrameId) :
    world.Extends here (world.openFrame parent) :=
  ⟨grows_openInside parent world.machine, List.prefix_refl world.links,
    fun _ member => .inl member⟩

theorem World.Agrees.link_inj (agrees : world.Agrees table limit) {place : FrameId × String}
    {first second : Location} (ahead : world.links[first]? = some place)
    (behind : world.links[second]? = some place) : first = second := by
  obtain ⟨inside, _⟩ := List.getElem?_eq_some_iff.mp ahead
  exact (List.getElem?_inj inside agrees.nodup).mp (ahead.trans behind.symm)

theorem World.Agrees.fill (agrees : world.Agrees table limit)
    (linked : world.links[location]? = some (frame, name))
    (like : Like table limit world value other) :
    (world.fill frame name value location other).Agrees table limit := by
  have wider : world.Extends none (world.fill frame name value location other) :=
    extends_fill none world
  have place := agrees.placed _ (List.mem_of_getElem? linked)
  have inside : location < world.memory.cells.size := by
    rw [← agrees.size]
    exact (List.getElem?_eq_some_iff.mp linked).1
  have bound (spot : FrameId) (sought : String) :
      (world.fill frame name value location other).machine.store.bound? spot sought =
        if frame = spot ∧ name = sought ∧ spot < world.machine.store.next then some value
        else world.machine.store.bound? spot sought :=
    Store.bound?_define _ _ _ _ _ _
  refine ⟨agrees.distances, ?_, ?_, ?_, agrees.nodup, ?_, ?_, ?_, ?_, agrees.output,
    agrees.callables, agrees.clock, agrees.readings⟩
  · exact Nat.lt_of_lt_of_le agrees.room wider.machine.store.next
  · exact (Store.parent?_define _ _ _ _ _).trans agrees.outermost
  · simpa [World.fill, Memory.fill] using agrees.size
  · exact fun link member => ⟨(agrees.placed link member).1,
      Nat.lt_of_lt_of_le (agrees.placed link member).2 wider.machine.store.next⟩
  · intro spot sought apart has
    rw [bound] at has
    split at has
    · rename_i same
      rw [← same.1, ← same.2.1]
      exact List.mem_of_getElem? linked
    · exact agrees.bound spot sought apart has
  · intro site spot sought link
    rw [bound]
    -- No other location stands for this name in this frame.
    by_cases same : location = site
    · subst same
      cases linked.symm.trans link
      rw [if_pos ⟨rfl, rfl, place.2⟩]
      simp only [World.fill, Memory.fill, Array.getElem?_setIfInBounds_self_of_lt inside,
        Option.join_some]
      exact .some (like.extends wider)
    · rw [if_neg fun equal => same (agrees.link_inj linked (by rw [equal.1, equal.2.1]; exact link))]
      simp only [World.fill, Memory.fill, Array.getElem?_setIfInBounds_ne same]
      exact Like.option (agrees.cells site spot sought link) wider
  · intro sought
    rw [bound, if_neg fun equal => place.1 equal.1]
    exact Like.option (agrees.globals sought) wider

theorem World.Agrees.setGlobal (agrees : world.Agrees table limit)
    (like : Like table limit world value other) :
    (world.setGlobal name value other).Agrees table limit := by
  have wider : world.Extends none (world.setGlobal name value other) :=
    extends_setGlobal none world
  have bound (place : FrameId) (sought : String) :
      (world.setGlobal name value other).machine.store.bound? place sought =
        if world.machine.globals = place ∧ name = sought ∧ place < world.machine.store.next then
          some value
        else world.machine.store.bound? place sought :=
    Store.bound?_define _ _ _ _ _ _
  refine ⟨agrees.distances, ?_, ?_, agrees.size, agrees.nodup, ?_, ?_, ?_, ?_, agrees.output,
    agrees.callables, agrees.clock, agrees.readings⟩
  · exact Nat.lt_of_lt_of_le agrees.room wider.machine.store.next
  · exact (Store.parent?_define _ _ _ _ _).trans agrees.outermost
  · exact fun link member => ⟨(agrees.placed link member).1,
      Nat.lt_of_lt_of_le (agrees.placed link member).2 wider.machine.store.next⟩
  · intro place sought apart has
    rw [bound, if_neg fun equal => apart equal.1.symm] at has
    exact agrees.bound place sought apart has
  · intro site place sought link
    have apart := (agrees.placed _ (List.mem_of_getElem? link)).1
    rw [bound, if_neg fun equal => apart equal.1.symm]
    exact Like.option (agrees.cells site place sought link) wider
  · intro sought
    rw [show (world.setGlobal name value other).machine.globals = world.machine.globals from rfl,
      bound]
    have stored : (world.setGlobal name value other).memory.globals[sought]? =
        if name = sought then some other else world.memory.globals[sought]? := by
      simp [World.setGlobal, Memory.setGlobal, Std.TreeMap.getElem?_insert]
    rw [stored]
    by_cases same : name = sought
    · rw [if_pos ⟨rfl, same, agrees.room⟩, if_pos same]
      exact .some (like.extends wider)
    · rw [if_neg fun equal => same equal.2.1, if_neg same]
      exact Like.option (agrees.globals sought) wider

/-- A name that is not linked in a frame is not bound there either. -/
theorem World.Agrees.link (agrees : world.Agrees table limit)
    (apart : frame ≠ world.machine.globals) (room : frame < world.machine.store.next)
    (new : (frame, name) ∉ world.links) : (world.link frame name).Agrees table limit := by
  have wider : world.Extends (some frame) (world.link frame name) := extends_link world
  refine ⟨agrees.distances, agrees.room, agrees.outermost, ?_, ?_, ?_, ?_, ?_, ?_, agrees.output,
    agrees.callables, agrees.clock, agrees.readings⟩
  · simpa [World.link] using agrees.size
  · refine List.nodup_append.mpr ⟨agrees.nodup, by simp, ?_⟩
    intro link member other single
    rw [List.mem_singleton.mp single]
    exact fun same => new (same ▸ member)
  · intro link member
    rcases List.mem_append.mp member with old | fresh
    · exact agrees.placed link old
    · rw [List.mem_singleton.mp fresh]
      exact ⟨apart, room⟩
  · intro place sought outside has
    exact List.mem_append_left _ (agrees.bound place sought outside has)
  · intro site place sought link
    simp only [World.link, Array.getElem?_push, ← agrees.size]
    rcases Nat.lt_trichotomy site world.links.length with old | same | beyond
    · rw [World.link, List.getElem?_append_left old] at link
      rw [if_neg (Nat.ne_of_lt old)]
      exact Like.option (agrees.cells site place sought link) wider
    · rw [World.link, same, List.getElem?_concat_length] at link
      cases link
      rw [if_pos same, Option.join_some]
      -- The name is not bound there yet, for then it would have been linked.
      cases has : world.machine.store.bound? frame name with
      | none => exact .none
      | some value => exact absurd (agrees.bound frame name apart (by simp [has])) new
    · have inside := (List.getElem?_eq_some_iff.mp link).1
      rw [World.link, List.length_append, List.length_singleton] at inside
      exact absurd beyond (Nat.not_lt.mpr (Nat.le_of_lt_succ inside))
  · exact fun sought => Like.option (agrees.globals sought) wider

theorem World.Agrees.openFrame (agrees : world.Agrees table limit) (parent : FrameId) :
    (world.openFrame parent).Agrees table limit := by
  have wider : world.Extends none (world.openFrame parent) := extends_openFrame none world parent
  have bound (place : FrameId) (sought : String) :
      (world.openFrame parent).machine.store.bound? place sought =
        world.machine.store.bound? place sought := Store.bound?_push _ _ _ _
  refine ⟨agrees.distances, ?_, ?_, agrees.size, agrees.nodup, ?_, ?_, ?_, ?_, agrees.output,
    agrees.callables, agrees.clock, agrees.readings⟩
  · exact Nat.lt_of_lt_of_le agrees.room wider.machine.store.next
  · exact (wider.machine.store.parent _ agrees.room).trans agrees.outermost
  · exact fun link member => ⟨(agrees.placed link member).1,
      Nat.lt_of_lt_of_le (agrees.placed link member).2 wider.machine.store.next⟩
  · intro place sought apart has
    rw [bound] at has
    exact agrees.bound place sought apart has
  · intro site place sought link
    rw [bound]
    exact Like.option (agrees.cells site place sought link) wider
  · intro sought
    rw [show (world.openFrame parent).machine.globals = world.machine.globals from rfl, bound]
    exact Like.option (agrees.globals sought) wider

theorem World.Agrees.of_same {later : Distances} {higher : Nat} {after : World}
    (agrees : world.Agrees table limit)
    (likes : ∀ {value other}, Like table limit world value other →
      Like later higher after value other)
    (distances : after.machine.distances = later)
    (same : after.links = world.links ∧ after.machine.store = world.machine.store ∧
      after.machine.globals = world.machine.globals ∧ after.memory.cells = world.memory.cells ∧
      after.memory.globals = world.memory.globals)
    (rest : after.machine.output = after.memory.output ∧
      after.machine.callables = after.memory.callables ∧
      after.machine.clock = after.memory.clock ∧
      after.machine.readings = after.memory.readings) : after.Agrees later higher := by
  obtain ⟨links, store, globals, cells, defined⟩ := same
  obtain ⟨output, callables, clock, readings⟩ := rest
  have option {value : Option LoxLang.Value} {other : Option Value}
      (like : Option.Rel (Like table limit world) value other) :
      Option.Rel (Like later higher after) value other := by
    cases like with
    | some like => exact .some (likes like)
    | none => exact .none
  refine ⟨distances, ?_, ?_, ?_, ?_, ?_, ?_, ?_, ?_, output, callables, clock, readings⟩
  · rw [globals, store]
    exact agrees.room
  · rw [globals, store]
    exact agrees.outermost
  · rw [links, cells]
    exact agrees.size
  · rw [links]
    exact agrees.nodup
  · rw [links, globals, store]
    exact agrees.placed
  · rw [links, globals, store]
    exact agrees.bound
  · rw [links, store, cells]
    exact fun location frame name link => option (agrees.cells location frame name link)
  · rw [store, globals, defined]
    exact fun name => option (agrees.globals name)

theorem Like.enter {place : FrameId} (like : Like table limit world value other) :
    Like table limit (world.enter place) value other :=
  like.imp (fun carries => carries) fun resolved older => ⟨resolved, older⟩

theorem World.Agrees.enter (agrees : world.Agrees table limit) (frame : FrameId) :
    (world.enter frame).Agrees table limit :=
  agrees.of_same (fun like => like.enter) agrees.distances ⟨rfl, rfl, rfl, rfl, rfl⟩
    ⟨agrees.output, agrees.callables, agrees.clock, agrees.readings⟩

end Changes

end Lexical
end LoxLang
