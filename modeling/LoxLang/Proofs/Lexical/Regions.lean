import Mathlib.Data.List.Forall2
import LoxLang.Proofs.Lexical.Steps

/-!
Where statements stand, on both sides: the machine in the frame of the innermost scope, the model in
a region whose environment that frame carries. Declarations take both to the next statement.
-/
namespace LoxLang.Lexical

/-- The frame stands for a scope that declares these names, and nothing else is linked to it. -/
structure Declares (frame : FrameId) (names : List String) (outer : Nesting)
    (environment : Environment) (world : World) : Prop where
  carries : world.Carries (names :: outer) frame environment
  only : ∀ name, (frame, name) ∈ world.links → name ∈ names

inductive Stands (world : World) : Nesting → Region → Prop
  | outermost : world.machine.current = world.machine.globals → Stands world [] .outermost
  | inside {names : List String} {outer : Nesting} {environment : Environment} :
    Declares world.machine.current names outer environment world →
    Stands world (names :: outer) (.inside environment)

inductive LikeEnd (table : Distances) (limit : Nat) (world : World) :
    LoxLang.Flow → Flow → Prop
  | next (region : Region) : LikeEnd table limit world .next (.next region)
  | returned {value : LoxLang.Value} {other : Value} : Like table limit world value other →
    LikeEnd table limit world (.returned value) (.returned other)

inductive LikeFlow (table : Distances) (limit : Nat) (world : World) (nesting : Nesting) :
    LoxLang.Flow → Flow → Prop
  | next {region : Region} : Stands world nesting region →
    LikeFlow table limit world nesting .next (.next region)
  | returned {value : LoxLang.Value} {other : Value} : Like table limit world value other →
    LikeFlow table limit world nesting (.returned value) (.returned other)

variable {table : Distances} {limit : Nat} {here : Option FrameId} {world : World}
  {nesting : Nesting} {region : Region}

theorem Stands.carries (stands : Stands world nesting region) :
    world.Carries nesting world.machine.current region.environment := by
  cases stands with
  | outermost globals => exact ⟨globals, rfl⟩
  | inside declares => exact declares.carries

section Lasting

theorem lasting_current (frame : FrameId) :
    Lasting here fun world => world.machine.current = frame :=
  fun _ _ wider current => wider.machine.current.trans current

theorem lasting_like (value : LoxLang.Value) (other : Value) :
    Lasting here fun world => Like table limit world value other :=
  fun _ _ wider like => like.extends wider

theorem lasting_link (location : Location) (place : FrameId × String) :
    Lasting here fun world => world.links[location]? = some place :=
  fun _ _ wider linked => wider.link linked

theorem lasting_here (nesting : Nesting) (environment : Environment) :
    Lasting here fun world => world.Carries nesting world.machine.current environment := by
  intro before after wider carries
  rw [wider.machine.current]
  exact carries.extends wider

theorem lasting_likes (values : List LoxLang.Value) (others : List Value) :
    Lasting here fun world => List.Forall₂ (Like table limit world) values others :=
  fun _ _ wider likes => likes.imp fun _ _ like => like.extends wider

theorem lasting_since (condition : World → Prop) :
    Lasting here fun world => ∃ before : World, condition before ∧ before.Extends here world := by
  rintro middle after wider ⟨before, holds, earlier⟩
  exact ⟨before, holds, earlier.trans wider⟩

theorem lasting_declares (frame : FrameId) (names : List String) (outer : Nesting)
    (environment : Environment) : Lasting none (Declares frame names outer environment) := by
  intro before after wider declares
  refine ⟨declares.carries.extends wider, fun name member => ?_⟩
  obtain ⟨_, _, _, _, _, _, _, above, _⟩ := declares.carries
  rcases wider.fresh _ member with old | new | never
  · exact declares.only name old
  · exact absurd (Store.lt_next_of_parent? above) (Nat.not_lt.mpr new)
  · cases never

theorem lasting_stands (nesting : Nesting) (region : Region) :
    Lasting none fun world => Stands world nesting region := by
  intro before after wider stands
  cases stands with
  | outermost globals =>
    exact .outermost (by rw [wider.machine.current, wider.machine.globals, globals])
  | inside declares =>
    rw [← wider.machine.current] at declares
    exact .inside (lasting_declares _ _ _ _ before after wider declares)

end Lasting

/-- What was local stays so, and what is declared in the current frame is known from `left`. -/
theorem Stands.leave {before after : World} {left : Region} (stood : Stands before nesting region)
    (wider : before.Extends here after) (stands : Stands after nesting left) :
    Stands after nesting region := by
  cases stood with
  | outermost _ =>
    cases stands with
    | outermost globals => exact .outermost globals
  | inside declared =>
    cases stands with
    | inside declares =>
      rw [← wider.machine.current] at declared
      exact .inside ⟨declared.carries.extends wider, declares.only⟩

theorem LikeFlow.leave {before after : World} {flow : LoxLang.Flow} {other : Flow}
    (stood : Stands before nesting region) (wider : before.Extends here after)
    (like : LikeFlow table limit after nesting flow other) :
    LikeFlow table limit after nesting flow (other.leave region) := by
  cases like with
  | next stands => exact .next (stood.leave wider stands)
  | returned like => exact .returned like

theorem LikeEnd.leave {before after : World} {flow : LoxLang.Flow} {other : Flow}
    (stood : Stands before nesting region) (wider : before.Extends none after)
    (like : LikeEnd table limit after flow other) :
    LikeFlow table limit after nesting flow (other.leave region) := by
  cases like with
  | next _ => exact .next (lasting_stands nesting region before after wider stood)
  | returned like => exact .returned like

namespace Declares

variable {names : List String} {outer : Nesting} {environment : Environment} {frame : FrameId}
  {name : String}

theorem fresh (declares : Declares frame names outer environment world) (new : name ∉ names) :
    frame ≠ world.machine.globals ∧ frame < world.machine.store.next ∧
      (frame, name) ∉ world.links := by
  obtain ⟨apart, _, _, _, _, _, _, above, _⟩ := declares.carries
  exact ⟨apart, Store.lt_next_of_parent? above, fun member => new (declares.only name member)⟩

theorem link (declares : Declares frame names outer environment world) :
    Declares frame (name :: names) outer ((name, world.links.length) :: environment)
      (world.link frame name) := by
  have old (location : Location) (place : FrameId × String)
      (found : world.links[location]? = some place) :
      (world.link frame name).links[location]? = some place := (extends_link world).link found
  obtain ⟨apart, inner, rest, parent, rfl, rfl, linked, above, outside⟩ := declares.carries
  refine ⟨⟨apart, (name, world.links.length) :: inner, rest, parent, rfl, rfl, ?_, above, ?_⟩, ?_⟩
  · intro entry member
    rcases List.mem_cons.mp member with same | later
    · rw [same]
      exact List.getElem?_concat_length
    · exact old _ _ (linked entry later)
  · exact Lexical.Carries.grows outside old (.refl _)
  · intro sought member
    rcases List.mem_append.mp member with earlier | new
    · exact List.mem_cons_of_mem _ (declares.only sought earlier)
    · cases List.mem_singleton.mp new
      exact List.mem_cons_self

/-- A new frame inside a carried one carries the same environment, with a scope in which nothing is
declared. -/
theorem openFrame (agrees : world.Agrees table limit) {closure : FrameId}
    (carries : world.Carries nesting closure environment) :
    Declares world.machine.store.next [] nesting environment (world.openFrame closure) := by
  have opened : (world.openFrame closure).Carries nesting closure environment :=
    carries.extends (extends_openFrame none world closure)
  refine ⟨⟨Nat.ne_of_gt agrees.room, [], environment, closure, rfl, rfl, nofun, ?_, opened⟩, ?_⟩
  · exact (Store.parent?_push _ _ _).trans (if_pos rfl)
  · intro name member
    exact absurd (agrees.placed _ member).2 (Nat.lt_irrefl _)

theorem enter (declares : Declares frame names outer environment world) :
    Stands (world.enter frame) (names :: outer) (.inside environment) :=
  .inside ⟨declares.carries, declares.only⟩

end Declares
end LoxLang.Lexical
