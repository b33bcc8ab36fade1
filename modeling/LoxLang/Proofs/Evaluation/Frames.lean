import LoxLang.Proofs.Scoping.Nesting
import LoxLang.Proofs.Evaluation.Growth

/-!
Where a nesting stands at run time: from some frame outwards there is one frame for each scope, which
binds at least the names of the scope, and the global frame follows after the last of them.
-/
namespace LoxLang
namespace Nesting

theorem distance?_cons (names : List String) (outer : Nesting) (name : String) :
    distance? (names :: outer) name =
      if name ∈ names then some 0 else (outer.distance? name).map (· + 1) := by
  simp only [distance?, List.findIdx?_cons, List.contains_iff_mem]

/-- A frame may bind more than its scope has: it goes on growing after a closure was made in it. -/
def Framed (store : Store) (globals : FrameId) : Nesting → FrameId → Prop
  | [], frame => frame = globals
  | names :: outer, frame =>
    frame ≠ globals ∧ (∀ name ∈ names, (store.bound? frame name).isSome) ∧
      ∃ parent, store.parent? frame = some parent ∧ Framed store globals outer parent

namespace Framed

variable {store : Store} {globals frame : FrameId} {nesting : Nesting}

theorem grows {after : Store} (framed : nesting.Framed store globals frame)
    (grows : store.Grows after) : nesting.Framed after globals frame := by
  induction nesting generalizing frame with
  | nil => exact framed
  | cons names outer ih =>
    obtain ⟨apart, bound, parent, above, rest⟩ := framed
    exact ⟨apart, fun name member => grows.bound frame name (bound name member), parent,
      grows.parent_some above, ih rest⟩

theorem ancestor {name : String} {distance : Nat} (framed : nesting.Framed store globals frame)
    (found : nesting.distance? name = some distance) :
    ∃ holder, store.ancestor? frame distance = some holder ∧ holder ≠ globals ∧
      (store.bound? holder name).isSome := by
  induction nesting generalizing frame distance with
  | nil => simp [distance?] at found
  | cons names outer ih =>
    obtain ⟨apart, bound, parent, above, rest⟩ := framed
    rw [distance?_cons] at found
    by_cases here : name ∈ names
    · rw [if_pos here] at found
      cases found
      exact ⟨frame, rfl, apart, bound name here⟩
    · rw [if_neg here] at found
      obtain ⟨further, outside, rfl⟩ := Option.map_eq_some_iff.mp found
      obtain ⟨holder, away, other, has⟩ := ih rest outside
      refine ⟨holder, ?_, other, has⟩
      simpa [Store.ancestor?, above] using away

theorem lt_next (framed : nesting.Framed store globals frame) (room : globals < store.next) :
    frame < store.next := by
  cases nesting with
  | nil => exact framed ▸ room
  | cons names outer =>
    obtain ⟨_, _, parent, above, _⟩ := framed
    exact Store.lt_next_of_parent? above

theorem declare {name : String} (framed : nesting.Framed store globals frame)
    (bound : (store.bound? frame name).isSome) :
    (nesting.declare name).Framed store globals frame := by
  cases nesting with
  | nil => exact framed
  | cons names outer =>
    obtain ⟨apart, others, above⟩ := framed
    refine ⟨apart, fun sought member => ?_, above⟩
    rcases List.mem_cons.mp member with same | old
    · exact same ▸ bound
    · exact others sought old

theorem of_declare {name : String} (framed : (nesting.declare name).Framed store globals frame) :
    nesting.Framed store globals frame := by
  cases nesting with
  | nil => exact framed
  | cons names outer =>
    obtain ⟨apart, bound, above⟩ := framed
    exact ⟨apart, fun sought member => bound sought (List.mem_cons_of_mem _ member), above⟩

theorem of_after {stmt : Stmt} (framed : (nesting.after stmt).Framed store globals frame) :
    nesting.Framed store globals frame := by
  cases stmt with
  | var name initial => exact framed.of_declare
  | function name parameters body => exact framed.of_declare
  | _ => exact framed

theorem cons {inner : FrameId} {names : List String} (framed : nesting.Framed store globals frame)
    (apart : inner ≠ globals) (above : store.parent? inner = some frame)
    (bound : ∀ name ∈ names, (store.bound? inner name).isSome) :
    Framed store globals (names :: nesting) inner :=
  ⟨apart, bound, frame, above, framed⟩

end Framed
end Nesting
end LoxLang
