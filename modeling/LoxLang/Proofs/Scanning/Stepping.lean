import Mathlib.Logic.Function.Iterate
import LoxLang.Scan

/-!
A scan item by item. A scanner that is asked again and again gives out the items of the scan in order
and after them, however often it is asked, nothing.
-/
namespace LoxLang.Scanner

/-- What it has still to give out. -/
def items (scanner : Scanner) : List Scanned :=
  let whole := place scanner.position (Piece.all scanner.rest)
  if scanner.ended then whole.dropLast else whole

theorem place_ne_nil (position : Position) (pieces : List Piece) : place position pieces ≠ [] := by
  induction pieces generalizing position with
  | nil => simp
  | cons piece rest ih => simp [place_cons, ih]

theorem items_cons (position : Position) (ended : Bool) (first : Char) (rest : List Char) :
    items ⟨first :: rest, position, ended⟩ =
      ((Piece.cut first rest).1.scanned position).toList ++
        items ⟨(Piece.cut first rest).2, position.after (Piece.cut first rest).1.text, ended⟩ := by
  simp only [items, Piece.all_cons, place_cons]
  cases ended with
  | false => rfl
  | true => exact List.dropLast_append_of_ne_nil (place_ne_nil _ _)

/-- One call takes the first item off. -/
theorem nextFrom_items (position : Position) (ended : Bool) (rest : List Char) :
    (nextFrom position ended rest).1 = (items ⟨rest, position, ended⟩).head? ∧
      (nextFrom position ended rest).2.items = (items ⟨rest, position, ended⟩).tail := by
  fun_induction nextFrom position ended rest with
  | case1 position done => simp [items, done]
  | case2 position still => simp [items, still]
  | case3 position first rest position' item found => simp [items_cons, found, position']
  | case4 position first rest position' found ih => simpa [items_cons, found] using ih

theorem next_items (scanner : Scanner) :
    scanner.next.1 = scanner.items.head? ∧ scanner.next.2.items = scanner.items.tail :=
  nextFrom_items _ _ _

/-- So many calls later there are so many items less. -/
theorem call_items (scanner : Scanner) (calls : Nat) :
    ((fun scanner : Scanner => scanner.next.2)^[calls] scanner).next.1 = scanner.items[calls]? := by
  induction calls generalizing scanner with
  | zero => rw [Function.iterate_zero_apply, (next_items scanner).1, List.head?_eq_getElem?]
  | succ calls ih =>
    rw [Function.iterate_succ_apply, ih, (next_items scanner).2, List.getElem?_tail]

theorem call_new (source : String) (calls : Nat) :
    ((fun scanner : Scanner => scanner.next.2)^[calls] (new source)).next.1 =
      (scan source)[calls]? :=
  call_items (new source) calls

end LoxLang.Scanner
