import LoxLang.Double.Parts
/-!
The text of a double: the fewest decimal digits that read back to it, and of those the nearest to
it, written out with a point and never with an exponent.
-/
namespace LoxLang.Double

/-- Decimal grids are counted from ten to the minus `finest`, below which no double has a use for
a digit. -/
def finest : Nat := 400

/-- Values are compared as multiples of a quarter unit times ten to the minus `finest`. -/
def gridUnit (grid : Nat) : Nat := Nat.pow 10 grid * Nat.pow 2 (unitBits + 2)

/-- The values that read back to one double; the ends belong to it when its mantissa is even. -/
structure Interval where
  low : Nat
  centre : Nat
  high : Nat
  closed : Bool

def Interval.ofParts (mantissa scale : Nat) : Interval :=
  let quarter := Nat.pow 2 scale * Nat.pow 10 finest
  let below := if mantissa = Nat.pow 2 fractionBits ∧ scale ≠ 0 then 1 else 2
  ⟨(4 * mantissa - below) * quarter, 4 * mantissa * quarter, (4 * mantissa + 2) * quarter,
    mantissa % 2 == 0⟩

def Interval.contains (interval : Interval) (value : Nat) : Bool :=
  if interval.closed then interval.low ≤ value && value ≤ interval.high
  else interval.low < value && value < interval.high

/-- The number of digits of a positive number, less one. The first estimate is at most one short
for the sizes that occur. -/
def decimalOrder (number : Nat) : Nat :=
  let estimate := number.log2 * 1233 / 4096
  if Nat.pow 10 (estimate + 1) ≤ number then estimate + 1 else estimate

/-- The nearest of the centre's two neighbours on a grid that lie in the interval, the upper one
when both are as near. -/
def Interval.onGrid (interval : Interval) (grid : Nat) : Option Nat :=
  let unit := gridUnit grid
  let below := interval.centre / unit
  match interval.contains (below * unit), interval.contains ((below + 1) * unit) with
  | false, false => none
  | true, false => some below
  | false, true => some (below + 1)
  | true, true => some (if 2 * (interval.centre % unit) < unit then below else below + 1)

/-- The first grid with a hit, from `grid` to finer ones. -/
def Interval.coarsest (interval : Interval) : Nat → Nat × Nat
  | 0 => (interval.centre / gridUnit 0, 0)
  | grid + 1 =>
    match interval.onGrid (grid + 1) with
    | some digits => (digits, grid + 1)
    | none => interval.coarsest grid

/-- A positive double as `digits * 10 ^ grid`, the grid counted from the finest one. -/
def shortest (mantissa scale : Nat) : Nat × Nat :=
  let interval := Interval.ofParts mantissa scale
  interval.coarsest (decimalOrder (interval.centre / gridUnit 0))

def dropFinalZeros (digits : List Char) : List Char :=
  (digits.reverse.dropWhile (· == '0')).reverse

def fractionText (digits places : Nat) : List Char :=
  let shown := Nat.toDigits 10 digits
  dropFinalZeros (List.replicate (places - shown.length) '0' ++ shown)

def positional (digits grid : Nat) : List Char :=
  if finest ≤ grid then Nat.toDigits 10 (digits * Nat.pow 10 (grid - finest))
  else
    let places := finest - grid
    let whole := Nat.toDigits 10 (digits / Nat.pow 10 places)
    match fractionText (digits % Nat.pow 10 places) places with
    | [] => whole
    | fraction => whole ++ '.' :: fraction

def signed (negative : Bool) (digits : List Char) : List Char :=
  if negative then '-' :: digits else digits

def Parts.text : Parts → List Char
  | .notANumber => ['N', 'a', 'N']
  | .infinite negative => signed negative ['i', 'n', 'f']
  | .finite negative 0 _ => signed negative ['0']
  | .finite negative mantissa scale =>
    let (digits, grid) := shortest mantissa scale
    signed negative (positional digits grid)

def text (number : Float) : String := String.ofList (parts number).text

end LoxLang.Double
