/-!
Doubles taken apart and put together by exact arithmetic on natural numbers. Every finite double is
`mantissa * 2 ^ scale` units, the unit being the smallest positive double.
-/
namespace LoxLang.Double

/-- So many halvings of one give the smallest positive double. -/
def unitBits : Nat := 1074

def fractionBits : Nat := 52

/-- The bits of positive infinity, which come right after those of the largest finite double. -/
def infinityBits : Nat := 2047 * Nat.pow 2 fractionBits

inductive Parts where
  | notANumber
  | infinite (negative : Bool)
  | finite (negative : Bool) (mantissa scale : Nat)
deriving DecidableEq

def Parts.ofBits (bits : Nat) : Parts :=
  let negative := bits / Nat.pow 2 63 % 2 == 1
  let exponent := bits / Nat.pow 2 fractionBits % 2048
  let fraction := bits % Nat.pow 2 fractionBits
  if exponent = 2047 then
    if fraction = 0 then .infinite negative else .notANumber
  else if exponent = 0 then .finite negative fraction 0
  else .finite negative (fraction + Nat.pow 2 fractionBits) (exponent - 1)

def parts (number : Float) : Parts := Parts.ofBits number.toBits.toNat

/-- The nearest whole number to a quotient, a half going to the even neighbour. -/
def roundQuotient (numerator denominator : Nat) : Nat :=
  let below := numerator / denominator
  let twice := 2 * (numerator % denominator)
  if twice < denominator then below
  else if denominator < twice then below + 1
  else below + below % 2

/-- The bits of the double nearest to a quotient. The mantissa's carry into the exponent field is
the step to the next power of two, so the two are simply added. -/
def quotientBits (numerator denominator : Nat) : Nat :=
  let units := numerator * Nat.pow 2 unitBits
  let scale := (units / denominator).log2 - fractionBits
  let mantissa := roundQuotient units (denominator * Nat.pow 2 scale)
  min (scale * Nat.pow 2 fractionBits + mantissa) infinityBits

def ofQuotient (numerator denominator : Nat) : Float :=
  Float.ofBits (UInt64.ofNat (quotientBits numerator denominator))

def digitsValue (digits : List Char) : Nat :=
  digits.foldl (fun value digit => 10 * value + (digit.toNat - '0'.toNat)) 0

def ofDigits (whole fraction : List Char) : Float :=
  ofQuotient (digitsValue (whole ++ fraction)) (Nat.pow 10 fraction.length)

end LoxLang.Double
