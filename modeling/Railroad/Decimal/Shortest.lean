import Railroad.Decimal.Binary
import Railroad.Decimal.Form
/-!
The shortest decimal text of a double: the fewest digits that read back as the same double, and of
those the nearest.
-/
namespace Railroad.Decimal

/- Powers are those of the core library, whatever else is in sight. -/
attribute [local instance (2000)] instPowNat

/-- The numbers that round to one double, over a common denominator; the ends belong to it if the
double's significand is even. -/
structure Rounding where
  low : Nat
  value : Nat
  high : Nat
  denominator : Nat
  closed : Bool

namespace Rounding

/-- Half the distance to the neighbouring doubles on each side.  Below a power of two the next double
is only half as far away, unless that power is the least normal number. -/
def ofFinite (significand : Nat) (exponent : Int) : Rounding :=
  let below := if significand = 2 ^ (52 : Nat) && -1074 < exponent then 1 else 2
  let scale n := Fraction.scaled n (exponent - 2)
  { low := (scale (4 * significand - below)).numerator
    value := (scale (4 * significand)).numerator
    high := (scale (4 * significand + 2)).numerator
    denominator := (scale 1).denominator
    closed := significand % 2 == 0 }

/-- Whether the decimal number rounds to the double. -/
def contains (r : Rounding) (d : Digits) : Bool :=
  let up := d.coefficient * 10 ^ d.exponent.toNat * r.denominator
  let tens := 10 ^ (-d.exponent).toNat
  if r.closed then r.low * tens ≤ up && up ≤ r.high * tens
  else r.low * tens < up && up < r.high * tens

/-- The nearer of the two neighbours with the last digit at `10 ^ last` that rounds to the double. -/
def atPlace? (r : Rounding) (last : Int) : Option Digits :=
  let q : Fraction := Fraction.dropTens ⟨r.value, r.denominator⟩ last
  let down : Digits := ⟨q.floor, last⟩
  let up : Digits := ⟨q.floor + 1, last⟩
  let nearer := if q.round = q.floor then [down, up] else [up, down]
  nearer.find? r.contains

end Rounding

/-- Tries one digit, then two, and so on; seventeen always suffice. -/
def shortestDigits (significand : Nat) (exponent : Int) : Digits :=
  let r := Rounding.ofFinite significand exponent
  let leading := (Fraction.scaled significand exponent).decimalExponent
  ((List.range 17).findSome? fun n : Nat => r.atPlace? (leading - n)).getD
    ⟨significand, exponent⟩

/-- Positional below `10 ^ 16`, and a whole number keeps its point. -/
def shortestForm : Form := ⟨16, true⟩

/-- Shortest text of a binary number. -/
def Binary.shortest : Binary → String
  | .nan => "nan"
  | .infinite negative => if negative then "-inf" else "inf"
  | .finite negative significand exponent =>
      (if negative then "-" else "") ++
        (if significand = 0 then shortestForm.zero
         else shortestForm.text (shortestDigits significand exponent))

/-- Shortest text of a double. -/
def shortest (x : Float) : String :=
  (Binary.ofFloat x).shortest

end Railroad.Decimal
