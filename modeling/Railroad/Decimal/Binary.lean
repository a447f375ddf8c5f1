/-!
The exact value of a double: not a number, an infinity, or a sign with a natural number times a power
of two.  Every decimal text of this library is computed from this form in exact integer arithmetic.
-/
namespace Railroad.Decimal

/- Powers are those of the core library, whatever else is in sight. -/
attribute [local instance (2000)] instPowNat

/-- A double taken apart; the finite ones have the value `± significand · 2 ^ exponent`. -/
inductive Binary where
  | nan
  | infinite (negative : Bool)
  | finite (negative : Bool) (significand : Nat) (exponent : Int)
deriving Repr, DecidableEq, Inhabited

namespace Binary

/-- Reads the sign, exponent and fraction fields of the 64-bit format. -/
def ofFloat (x : Float) : Binary :=
  let bits : Nat := x.toBits.toNat
  let negative := bits / 2 ^ (63 : Nat) == 1
  let biased : Nat := bits / 2 ^ (52 : Nat) % 2048
  let fraction : Nat := bits % 2 ^ (52 : Nat)
  if biased = 2047 then
    if fraction = 0 then .infinite negative else .nan
  else if biased = 0 then
    .finite negative fraction (-1074)
  else
    .finite negative (fraction + 2 ^ (52 : Nat)) ((biased : Int) - 1075)

/-- The least integer that is not below the number; infinities and nan have none. -/
def ceil? : Binary → Option Int
  | .finite negative significand exponent =>
      let numerator : Int := (if negative then -1 else 1) * (significand * 2 ^ exponent.toNat : Nat)
      some (-((-numerator) / (2 ^ (-exponent).toNat : Nat)))
  | _ => none

end Binary

/-- A positive fraction, `numerator / denominator`. -/
structure Fraction where
  numerator : Nat
  denominator : Nat
deriving Repr, DecidableEq

namespace Fraction

/-- `n · 2 ^ e` as a fraction. -/
def scaled (n : Nat) (e : Int) : Fraction :=
  ⟨n * 2 ^ e.toNat, 2 ^ (-e).toNat⟩

/-- The fraction divided by `10 ^ e`. -/
def dropTens (q : Fraction) (e : Int) : Fraction :=
  ⟨q.numerator * 10 ^ (-e).toNat, q.denominator * 10 ^ e.toNat⟩

def floor (q : Fraction) : Nat :=
  q.numerator / q.denominator

/-- The nearest natural number; a tie goes to the even neighbour. -/
def round (q : Fraction) : Nat :=
  let low := q.numerator / q.denominator
  let twice := 2 * (q.numerator % q.denominator)
  if twice < q.denominator then low
  else if q.denominator < twice then low + 1
  else low + low % 2

/-- The `x` with `10 ^ x ≤ q < 10 ^ (x + 1)`. -/
def decimalExponent (q : Fraction) : Int :=
  if q.denominator ≤ q.numerator then
    (Nat.toDigits 10 q.floor).length - 1
  else
    let places := (Nat.toDigits 10 (q.denominator / q.numerator)).length - 1
    if q.denominator ≤ q.numerator * 10 ^ places then -(places : Int) else -(places + 1 : Int)

end Fraction

end Railroad.Decimal
