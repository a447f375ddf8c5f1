import Railroad.Decimal.Binary
/-!
The numbers that diagrams are measured in.  Layout and drawing are written once for every such type:
drawings are computed in doubles, and the same definitions over the rationals are exact.
-/
namespace Railroad

/- Powers are those of the core library, whatever else is in sight. -/
attribute [local instance (2000)] instPowNat

/-- Arithmetic with decidable comparisons, natural constants, and the few operations on numbers that a
diagram needs beyond them. -/
class Scalar (α : Type) extends Add α, Sub α, Neg α, Mul α, Div α, LT α, LE α where
  /-- The constant with the value of an integer. -/
  ofInt : Int → α
  /-- Whether the value of an integer lies within the numbers. -/
  fits : Int → Bool
  /-- The estimated width of a character, as a share of the line height: seven twentieths. -/
  textRatio : α
  /-- The least integer that is not below the number, if there is one. -/
  ceil? : α → Option Int
  decideLT (a b : α) : Decidable (a < b)
  decideLE (a b : α) : Decidable (a ≤ b)

namespace Scalar

variable {α : Type} [Scalar α]

instance (a b : α) : Decidable (a < b) :=
  decideLT a b

instance (a b : α) : Decidable (a ≤ b) :=
  decideLE a b

instance (priority := low) (n : Nat) : OfNat α n :=
  ⟨ofInt n⟩

/-- The smaller number; the first wins unless the second is strictly smaller, so that it also stays
where the two do not compare. -/
def min (a b : α) : α :=
  if b < a then b else a

/-- The larger number; the first wins unless the second is strictly larger. -/
def max (a b : α) : α :=
  if a < b then b else a

end Scalar

/-- From here on integers are rounded beyond the greatest double. -/
def doubleLimit : Nat :=
  2 ^ (1024 : Nat) - 2 ^ (970 : Nat)

instance : Scalar Float where
  ofInt := Float.ofInt
  fits n := decide (n.natAbs < doubleLimit)
  textRatio := 0.35
  ceil? x := (Decimal.Binary.ofFloat x).ceil?
  decideLT := inferInstance
  decideLE := inferInstance

instance : Scalar Rat where
  ofInt := Rat.ofInt
  fits _ := true
  textRatio := 7 / 20
  ceil? x := some x.ceil
  decideLT := inferInstance
  decideLE := inferInstance

end Railroad
