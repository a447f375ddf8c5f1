import Railroad.Scalar
/-!
Points of the plane, with `x` growing to the right and `y` growing downwards.
-/
namespace Railroad

@[ext] structure Point (α : Type) where
  x : α
  y : α
deriving Repr, DecidableEq, Inhabited

namespace Point

variable {α : Type} [Scalar α]

/-- The point `(0, 0)`. -/
def zero : Point α :=
  ⟨0, 0⟩

/-- The point shifted by `dx` and `dy`. -/
def move (p : Point α) (dx dy : α) : Point α :=
  ⟨p.x + dx, p.y + dy⟩

/-- The point shifted by another one. -/
def translate (p q : Point α) : Point α :=
  ⟨p.x + q.x, p.y + q.y⟩

/-- The shift that takes the second point to the first. -/
def minus (p q : Point α) : Point α :=
  ⟨p.x - q.x, p.y - q.y⟩

def negate (p : Point α) : Point α :=
  ⟨-p.x, -p.y⟩

/-- Componentwise minimum. -/
def min (p q : Point α) : Point α :=
  ⟨Scalar.min p.x q.x, Scalar.min p.y q.y⟩

/-- Componentwise maximum. -/
def max (p q : Point α) : Point α :=
  ⟨Scalar.max p.x q.x, Scalar.max p.y q.y⟩

omit [Scalar α] in
/-- The point with another `x`. -/
def withX (p : Point α) (x : α) : Point α :=
  ⟨x, p.y⟩

omit [Scalar α] in
/-- The point with another `y`. -/
def withY (p : Point α) (y : α) : Point α :=
  ⟨p.x, y⟩

end Point

end Railroad
