import Railroad.Geometry.Point
/-!
Quarter-circle turns of a path.
-/
namespace Railroad

/-- A quarter turn, named by the direction of travel before it and the one after it. -/
inductive Arc where
  | rightUp
  | rightDown
  | leftUp
  | leftDown
  | upRight
  | upLeft
  | downRight
  | downLeft
deriving Repr, DecidableEq, Inhabited

namespace Arc

/-- All arcs, in the order in which they are listed. -/
def all : List Arc :=
  [rightUp, rightDown, leftUp, leftDown, upRight, upLeft, downRight, downLeft]

/-- Whether the turn is made clockwise, as seen with `y` growing downwards. -/
def clockwise (a : Arc) : Bool :=
  a = rightDown || a = leftUp || a = upRight || a = downLeft

/-- The signs of the way across the arc: whether it leads right, and whether it leads down. -/
def heading : Arc → Bool × Bool
  | rightUp => (true, false)
  | rightDown => (true, true)
  | leftUp => (false, false)
  | leftDown => (false, true)
  | upRight => (true, false)
  | upLeft => (false, false)
  | downRight => (true, true)
  | downLeft => (false, true)

/-- Displacement across the arc for a unit radius. -/
def delta {α : Type} [Scalar α] (a : Arc) : Point α :=
  ⟨Scalar.ofInt (if a.heading.1 then 1 else -1), Scalar.ofInt (if a.heading.2 then 1 else -1)⟩

/-- The words for an arc. -/
def word : Arc → String
  | rightUp => "right_up"
  | rightDown => "right_down"
  | leftUp => "left_up"
  | leftDown => "left_down"
  | upRight => "up_right"
  | upLeft => "up_left"
  | downRight => "down_right"
  | downLeft => "down_left"

/-- The words as recorded calls write them. -/
def label : Arc → String
  | rightUp => "RIGHT_UP"
  | rightDown => "RIGHT_DOWN"
  | leftUp => "LEFT_UP"
  | leftDown => "LEFT_DOWN"
  | upRight => "UP_RIGHT"
  | upLeft => "UP_LEFT"
  | downRight => "DOWN_RIGHT"
  | downLeft => "DOWN_LEFT"

def ofWord? (w : String) : Option Arc :=
  all.find? (·.word = w)

end Arc

end Railroad
