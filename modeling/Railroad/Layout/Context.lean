import Railroad.Decimal.Shortest
import Railroad.Geometry.Direction
import Railroad.Layout.Fault
/-!
The context of a node: the direction of flow and the rails that an enclosing alternation offers, with a
stack of saved states.
-/
namespace Railroad

/-- The direction of flow, whether there is a rail on either side, and where the rails run. -/
@[ext] structure Surroundings (α : Type) where
  direction : Direction
  useLeft : Bool
  useRight : Bool
  left : α
  right : α
  top : α
  bottom : α
deriving Repr, DecidableEq

/-- Live surroundings and the saved ones, the last saved first. -/
@[ext] structure Context (α : Type) where
  live : Surroundings α
  saved : List (Surroundings α)
deriving Repr, DecidableEq

namespace Context

variable {α : Type}

/-- Nothing saved, and no rails. -/
def new [Scalar α] (direction : Direction) : Context α :=
  ⟨⟨direction, false, false, 0, 0, 0, 0⟩, []⟩

/-- The number of states saved and not yet restored. -/
def depth (c : Context α) : Nat :=
  c.saved.length

/-- Saves the live state. -/
def push (c : Context α) : Context α :=
  ⟨c.live, c.live :: c.saved⟩

/-- Restores the state saved last. -/
def pop (c : Context α) : Except LayoutFault (Context α) :=
  match c.saved with
  | [] => .error .unmatchedPop
  | s :: saved => .ok ⟨s, saved⟩

/-- The context with another live state. -/
def withLive (c : Context α) (live : Surroundings α) : Context α :=
  { c with live }

/-- The context with another direction. -/
def toward (c : Context α) (direction : Direction) : Context α :=
  c.withLive { c.live with direction }

/-- Turns the flow around. -/
def reverse (c : Context α) : Context α :=
  c.toward c.live.direction.reversed

/-- The context with rails on the given sides. -/
def withRails (c : Context α) (useLeft useRight : Bool) : Context α :=
  c.withLive { c.live with useLeft, useRight }

/-- No rails on either side. -/
def clearRails (c : Context α) : Context α :=
  c.withRails false false

/-- Measures the rails from another origin. -/
def translateRails [Scalar α] (c : Context α) (origin : Point α) : Context α :=
  c.withLive { c.live with
    left := c.live.left - origin.x
    right := c.live.right - origin.x
    top := c.live.top - origin.y
    bottom := c.live.bottom - origin.y }

end Context

/-- The full text of a context, numbers in their shortest form. -/
def Context.describe (c : Context Float) : String :=
  let flag (b : Bool) := if b then "True" else "False"
  let s := c.live
  String.join ["LayoutContext(RailState(direction=<Direction.", s.direction.label, ": '", s.direction.word,
    "'>, use_left_rail=", flag s.useLeft, ", use_right_rail=", flag s.useRight,
    ", left_rail=", Decimal.shortest s.left, ", right_rail=", Decimal.shortest s.right,
    ", rail_top=", Decimal.shortest s.top, ", rail_bottom=", Decimal.shortest s.bottom,
    "), depth=", toString c.depth, ")"]

end Railroad
