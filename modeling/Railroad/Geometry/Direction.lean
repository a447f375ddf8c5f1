/-!
Directions of flow through a diagram.
-/
namespace Railroad

/-- Where the flow of a diagram heads; `none` outside the rules of a grammar. -/
inductive Direction where
  | none
  | up
  | down
  | left
  | right
deriving Repr, DecidableEq, Inhabited

namespace Direction

/-- All directions, in the order in which they are listed. -/
def all : List Direction :=
  [none, up, down, left, right]

/-- The opposite direction. -/
def reversed : Direction → Direction
  | none => none
  | up => down
  | down => up
  | left => right
  | right => left

def isHorizontal (d : Direction) : Bool :=
  d = left || d = right

def isVertical (d : Direction) : Bool :=
  d = up || d = down

/-- The word for a direction. -/
def word : Direction → String
  | none => "none"
  | up => "up"
  | down => "down"
  | left => "left"
  | right => "right"

/-- The word as recorded calls and messages write it. -/
def label : Direction → String
  | none => "NONE"
  | up => "UP"
  | down => "DOWN"
  | left => "LEFT"
  | right => "RIGHT"

def ofWord? (w : String) : Option Direction :=
  all.find? (·.word = w)

@[simp] theorem reversed_reversed (d : Direction) : d.reversed.reversed = d := by
  cases d <;> rfl

end Direction

end Railroad
