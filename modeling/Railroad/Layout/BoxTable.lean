import Railroad.Layout.Fault
/-!
The boxes of a tree's nodes, by node id.  Every box is written once.
-/
namespace Railroad

/- Powers are those of the core library, whatever else is in sight. -/
attribute [local instance (2000)] instPowNat

/-- Boxes for the ids from `base` on, one slot for each. -/
structure BoxTable (α : Type) where
  base : Int
  slots : Array (Option (Box α))

/-- Why there is no table of some size. -/
inductive TableFault where
  /-- It lies beyond the numbers that 63 bits and a sign count. -/
  | hugeSize
  /-- It takes more memory than there is. -/
  | memory
deriving Repr, DecidableEq

def TableFault.message : TableFault → String
  | hugeSize => "cannot fit 'int' into an index-sized integer"
  | memory => ""

/-- The most slots that there is room for. -/
def slotLimit : Int :=
  2 ^ (30 : Nat)

namespace BoxTable

variable {α : Type}

/-- Empty slots for `size` ids; there are none below zero. -/
def new (size base : Int) : BoxTable α :=
  ⟨base, Array.replicate size.toNat none⟩

/-- A table of a size that somebody asks for. -/
def allocate (size base : Int) : Except TableFault (BoxTable α) :=
  if size < -2 ^ (63 : Nat) || 2 ^ (63 : Nat) ≤ size then .error .hugeSize
  else if slotLimit < size then .error .memory
  else .ok (new size base)

/-- A table with slots for all ids of a tree. -/
def forTree (root : Node) : BoxTable α :=
  let ids := root.walk.map Node.id
  let low := ids.foldl min root.id
  let high := ids.foldl max root.id
  new (high - low + 1) low

/-- The slot of a node, if its id lies in the table. -/
def slot? (t : BoxTable α) (n : Node) : Option Nat :=
  let offset : Int := n.id - t.base
  if 0 ≤ offset ∧ offset < t.slots.size then some offset.toNat else none

def box? (t : BoxTable α) (n : Node) : Option (Box α) := do
  let slot ← t.slot? n
  (t.slots[slot]?).join

def contains (t : BoxTable α) (n : Node) : Bool :=
  (t.box? n).isSome

/-- The box of a node. -/
def get (t : BoxTable α) (n : Node) : Except LayoutFault (Box α) :=
  match t.box? n with
  | some box => .ok box
  | none => .error (.noBox n.typeName)

/-- Writes the box of a node, once. -/
def assign (t : BoxTable α) (n : Node) (box : Box α) : Except LayoutFault (BoxTable α) :=
  match t.slot? n with
  | none => .error (.outsideTable n.typeName)
  | some slot =>
      if t.contains n then .error (.writtenTwice n.typeName n.id)
      else .ok { t with slots := t.slots.setIfInBounds slot (some box) }

/-- Writes the box of a node over the one that is there. -/
def write (t : BoxTable α) (n : Node) (box : Box α) : BoxTable α :=
  match t.slot? n with
  | some slot => { t with slots := t.slots.setIfInBounds slot (some box) }
  | none => t

/-- The boxes written so far, in the order of their slots. -/
def boxes (t : BoxTable α) : List (Box α) :=
  t.slots.toList.filterMap fun box => box

/-- The number of boxes written so far. -/
def size (t : BoxTable α) : Nat :=
  t.boxes.length

end BoxTable

end Railroad
