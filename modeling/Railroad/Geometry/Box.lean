import Railroad.Decimal.General
import Railroad.Geometry.Point
/-!
Boxes with anchors: rectangles that know on which row horizontal flow passes through them and how far
from their side edges vertical connectors attach.
-/
namespace Railroad

/-- A rectangle by its top-left and bottom-right corners, with two anchor offsets measured from its own
edges, so that moving the box never invalidates them. -/
@[ext] structure Box (α : Type) where
  tl : Point α
  br : Point α
  /-- The inset from the left and right edges where vertical connectors attach. -/
  xAnchor : α
  /-- The row of horizontal flow, measured down from the top edge. -/
  yAnchor : α
deriving Repr, DecidableEq, Inhabited

namespace Box

variable {α : Type} [Scalar α]

/-- The box of no size at the origin. -/
def atOrigin (xAnchor yAnchor : α) : Box α :=
  ⟨.zero, .zero, xAnchor, yAnchor⟩

def width (b : Box α) : α :=
  b.br.x - b.tl.x

def height (b : Box α) : α :=
  b.br.y - b.tl.y

/-- A width below zero counts as zero. -/
def setWidth (b : Box α) (width : α) : Box α :=
  { b with br := ⟨b.tl.x + Scalar.max 0 width, b.br.y⟩ }

/-- A height below zero counts as zero. -/
def setHeight (b : Box α) (height : α) : Box α :=
  { b with br := ⟨b.br.x, b.tl.y + Scalar.max 0 height⟩ }

def setYAnchor (b : Box α) (yAnchor : α) : Box α :=
  { b with yAnchor }

def tlCorner (b : Box α) : Point α :=
  b.tl

def brCorner (b : Box α) : Point α :=
  b.br

def trCorner (b : Box α) : Point α :=
  ⟨b.br.x, b.tl.y⟩

def blCorner (b : Box α) : Point α :=
  ⟨b.tl.x, b.br.y⟩

/-- Where flow to the right enters. -/
def lAnchor (b : Box α) : Point α :=
  ⟨b.tl.x, b.tl.y + b.yAnchor⟩

/-- Where flow to the right leaves. -/
def rAnchor (b : Box α) : Point α :=
  ⟨b.br.x, b.tl.y + b.yAnchor⟩

/-- The middle of the anchor row. -/
def cAnchor (b : Box α) : Point α :=
  ⟨(b.tl.x + b.br.x) / 2, b.tl.y + b.yAnchor⟩

def tCenter (b : Box α) : Point α :=
  ⟨(b.tl.x + b.br.x) / 2, b.tl.y⟩

def bCenter (b : Box α) : Point α :=
  ⟨(b.tl.x + b.br.x) / 2, b.br.y⟩

def tlAnchor (b : Box α) : Point α :=
  ⟨b.tl.x + b.xAnchor, b.tl.y⟩

def trAnchor (b : Box α) : Point α :=
  ⟨b.br.x - b.xAnchor, b.tl.y⟩

def blAnchor (b : Box α) : Point α :=
  ⟨b.tl.x + b.xAnchor, b.br.y⟩

def brAnchor (b : Box α) : Point α :=
  ⟨b.br.x - b.xAnchor, b.br.y⟩

/-- Grows the box until it covers the rectangle between two corners.  A top edge that moves up leaves
the anchor row where it was. -/
def includeCorners (b : Box α) (low high : Point α) : Box α :=
  let tl := b.tl.min low
  { b with tl, br := b.br.max high, yAnchor := b.yAnchor + (b.tl.y - tl.y) }

/-- Grows the box until it covers a point. -/
def includePoint (b : Box α) (p : Point α) : Box α :=
  b.includeCorners p p

/-- Grows the box until it covers another one. -/
def includeBox (b other : Box α) : Box α :=
  b.includeCorners other.tl other.br

/-- Moves the box by a shift. -/
def moveBy (b : Box α) (delta : Point α) : Box α :=
  { b with tl := b.tl.translate delta, br := b.br.translate delta }

/-- Moves the top-left corner to a point. -/
def moveTo (b : Box α) (p : Point α) : Box α :=
  b.moveBy (p.minus b.tl)

/-- Moves the left anchor to a point. -/
def moveLAnchor (b : Box α) (p : Point α) : Box α :=
  b.moveBy (p.minus b.lAnchor)

/-- Moves the right anchor to a point. -/
def moveRAnchor (b : Box α) (p : Point α) : Box α :=
  b.moveBy (p.minus b.rAnchor)

/-- The shift that takes the top-left corner to the origin. -/
def homing (b : Box α) : Point α :=
  b.tl.negate

/-- The box with its top-left corner at the origin. -/
def normalize (b : Box α) : Box α :=
  b.moveBy b.homing

end Box

/-- The text of a point, coordinates in compact form. -/
def Point.describe (p : Point Float) : String :=
  s!"({Decimal.compact p.x}, {Decimal.compact p.y})"

/-- The text of a box: its corners and anchors. -/
def Box.describe (b : Box Float) : String :=
  s!"OrientedBox(tl={b.tl.describe}, br={b.br.describe}, "
    ++ s!"anchor={(Point.mk b.xAnchor b.yAnchor).describe})"

end Railroad
