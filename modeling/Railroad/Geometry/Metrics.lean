import Railroad.Geometry.Box
/-!
The measures of a diagram, and the depth to which grammars may nest.
-/
namespace Railroad.Metrics

variable {α : Type} [Scalar α]

/-- Height of a letter. -/
def textSize : α := 24

/-- Room between a text and its outline. -/
def textPad : α := 8

def lineHeight : α := textSize + textPad

/-- Radius of the dot at the end of a rule. -/
def circle : α := 4

/-- Room above and below a symbol. -/
def padV : α := 8

/-- Room to the left and to the right of a symbol. -/
def padH : α := 10

/-- Radius of the arcs of a connector. -/
def radius : α := 10

def arrowSize : α := 10

/-- The deepest nesting that is read, laid out and drawn. -/
def maxDepth : Nat := 200

/-- The empty box at the origin with the anchors of a symbol. -/
def newBox : Box α :=
  .atOrigin padH (lineHeight / 2 + padV)

end Railroad.Metrics
