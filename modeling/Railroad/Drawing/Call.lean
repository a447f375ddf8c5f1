import Railroad.Drawing.Style
import Railroad.Geometry.Arc
import Railroad.Geometry.Direction
import Railroad.Geometry.Metrics
/-!
The calls that a drawing is made of.  Coordinates are local to the innermost origin pushed.

Primitives are what an output has to draw.  Composites are drawn by primitives: straight lines, arrows
with a shaft, and rounded connectors.
-/
namespace Railroad

/-- The calls that every output answers for itself. -/
inductive Primitive (α : Type) where
  | openDocument
  | closeDocument
  /-- Makes a point the new origin. -/
  | pushTranslate (origin : Point α)
  | popTranslate
  | rectangle (x y w h : α) (style : Style)
  | roundedRectangle (x y w h : α) (style : Style)
  | circle (x y r : α) (style : Style)
  /-- Text that starts at the left edge of a cell. -/
  | text (x y w h : α) (text : String) (style : Style)
  | centeredText (x y w h : α) (text : String) (style : Style)
  | pathBegin (x y : α) (style : Style)
  | pathHTo (x : α)
  | pathVTo (y : α)
  | pathArc (radius : α) (arc : Arc)
  | pathArrowLeft (size : α)
  | pathArrowRight (size : α)
  | pathArrowDown (size : α)
  | pathEnd
  | beginDiagram (x y w h : α) (name : String)
  | endDiagram
  | beginLink (name : String)
  | endLink
deriving Repr, DecidableEq

/-- The calls that are drawn by primitives. -/
inductive Composite (α : Type) where
  /-- A line to the `x` of the second point. -/
  | hline (p q : Point α) (style : Style)
  /-- A line to the `y` of the second point. -/
  | vline (p q : Point α) (style : Style)
  /-- An arrow from a point, whose tip is so far to the left. -/
  | arrowLeft (p : Point α) (length size : α)
  | arrowRight (p : Point α) (length size : α)
  | arrowDown (p : Point α) (length size : α)
  /-- A rounded path that leaves the first point in one direction and arrives at the second in another. -/
  | connector (leaving : Direction) (p q : Point α) (arriving : Direction) (radius : α) (style : Style)
deriving Repr, DecidableEq

inductive Call (α : Type) where
  | primitive (p : Primitive α)
  | composite (c : Composite α)
deriving Repr, DecidableEq

/-- Why an image cannot be begun or drawn on. -/
inductive ImageFault where
  /-- Its size is infinite. -/
  | infinite
  /-- Its size is no number. -/
  | notANumber
  /-- A whole number that it is computed with lies beyond all coordinates. -/
  | hugeNumber
  /-- A side has more pixels than 31 bits count; `beyondWord` tells those that 63 bits do not count
  either. -/
  | hugeSide (beyondWord : Bool)
  /-- It takes more memory than there is. -/
  | memory
  /-- Letters of such a size cannot be seen. -/
  | emptyFont (size : Int)
  /-- There is no font with letters of such a size. -/
  | hugeFont
deriving Repr, DecidableEq

def ImageFault.message : ImageFault → String
  | infinite => "cannot convert float infinity to integer"
  | notANumber => "cannot convert float NaN to integer"
  | hugeNumber => "int too large to convert to float"
  | hugeSide false => "signed integer is greater than maximum"
  | hugeSide true => "Python int too large to convert to C long"
  | memory => ""
  | emptyFont size => s!"font size must be greater than 0, not {size}"
  | hugeFont => "invalid pixel size"

/-- What goes wrong on an output. -/
inductive SurfaceFault where
  | emptyTranslation
  | pathOpen
  | segmentOutsidePath
  | pathNotBegun
  | outsideDiagram
  /-- There is no connector for a pair of directions. -/
  | unsupportedConnector (leaving arriving : Direction)
  /-- The output has no answer to a primitive. -/
  | unanswered
  | image (fault : ImageFault)
deriving Repr, DecidableEq

def SurfaceFault.message : SurfaceFault → String
  | emptyTranslation => "pop_translate called on an empty translation stack"
  | pathOpen => "path_begin called while a path is open"
  | segmentOutsidePath => "Path segment drawn outside path_begin/path_end"
  | pathNotBegun => "path_end called without path_begin"
  | outsideDiagram => "Drawing outside begin_diagram/end_diagram"
  | unsupportedConnector leaving arriving =>
      s!"Connector from {leaving.label} to {arriving.label} is not implemented"
  | unanswered => ""
  | image fault => fault.message

namespace Primitive

/-- The name of a call. -/
def name {α : Type} : Primitive α → String
  | openDocument => "open"
  | closeDocument => "close"
  | pushTranslate .. => "push_translate"
  | popTranslate => "pop_translate"
  | rectangle .. => "rectangle"
  | roundedRectangle .. => "rounded_rectangle"
  | circle .. => "circle"
  | text .. => "text"
  | centeredText .. => "centered_text"
  | pathBegin .. => "path_begin"
  | pathHTo .. => "path_h_to"
  | pathVTo .. => "path_v_to"
  | pathArc .. => "path_arc"
  | pathArrowLeft .. => "path_arrow_left"
  | pathArrowRight .. => "path_arrow_right"
  | pathArrowDown .. => "path_arrow_down"
  | pathEnd => "path_end"
  | beginDiagram .. => "begin_diagram"
  | endDiagram => "end_diagram"
  | beginLink .. => "begin_link"
  | endLink => "end_link"

end Primitive

/-- The name of a call. -/
def Composite.name {α : Type} : Composite α → String
  | hline .. => "hline"
  | vline .. => "vline"
  | arrowLeft .. => "arrow_left"
  | arrowRight .. => "arrow_right"
  | arrowDown .. => "arrow_down"
  | connector .. => "connector"

end Railroad
