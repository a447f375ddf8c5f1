import Railroad.Drawing.Call
/-!
The rounded paths between two points, one shape for each pair of directions that the flow may leave and
arrive in.
-/
namespace Railroad

open Primitive

variable {α : Type} [Scalar α]

/-- The segments of a connector after its first point.  There is none for directions outside the flow,
nor from upwards flow to anything but rightwards flow. -/
def connectorSegments? (leaving arriving : Direction) (p q : Point α) (r : α) :
    Option (List (Primitive α)) :=
  match leaving, arriving with
  | .right, .right => some <|
      if q.x ≤ p.x then []
      else if p.y < q.y then
        [pathArc r .rightDown, pathVTo (q.y - r), pathArc r .downRight, pathHTo q.x]
      else
        [pathHTo (q.x - r * 2), pathArc r .rightUp, pathVTo (q.y + r), pathArc r .upRight]
  | .right, .left => some <|
      pathHTo (Scalar.max p.x q.x) ::
        (if p.y < q.y then [pathArc r .rightDown, pathVTo (q.y - r), pathArc r .downLeft]
         else [pathArc r .rightUp, pathVTo (q.y + r), pathArc r .upLeft]) ++ [pathHTo q.x]
  | .right, .up => some [pathHTo (q.x - r), pathArc r .rightUp, pathVTo q.y]
  | .right, .down => some [pathHTo (q.x - r), pathArc r .rightDown, pathVTo q.y]
  | .left, .right => some <|
      pathHTo (Scalar.min p.x q.x) ::
        (if p.y < q.y then [pathArc r .leftDown, pathVTo (q.y - r), pathArc r .downRight]
         else [pathArc r .leftUp, pathVTo (q.y + r), pathArc r .upRight]) ++ [pathHTo q.x]
  | .left, .left => some <|
      if p.y < q.y then
        [pathArc r .leftDown, pathVTo (q.y - r), pathArc r .downLeft, pathHTo q.x]
      else
        [pathHTo (if p.x < q.x then q.x - r * 2 else q.x + r * 2), pathArc r .leftUp,
          pathVTo (q.y + r), pathArc r .upLeft]
  | .left, .up => some [pathHTo (q.x + r), pathArc r .leftUp, pathVTo q.y]
  | .left, .down => some [pathHTo (q.x + r), pathArc r .leftDown, pathVTo q.y]
  | .up, .right => some [pathVTo (q.y + r), pathArc r .upRight, pathHTo q.x]
  | .down, .right => some [pathVTo (q.y - r), pathArc r .downRight, pathHTo q.x]
  | .down, .left => some [pathVTo (q.y - r), pathArc r .downLeft, pathHTo q.x]
  | .down, .up => some <|
      pathVTo (Scalar.max p.y q.y) ::
        (if q.x < p.x then [pathArc r .downLeft, pathHTo (q.x + r), pathArc r .leftUp]
         else [pathArc r .downRight, pathHTo (q.x - r), pathArc r .rightUp]) ++ [pathVTo q.y]
  | .down, .down => some <|
      pathVTo (Scalar.max p.y q.y - r * 2) ::
        (if q.x < p.x then [pathArc r .downLeft, pathHTo (q.x + r), pathArc r .leftDown]
         else [pathArc r .downRight, pathHTo (q.x - r), pathArc r .rightDown])
  | _, _ => none

namespace Composite

/-- The line that an arrow draws before its head, if it is long enough to have one. -/
def shaft? : Composite α → Option (Composite α)
  | arrowLeft p length size =>
      if size / 2 < length then some (hline p (p.move (-length + size / 2) 0) .line) else none
  | arrowRight p length size =>
      if size / 2 < length then some (hline p (p.move (length - size / 2) 0) .line) else none
  | arrowDown p length size =>
      if size / 2 < length then some (vline p (p.move 0 (length - size / 2)) .line) else none
  | _ => none

/-- The primitives that draw a composite, those of its shaft apart. -/
def strokes : Composite α → Except SurfaceFault (List (Primitive α))
  | hline p q style => .ok [pathBegin p.x p.y style, pathHTo q.x, pathEnd]
  | vline p q style => .ok [pathBegin p.x p.y style, pathVTo q.y, pathEnd]
  | arrowLeft p length size => .ok [pathBegin (p.x - length) p.y .arrow, pathArrowLeft size, pathEnd]
  | arrowRight p length size => .ok [pathBegin (p.x + length) p.y .arrow, pathArrowRight size, pathEnd]
  | arrowDown p length size => .ok [pathBegin p.x (p.y + length) .arrow, pathArrowDown size, pathEnd]
  | connector leaving p q arriving r style =>
      match connectorSegments? leaving arriving p q r with
      | some segments => .ok (pathBegin p.x p.y style :: segments ++ [pathEnd])
      | none => .error (.unsupportedConnector leaving arriving)

/-- All primitives that draw a composite. -/
def primitives (c : Composite α) : Except SurfaceFault (List (Primitive α)) := do
  let shaft ← match c.shaft? with
    | some line => line.strokes
    | none => .ok []
  return shaft ++ (← c.strokes)

end Composite

/-- The primitives that draw a call. -/
def Call.primitives : Call α → Except SurfaceFault (List (Primitive α))
  | primitive p => .ok [p]
  | composite c => c.primitives

end Railroad
