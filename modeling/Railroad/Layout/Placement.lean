import Railroad.Geometry.Direction
import Railroad.Geometry.Metrics
/-!
How each kind of node places the boxes of its parts and grows around them.

A placement is computed in a frame of the node's own and then moved so that the node's box starts at the
origin.  The placed parts are returned in that frame.
-/
namespace Railroad

open Metrics

/-- A node's box with the boxes of its parts placed inside it. -/
structure Placement (α : Type) where
  box : Box α
  parts : List (Box α)
deriving Repr, DecidableEq

namespace Placement

variable {α : Type} [Scalar α]

/-- Moves the node's box to the origin and its parts along with it. -/
def normalize (p : Placement α) : Placement α :=
  ⟨p.box.normalize, p.parts.map (·.moveBy p.box.homing)⟩

/-- A leaf of so many letters: as wide as its text, with room for a flow arrow in front of it or on top
of it. -/
def leaf (direction : Direction) (letters : Nat) : Box α :=
  let length : α := Scalar.ofInt letters
  if direction = .none then
    (newBox.setWidth (length * lineHeight * Scalar.textRatio)).setHeight (lineHeight + padV * 2)
  else if direction.isHorizontal then
    (newBox.setWidth ((length + 2) * lineHeight * Scalar.textRatio + arrowSize + padH * 2)).setHeight
      (lineHeight + padV * 2)
  else
    (newBox.setWidth ((length + 2) * lineHeight * Scalar.textRatio + padH * 2)).setHeight
      (lineHeight + arrowSize + padV * 2)

/-- Title, rules and comment on top of one another; an absent title or comment is an empty box. -/
def heading (title rules comment : Box α) : Placement α :=
  let rules := rules.moveTo title.blCorner
  let comment := comment.moveTo rules.blCorner
  ⟨((newBox.includeBox title).includeBox rules).includeBox comment, [title, rules, comment]⟩

/-- Boxes on top of one another, each at the bottom-left corner of what is there. -/
def pile (box : Box α) : List (Box α) → Placement α
  | [] => ⟨box, []⟩
  | e :: es =>
      let e := e.moveTo box.blCorner
      let rest := pile (box.includeBox e) es
      ⟨rest.box, e :: rest.parts⟩

/-- The rules of a grammar. -/
def rules (productions : List (Box α)) : Placement α :=
  pile newBox productions

/-- A rule: its name above the line that leads in, the expression behind it, and room for the end of the
line. -/
def production (name expression : Box α) : Placement α :=
  let name := name.setYAnchor (lineHeight + padH)
  let expression := expression.moveLAnchor name.rAnchor
  let box := (newBox.includeBox name).includeBox expression
  let box := box.includePoint (expression.brCorner.move (padH * 3 + circle) 0)
  normalize ⟨box, [name, expression]⟩

/-- Alternatives side by side, each at the top-right corner of what is there. -/
def row (box : Box α) : List (Box α) → Placement α
  | [] => ⟨box, []⟩
  | e :: es =>
      let e := e.moveTo box.trCorner
      let rest := row (box.includeBox e) es
      ⟨rest.box, e :: rest.parts⟩

/-- A compact fan: the alternatives side by side, with room for arcs above and below them and for the
way in or out on the side that the flow leads to. -/
def fan (direction : Direction) (alternatives : List (Box α)) : Placement α :=
  let inner := row newBox alternatives
  let lift : α := Scalar.max padV radius
  let box := (inner.box.setYAnchor (-lift)).includePoint ⟨0, -lift * 2⟩
  let corner :=
    if direction = .right then box.brCorner.move (radius * 2) (lift * 2)
    else box.blCorner.move (-radius * 2) (lift * 2)
  normalize ⟨box.includePoint corner, inner.parts⟩

/-- Alternatives on top of one another, the first on the anchor row.  Unless the alternation is entered
from above, the second is kept clear of the arcs of the first. -/
def stackFrom (above : Bool) (index : Nat) (box : Box α) : List (Box α) → Placement α
  | [] => ⟨box, []⟩
  | e :: es =>
      let e :=
        if index = 0 then e.moveLAnchor box.lAnchor
        else if index = 1 && !above then
          e.moveTo (box.blCorner.max (box.lAnchor.move 0 (radius * 2 - e.lAnchor.y)))
        else e.moveTo box.blCorner
      let rest := stackFrom above (index + 1) (box.includeBox e) es
      ⟨rest.box, e :: rest.parts⟩

/-- A stack of alternatives with room on both sides for the lines between them, save where a rail of an
enclosing alternation serves for one. -/
def stack (above useLeft useRight : Bool) (alternatives : List (Box α)) : Placement α :=
  let inner := stackFrom above 0 newBox alternatives
  let box := inner.box
  let box :=
    if above then
      let box := box.includePoint ⟨-radius - padH, box.lAnchor.y - radius⟩
      box.includePoint (box.brCorner.move (radius + padH) 0)
    else
      let box := if useLeft then box else box.includePoint ⟨-radius * 2, 0⟩
      if useRight then box else box.includePoint (box.brCorner.move (radius * 2) 0)
  normalize ⟨box, inner.parts⟩

/-- Items along the flow, each joined to the last by their anchors. -/
def chain (rightwards : Bool) (box : Box α) (anchor : Point α) : List (Box α) → Placement α
  | [] => ⟨box, []⟩
  | e :: es =>
      let e := if rightwards then e.moveLAnchor anchor else e.moveRAnchor anchor
      let anchor := if rightwards then e.rAnchor else e.lAnchor
      let rest := chain rightwards (box.includeBox e) anchor es
      ⟨rest.box, e :: rest.parts⟩

/-- A sequence; its anchor row is that of its first item. -/
def sequence (rightwards : Bool) (items : List (Box α)) : Placement α :=
  let anchor := if rightwards then newBox.lAnchor else newBox.rAnchor
  let placed := normalize (chain rightwards newBox anchor items)
  match placed.parts with
  | [] => placed
  | first :: _ => { placed with box := placed.box.setYAnchor first.lAnchor.y }

/-- The part moved down until it is two arc radii below the anchor row of the box. -/
def clearOf (box e : Box α) : Box α :=
  let delta := radius * 2 - (e.lAnchor.y - box.lAnchor.y)
  if 0 < delta then e.moveBy ⟨0, delta⟩ else e

/-- A loop that may be passed by: the line runs on top and the body hangs below it, close if the body is
entered from above. -/
def repetition (above : Bool) (body : Box α) : Placement α :=
  let box := newBox.setYAnchor (padV + arrowSize / 2)
  let box := box.includePoint
    ⟨if above then radius - padH else radius + padH, padV * 2 + arrowSize⟩
  let body := body.moveTo box.brCorner
  if above then
    let body := body.moveBy ⟨0, Scalar.max 0 (radius - padV - arrowSize / 2)⟩
    normalize ⟨box.includePoint (body.brCorner.move (radius - padH) 0), [body]⟩
  else
    let body := clearOf box body
    normalize ⟨box.includePoint (body.brCorner.move (radius + padH) 0), [body]⟩

/-- A loop without a separator: room for the way back above the body. -/
def loop (body : Box α) : Placement α :=
  let body := body.moveLAnchor ⟨radius + padH, newBox.lAnchor.y⟩
  let high := body.rAnchor.move 0 (-(radius * 2 + arrowSize / 2 + padH))
  let corner := body.trCorner.move 0 (-(arrowSize + padH))
  let box := (newBox.includeBox body).includePoint ((high.min corner).move (radius + padH) 0)
  normalize ⟨box, [body]⟩

/-- A loop whose way back leads through a separator below the body. -/
def separatedLoop (body separator : Box α) : Placement α :=
  let body := body.moveLAnchor ⟨radius + padH, newBox.lAnchor.y⟩
  let separator := separator.moveTo body.blCorner
  let gap := Scalar.max 0 (radius * 2 - (separator.rAnchor.y - body.rAnchor.y))
  let separator := separator.moveBy ⟨0, gap⟩
  let box := (newBox.includeBox body).includeBox separator
  let box := box.includePoint ((body.brCorner.max separator.brCorner).move (radius + padH) 0)
  normalize ⟨box, [body, separator]⟩

/-- A way past the body: the line runs on top and the body hangs below it, joined to a rail where one
runs on its side. -/
def optional (above useLeft useRight : Bool) (body : Box α) : Placement α :=
  let corner : Point α :=
    if above then
      ⟨radius - padV, Scalar.max (padV + arrowSize + padV) (padV + arrowSize / 2 + radius)⟩
    else if useLeft then ⟨0, padV * 2 + arrowSize⟩
    else ⟨radius * 2, padV * 2 + arrowSize⟩
  let box := (newBox.includePoint corner).setYAnchor (padV + arrowSize / 2)
  let body := body.moveTo box.brCorner
  if above then
    normalize ⟨box.includePoint (body.brCorner.move (radius - padH) 0), [body]⟩
  else
    let body := clearOf box body
    let corner := if useRight then body.brCorner else body.brCorner.move (radius * 2) 0
    normalize ⟨box.includePoint corner, [body]⟩

end Placement

end Railroad
