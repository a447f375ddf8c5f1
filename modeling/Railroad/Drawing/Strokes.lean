import Railroad.Drawing.Connector
import Railroad.Layout.Context
/-!
What each kind of node draws itself, around its parts: from its own box, the boxes of its parts, and the
context that it is drawn in.
-/
namespace Railroad.Strokes

open Metrics

variable {α : Type} [Scalar α]

/-- A connector in the usual radius and style. -/
def connect (leaving : Direction) (p q : Point α) (arriving : Direction) : Call α :=
  .composite (.connector leaving p q arriving radius .line)

def hline (p q : Point α) : Call α :=
  .composite (.hline p q .line)

def vline (p q : Point α) : Call α :=
  .composite (.vline p q .line)

omit [Scalar α] in
/-- Calls with another origin in force. -/
def within (origin : Point α) {β : Type} (call : Call α → β) (inner : List β) : List β :=
  call (.primitive (.pushTranslate origin)) :: inner ++ [call (.primitive .popTranslate)]

/-- The line under a rule's name, the line behind its expression, and the dot at its end. -/
def production (name expression : Box α) : List (Call α) :=
  let stop := expression.rAnchor.move (padH * 2) 0
  [hline (name.lAnchor.move padH 0) expression.lAnchor,
    hline expression.rAnchor stop,
    .primitive (.circle (stop.x + circle / 2) stop.y circle .terminator)]

/-- The arcs of a fan whose flow heads right: in at the top of the last alternative, out at the bottom
of the first. -/
def fanRightwards (above : Bool) (box first last : Box α) (alternatives : List (Box α)) :
    List (Call α) :=
  let back := box.tlCorner.negate
  let top := box.rAnchor.translate back
  let bottom := (box.blCorner.move (radius * 2) (-radius)).translate back
  let ends :=
    if above then
      [connect .down (box.tlAnchor.translate back) last.tCenter .down,
        connect .down first.bCenter (box.trAnchor.translate back) .up]
    else
      let mid := (box.brCorner.move (-radius * 2) (-radius)).translate back
      [connect .right (box.lAnchor.translate back) last.tCenter .down,
        connect .down first.bCenter mid .right,
        connect .right mid (box.rAnchor.translate back) .right]
  let each (i : Nat) (b : Box α) :=
    (if 0 < i then [connect .down b.bCenter ⟨b.bCenter.x + radius, bottom.y⟩ .right] else [])
      ++ (if i + 1 < alternatives.length then
            [connect .right ⟨b.tCenter.x - radius, top.y⟩ b.tCenter .down] else [])
  ends ++ (alternatives.mapIdx each).flatten

/-- The arcs of a fan whose flow heads left: in at the top of the first alternative, out at the bottom
of the last. -/
def fanLeftwards (above : Bool) (box first last : Box α) (alternatives : List (Box α)) :
    List (Call α) :=
  let back := box.tlCorner.negate
  let top := box.rAnchor.translate back
  let bottom := (box.blCorner.move (radius * 2) (-radius)).translate back
  let ends :=
    if above then
      [connect .down (box.trAnchor.translate back) first.tCenter .down,
        connect .down last.bCenter (box.tlAnchor.translate back) .up]
    else
      let mid := (box.blCorner.move (radius * 2) (-radius)).translate back
      [connect .left (box.rAnchor.translate back) first.tCenter .down,
        connect .down last.bCenter mid .left,
        connect .left mid (box.lAnchor.translate back) .left]
  let each (i : Nat) (b : Box α) :=
    (if 0 < i then [connect .up b.tCenter ⟨b.tCenter.x + radius, top.y⟩ .right] else [])
      ++ (if i + 1 < alternatives.length then
            [connect .down b.bCenter ⟨b.bCenter.x - radius, bottom.y⟩ .left] else [])
  ends ++ (alternatives.mapIdx each).flatten

/-- The arcs of a fan. -/
def fan (direction : Direction) (above : Bool) (box first last : Box α)
    (alternatives : List (Box α)) : List (Call α) :=
  if direction = .right then fanRightwards above box first last alternatives
  else fanLeftwards above box first last alternatives

/-- The connectors of a stack of alternatives.  The last alternative hangs on the lines or rails of both
sides, the first is on the straight line, and those between branch off. -/
def stack (s : Surroundings α) (above : Bool) (box first last : Box α) (alternatives : List (Box α)) :
    List (Call α) :=
  let back := box.tlCorner.negate
  let useLeft := s.useLeft && !above
  let useRight := s.useRight && !above
  let start :=
    if above then box.tlAnchor.translate back
    else if useLeft then (box.lAnchor.translate back).withX s.left
    else box.lAnchor.translate back
  let stop :=
    if above then box.trAnchor.translate back
    else if useRight then (box.rAnchor.translate back).withX s.right
    else box.rAnchor.translate back
  let leaving : Direction := if above || useLeft then .down else .right
  let arriving : Direction := if above || useRight then .up else .right
  let lastCalls :=
    [if useLeft then connect .down ⟨start.x, last.lAnchor.y - radius⟩ last.lAnchor .right
     else connect leaving start last.lAnchor .right,
     if useRight then
       connect .right last.rAnchor
         ⟨stop.x, Scalar.min s.bottom (last.rAnchor.y - radius)⟩ arriving
     else connect .right last.rAnchor stop arriving]
  let firstCalls :=
    if above then []
    else
      [if useLeft then connect leaving start first.lAnchor .right else hline start first.lAnchor,
       if useRight then
         hline first.rAnchor ⟨box.rAnchor.x - box.tl.x, first.rAnchor.y - radius⟩
       else hline first.rAnchor stop]
  let start := if above || useLeft then start else start.move radius 0
  let stop := if above || useRight then stop else stop.move (-radius) 0
  let between := (if above then alternatives else alternatives.drop 1).dropLast
  lastCalls ++ firstCalls ++ between.flatMap fun b =>
    [connect .down ⟨start.x, b.lAnchor.y - radius⟩ b.lAnchor .right,
      connect .right b.rAnchor ⟨stop.x, b.rAnchor.y - radius⟩ .up]

/-- The arrowhead on the line past an optional part, along the flow. -/
def forwardArrow (direction : Direction) (box : Box α) : Call α :=
  let tip := box.cAnchor.move (arrowSize / 2) 0
  .composite <| if direction = .right then .arrowRight tip 0 arrowSize else .arrowLeft tip 0 arrowSize

/-- The line past a repeated body, and the loop that joins the body to it. -/
def repetition (direction : Direction) (above : Bool) (box body : Box α) : List (Call α) :=
  let line := [forwardArrow direction box, hline box.lAnchor box.rAnchor]
  let row := box.lAnchor.y
  if above then
    let left := body.tlAnchor.translate box.tlCorner
    let right := body.trAnchor.translate box.tlCorner
    line ++ [connect .left ⟨right.x + radius, row⟩ left .down,
      connect .right ⟨left.x - radius, row⟩ right .down]
  else
    let left := body.lAnchor.translate box.tlCorner
    let right := body.rAnchor.translate box.tlCorner
    line ++ [connect .right ⟨right.x, row⟩ right .left, connect .left left ⟨left.x, row⟩ .right]

/-- The lines in and out of a loop's body, and the way back over it with an arrowhead against the
flow. -/
def loop (direction : Direction) (box body : Box α) : List (Call α) :=
  let rise := Scalar.max (radius * 2) (body.rAnchor.y - body.trCorner.y + padH)
  let anchor := body.rAnchor.move 0 (-rise)
  let tip := anchor.move (-body.width / 2) 0
  [hline ⟨0, body.lAnchor.y⟩ body.lAnchor,
    hline body.rAnchor ⟨box.width, body.rAnchor.y⟩,
    connect .right body.rAnchor anchor .left,
    connect .left anchor body.lAnchor .right,
    .composite <| if direction = .right then .arrowLeft tip 0 arrowSize
      else .arrowRight tip 0 arrowSize]

/-- The lines in and out of a loop's body, and the way back through its separator. -/
def separatedLoop (box body separator : Box α) : List (Call α) :=
  [hline ⟨0, body.lAnchor.y⟩ body.lAnchor,
    hline body.rAnchor ⟨box.width, body.rAnchor.y⟩,
    connect .right body.rAnchor separator.rAnchor .left,
    connect .left separator.lAnchor body.lAnchor .right]

/-- The line past an optional body, and the ways to and from the body: off that line, or off the rails
where there are any. -/
def optional (s : Surroundings α) (above : Bool) (box body : Box α) : List (Call α) :=
  let start := box.lAnchor
  let stop := box.rAnchor
  let line := [hline start stop, forwardArrow s.direction box]
  if above then
    let left := body.tlAnchor.translate box.tlCorner
    let right := body.trAnchor.translate box.tlCorner
    line ++ [connect .right start left .down, connect .up right stop .right]
  else
    let left := body.lAnchor.translate box.tlCorner
    let right := body.rAnchor.translate box.tlCorner
    line ++
      [if s.useLeft then connect .down ⟨s.left, Scalar.min s.bottom (left.y - radius)⟩ left .right
       else connect .right start left .right,
       if s.useRight then connect .right right ⟨s.right, Scalar.min (right.y - radius) s.bottom⟩ .up
       else connect .right right stop .right]

/-- A leaf: a flow arrow before it and a line behind it, its outline, and its text.  Outside the rules
there is the text alone. -/
def leaf (direction : Direction) (isLinked : Bool) (isPlain : Bool) (style : Style) (box : Box α)
    (text : String) : List (Call α) :=
  let style := if direction = .none && style != .title then .production else style
  let low := box.tlCorner.move padH padV
  let high := box.brCorner.move (-padH) (-padV)
  let (low, high, arrow) : Point α × Point α × List (Call α) :=
    match direction with
    | .down => (low.move 0 arrowSize, high,
        [.composite (.arrowDown box.tCenter (padV + arrowSize) arrowSize),
          vline (box.bCenter.move 0 (-padV)) box.bCenter])
    | .left => (low, high.move (-arrowSize) 0,
        [.composite (.arrowLeft box.rAnchor (padH + arrowSize) arrowSize),
          hline box.lAnchor (box.lAnchor.move padH 0)])
    | .right => (low.move arrowSize 0, high,
        [.composite (.arrowRight box.lAnchor (padH + arrowSize) arrowSize),
          hline box.rAnchor (box.rAnchor.move (-padH) 0)])
    | .none | .up => (low, high, [])
  let w := Scalar.max 0 (high.x - low.x)
  let h := Scalar.max 0 (high.y - low.y)
  let textHeight := Scalar.max 0 (h - textPad)
  let centered : Call α := .primitive (.centeredText low.x low.y w textHeight text style)
  arrow ++
    if style = .production || style = .title then
      [.primitive (.text (low.x + padH) low.y w textHeight text style)]
    else if style = .identifier then
      (if isLinked then [.primitive (.beginLink text)] else [])
        ++ [.primitive (.rectangle low.x low.y w h style), centered]
        ++ (if isLinked then [.primitive .endLink] else [])
    else if isPlain then
      [centered]
    else
      [.primitive (.roundedRectangle low.x low.y w h style), centered]

end Railroad.Strokes
