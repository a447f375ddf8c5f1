import Railroad.Surface.Reply
/-!
Raster images: the commands that a painter of pixels is given.  Coordinates are scaled, and every
diagram has a white margin.  Which images and letters there can be, and how large a text is, is the
painter's to say.
-/
namespace Railroad

/- Powers are those of the core library, whatever else is in sight. -/
attribute [local instance (2000)] instPowNat

/-- How images are drawn. -/
structure PngOptions where
  scale : Int
  margin : Int
  lineWidth : Int
  fontSize : Int
deriving Repr, DecidableEq

/-- Red, green and blue. -/
structure Color where
  red : Nat
  green : Nat
  blue : Nat
deriving Repr, DecidableEq

/-- The colour of lines. -/
def Color.ink : Color :=
  ⟨0, 0, 0⟩

/-- The colour of a style's text. -/
def Style.textColor : Style → Color
  | literal => ⟨0, 128, 0⟩
  | other => ⟨0, 0, 255⟩
  | _ => .ink

/-- The corners of an area. -/
structure Bounds (α : Type) where
  low : Point α
  high : Point α
deriving Repr, DecidableEq

/-- A command to the painter. -/
inductive PngCommand (α : Type) where
  /-- A new white image. -/
  | image (width height : Int)
  | rectangle (bounds : Bounds α) (width : Int)
  | roundedRectangle (bounds : Bounds α) (radius : α) (width : Int)
  | ellipse (bounds : Bounds α)
  | line (p q : Point α) (width : Int)
  /-- An arc clockwise from one angle to another, in degrees. -/
  | arc (bounds : Bounds α) (fromAngle toAngle : Int) (width : Int)
  | polygon (points : List (Point α))
  | text (p : Point α) (text : String) (color : Color)
deriving Repr, DecidableEq

/-- The line width of a command. -/
def PngCommand.width? {α : Type} : PngCommand α → Option Int
  | rectangle _ width | roundedRectangle _ _ width | line _ _ width | arc _ _ _ width => some width
  | _ => none

/-- What a painter answers when it is asked for images and letters. -/
structure Painter where
  /-- What is wrong with an image of some width and height. -/
  imageFault? : Int → Int → Option ImageFault
  /-- What is wrong with letters of some size. -/
  fontFault? : Int → Option ImageFault
  /-- The pixels of a text in letters of some size, when it is written at the origin. -/
  textBounds : Int → String → Bounds Int

/-- The bytes that the pixels of an image may take. -/
def imageLimit : Int :=
  2 ^ (32 : Nat)

/-- What is wrong with the sides of an image: each of them, its rows, or all of its pixels. -/
def imageFault? (width height : Int) : Option ImageFault :=
  let side (n : Int) : Option ImageFault :=
    if 2 ^ (63 : Nat) ≤ n then some (.hugeSide true)
    else if 2 ^ (31 : Nat) ≤ n then some (.hugeSide false)
    else none
  match side width, side height with
  | some fault, _ => some fault
  | none, some fault => some fault
  | none, none =>
      if 2 ^ (29 : Nat) - 1 ≤ width || imageLimit < 4 * width * height then some .memory else none

/-- What is wrong with the size of letters. -/
def fontFault? (size : Int) : Option ImageFault :=
  if size ≤ 0 then some (.emptyFont size)
  else if 2 ^ (16 : Nat) ≤ size then some .hugeFont
  else none

/-- The pixels of a text whose letters are twelve wide and twenty high, whatever their size. -/
def letterBounds (text : String) : Bounds Int :=
  ⟨⟨1, 3⟩, ⟨1 + 12 * text.length, 3 + 20⟩⟩

/-- A painter with limits of its own and letters of one width. -/
def Painter.typewriter : Painter :=
  ⟨Railroad.imageFault?, Railroad.fontFault?, fun _ => letterBounds⟩

/-- An image being drawn. -/
structure Png (α : Type) where
  options : PngOptions
  painter : Painter
  origins : Origins α
  commands : Array (PngCommand α)
  /-- The size of the image begun last. -/
  size : Option (Int × Int)
  /-- Whether a diagram has begun and not ended. -/
  drawing : Bool
  /-- The absolute place of the pen while a path is open. -/
  pen : Option (Point α)
  /-- The arrowhead that the open path ends in. -/
  polygon : List (Point α)

/-- The unit vectors of travel before and after an arc. -/
def Arc.turn : Arc → (Int × Int) × (Int × Int)
  | rightUp => ((1, 0), (0, -1))
  | rightDown => ((1, 0), (0, 1))
  | leftUp => ((-1, 0), (0, -1))
  | leftDown => ((-1, 0), (0, 1))
  | upRight => ((0, -1), (1, 0))
  | upLeft => ((0, -1), (-1, 0))
  | downRight => ((0, 1), (1, 0))
  | downLeft => ((0, 1), (-1, 0))

/-- The angle of a unit vector along an axis, in degrees clockwise from the right. -/
def axisAngle (x y : Int) : Int :=
  if 0 < x then 0 else if 0 < y then 90 else if x < 0 then 180 else 270

namespace Png

variable {α : Type} [Scalar α]

def start (options : PngOptions) (painter : Painter := .typewriter) : Png α :=
  { options, painter, origins := .start, commands := #[], size := none, drawing := false, pen := none,
    polygon := [] }

/-- The scale as a number. -/
def factor (s : Png α) : α :=
  Scalar.ofInt s.options.scale

/-- The pixel of an absolute point. -/
def pixel (s : Png α) (p : Point α) : Point α :=
  ⟨p.x * s.factor, p.y * s.factor⟩

omit [Scalar α] in
/-- The width of lines in pixels. -/
def stroke (s : Png α) : Int :=
  s.options.lineWidth * s.options.scale

/-- The pixels of a local area. -/
def bounds (s : Png α) (x y w h : α) : Bounds α :=
  ⟨s.pixel (s.origins.toPoint x y), s.pixel (s.origins.toPoint (x + w) (y + h))⟩

/-- Gives a command, which only a diagram takes. -/
def give (s : Png α) (c : PngCommand α) : Reply (Png α) :=
  if !s.drawing then .wrong s .outsideDiagram
  else if c.width?.all (Scalar.fits α) then .ok { s with commands := s.commands.push c }
  else .wrong s (.image .hugeNumber)

/-- The number of pixels that cover a length, at least one. -/
def pixels (s : Png α) (length : α) : Except ImageFault Int :=
  let margins := s.options.margin * 2
  if !Scalar.fits α margins || !Scalar.fits α s.options.scale then .error .hugeNumber
  else
    let total := (length + Scalar.ofInt margins) * s.factor
    match Scalar.ceil? total with
    | some n => .ok (max 1 n)
    | none => .error (if total ≤ total then .infinite else .notANumber)

/-- The sides of an image for a length and a height. -/
def sides (s : Png α) (w h : α) : Except ImageFault (Int × Int) := do
  let width ← s.pixels w
  let height ← s.pixels h
  match s.painter.imageFault? width height with
  | some fault => .error fault
  | none => .ok (width, height)

omit [Scalar α] in
/-- The size of letters in pixels. -/
def fontSize (s : Png α) : Int :=
  s.options.fontSize * s.options.scale

/-- What keeps a text from being written. -/
def textFault? (s : Png α) : Option ImageFault :=
  if !Scalar.fits α s.options.scale then some .hugeNumber
  else if 0 < s.fontSize && !Scalar.fits α s.fontSize then some .hugeNumber
  else s.painter.fontFault? s.fontSize

/-- Writes a text whose middle row is at a pixel row. -/
def write (s : Png α) (p : Point α) (centered : Bool) (text : String) (style : Style) :
    Reply (Png α) :=
  match s.textFault? with
  | some fault => .wrong s (.image fault)
  | none =>
      let area := s.painter.textBounds s.fontSize text
      let width := area.high.x - area.low.x
      let height := area.high.y - area.low.y
      let left := if centered then p.x - Scalar.ofInt width / 2 else p.x
      s.give (.text ⟨left - Scalar.ofInt area.low.x,
        p.y - Scalar.ofInt height / 2 - Scalar.ofInt area.low.y⟩ text style.textColor)

/-- Draws from the pen to a point and moves the pen there. -/
def lineTo (s : Png α) (target : Point α → Point α) : Reply (Png α) :=
  match s.pen with
  | none => .wrong s .segmentOutsidePath
  | some pen =>
      (s.give (.line (s.pixel pen) (s.pixel (target pen)) s.stroke)).andThen fun s =>
        .ok { s with pen := some (target pen) }

/-- Draws an arc from the pen on, around its centre. -/
def arc (s : Png α) (radius : α) (a : Arc) : Reply (Png α) :=
  match s.pen with
  | none => .wrong s .segmentOutsidePath
  | some pen =>
      let ((ex, ey), (ox, oy)) := a.turn
      let center := pen.move (Scalar.ofInt ox * radius) (Scalar.ofInt oy * radius)
      let first := axisAngle (-ox) (-oy)
      let last := axisAngle ex ey
      let (first, last) := if a.clockwise then (first, last) else (last, first)
      let area : Bounds α := ⟨s.pixel ⟨center.x - radius, center.y - radius⟩,
        s.pixel ⟨center.x + radius, center.y + radius⟩⟩
      (s.give (.arc area first last s.stroke)).andThen fun s =>
        .ok { s with pen := some (center.move (Scalar.ofInt ex * radius) (Scalar.ofInt ey * radius)) }

/-- Keeps an arrowhead for the end of the path, by its corners relative to the pen. -/
def head (s : Png α) (corners : List (Point α)) : Reply (Png α) :=
  match s.pen with
  | none => .wrong s .segmentOutsidePath
  | some pen =>
      if Scalar.fits α s.options.scale then
        .ok { s with polygon := corners.map fun d => s.pixel (pen.move d.x d.y) }
      else .wrong s (.image .hugeNumber)

/-- Answers a primitive. -/
def primitive (s : Png α) (p : Primitive α) : Reply (Png α) :=
  match p with
  | .openDocument | .closeDocument | .beginLink _ | .endLink => .ok s
  | .pushTranslate origin => .ok { s with origins := s.origins.push origin }
  | .popTranslate =>
      match s.origins.pop with
      | .ok origins => .ok { s with origins }
      | .error fault => .wrong s fault
  | .beginDiagram x y w h _ =>
      match s.sides w h with
      | .error fault => .wrong s (.image fault)
      | .ok (width, height) =>
          let margin : α := Scalar.ofInt s.options.margin
          .ok { s with
            commands := s.commands.push (.image width height)
            size := some (width, height)
            drawing := true
            origins := s.origins.push ⟨margin - x, margin - y⟩ }
  | .endDiagram =>
      match s.origins.pop with
      | .ok origins => .ok { s with origins, drawing := false }
      | .error fault => .wrong s fault
  | .rectangle x y w h _ => s.give (.rectangle (s.bounds x y w h) s.stroke)
  | .roundedRectangle x y w h _ =>
      s.give (.roundedRectangle (s.bounds x y w h) (h / 2 * s.factor) s.stroke)
  | .circle x y r _ => s.give (.ellipse (s.bounds (x - r) (y - r) (r * 2) (r * 2)))
  | .text x y _ h text style =>
      s.write (s.pixel (s.origins.toPoint x (y + h / 2))) false text style
  | .centeredText x y w h text style =>
      s.write (s.pixel (s.origins.toPoint (x + w / 2) (y + h / 2))) true text style
  | .pathBegin x y _ =>
      match s.pen with
      | some _ => .wrong s .pathOpen
      | none => .ok { s with pen := some (s.origins.toPoint x y), polygon := [] }
  | .pathHTo x => s.lineTo (·.withX (s.origins.toX x))
  | .pathVTo y => s.lineTo (·.withY (s.origins.toY y))
  | .pathArc radius a => s.arc radius a
  | .pathArrowLeft size => s.head [⟨0, 0⟩, ⟨size, size / 2⟩, ⟨size, -size / 2⟩]
  | .pathArrowRight size => s.head [⟨0, 0⟩, ⟨-size, -size / 2⟩, ⟨-size, size / 2⟩]
  | .pathArrowDown size => s.head [⟨0, 0⟩, ⟨-size / 2, -size⟩, ⟨size / 2, -size⟩]
  | .pathEnd =>
      match s.pen with
      | none => .wrong s .pathNotBegun
      | some _ =>
          let s' := if s.polygon.isEmpty then .ok s else s.give (.polygon s.polygon)
          s'.andThen fun s => .ok { s with pen := none, polygon := [] }

end Png

end Railroad
