import Railroad.Geometry.Metrics
import Railroad.Surface.Reply
/-!
TikZ pictures inside a LaTeX figure.  The picture is flipped, so that coordinates serve unchanged, and
lengths are in units of the text size.
-/
namespace Railroad

/-- A segment of a path: a line to an absolute point, an arc between two angles in degrees, or a closed
polygon by relative steps. -/
inductive TikzSegment (α : Type) where
  | line (p : Point α)
  | arc (fromAngle toAngle : Int) (radius : α)
  | head (steps : List (Point α))
deriving Repr, DecidableEq

/-- A piece of a picture; the figure's start and end are pieces of their own. -/
inductive TikzPiece (α : Type) where
  | figureStart (caption label : String)
  | figureEnd
  | rectangle (p q : Point α)
  | rounded (radius : α) (p q : Point α)
  | circle (filled : Bool) (p : Point α) (r : α)
  | text (p : Point α) (centered : Bool) (text : String)
  | path (filled : Bool) (start : Point α) (segments : List (TikzSegment α))
deriving Repr, DecidableEq

/-- An open path: its first point, and the segments, the last one first. -/
structure TikzPath (α : Type) where
  filled : Bool
  start : Point α
  segments : List (TikzSegment α)

/-- How figures are written. -/
structure TikzOptions where
  caption : String
  label : String
deriving Repr, DecidableEq

/-- A picture being written. -/
structure Tikz (α : Type) where
  options : TikzOptions
  origins : Origins α
  pieces : Array (TikzPiece α)
  path : Option (TikzPath α)
  /-- Where the last line or arc led to; a path that begins moves it to its first point. -/
  pen : Point α

/-- The angles at which an arc starts and ends, counterclockwise from the right in the flipped
picture. -/
def Arc.angles : Arc → Int × Int
  | rightUp => (90, 0)
  | rightDown => (-90, 0)
  | leftUp => (-90, -180)
  | leftDown => (90, 180)
  | upRight => (180, 270)
  | upLeft => (0, -90)
  | downRight => (180, 90)
  | downLeft => (0, 90)

namespace Tikz

variable {α : Type} [Scalar α]

def start (options : TikzOptions) : Tikz α :=
  ⟨options, .start, #[], none, .zero⟩

omit [Scalar α] in
/-- Appends a piece. -/
def write (s : Tikz α) (p : TikzPiece α) : Tikz α :=
  { s with pieces := s.pieces.push p }

omit [Scalar α] in
/-- Adds a segment to the open path. -/
def segment (s : Tikz α) (added : TikzSegment α) : Reply (Tikz α) :=
  match s.path with
  | none => .wrong s .segmentOutsidePath
  | some path => .ok { s with path := some { path with segments := added :: path.segments } }

omit [Scalar α] in
/-- Moves the pen, even if there is no open path, and adds the line to it. -/
def lineTo (s : Tikz α) (pen : Point α) : Reply (Tikz α) :=
  { s with pen }.segment (.line pen)

/-- Answers a primitive. -/
def primitive (s : Tikz α) (p : Primitive α) : Reply (Tikz α) :=
  match p with
  | .openDocument => .ok (s.write (.figureStart s.options.caption s.options.label))
  | .closeDocument => .ok (s.write .figureEnd)
  | .pushTranslate origin => .ok { s with origins := s.origins.push origin }
  | .popTranslate | .endDiagram =>
      match s.origins.pop with
      | .ok origins => .ok { s with origins }
      | .error fault => .wrong s fault
  | .beginDiagram x y _ _ _ => .ok { s with origins := s.origins.push ⟨-x, -y⟩ }
  | .beginLink _ | .endLink => .ok s
  | .rectangle x y w h _ =>
      .ok (s.write (.rectangle (s.origins.toPoint x y) (s.origins.toPoint (x + w) (y + h))))
  | .roundedRectangle x y w h _ =>
      .ok (s.write (.rounded (h / 2) (s.origins.toPoint x y) (s.origins.toPoint (x + w) (y + h))))
  | .circle x y r style => .ok (s.write (.circle style.isFilled (s.origins.toPoint x y) r))
  | .text x y _ h text _ => .ok (s.write (.text (s.origins.toPoint x (y + h / 2)) false text))
  | .centeredText x y w h text _ =>
      .ok (s.write (.text (s.origins.toPoint (x + w / 2) (y + h / 2)) true text))
  | .pathBegin x y style =>
      match s.path with
      | some _ => .wrong s .pathOpen
      | none =>
          let p := s.origins.toPoint x y
          .ok { s with path := some ⟨style.isFilled, p, []⟩, pen := p }
  | .pathHTo x => s.lineTo (s.pen.withX (s.origins.toX x))
  | .pathVTo y => s.lineTo (s.pen.withY (s.origins.toY y))
  | .pathArc radius arc =>
      let d : Point α := arc.delta
      (s.segment (.arc arc.angles.1 arc.angles.2 radius)).andThen fun s =>
        .ok { s with pen := s.pen.move (d.x * radius) (d.y * radius) }
  | .pathArrowLeft size => s.segment (.head [⟨size, size / 2⟩, ⟨0, -size⟩])
  | .pathArrowRight size => s.segment (.head [⟨-size, -size / 2⟩, ⟨0, size⟩, ⟨size, -size / 2⟩])
  | .pathArrowDown size => s.segment (.head [⟨-size / 2, -size⟩, ⟨size, 0⟩])
  | .pathEnd =>
      match s.path with
      | none => .wrong s .pathNotBegun
      | some path =>
          .ok { s.write (.path path.filled path.start path.segments.reverse) with path := none }

end Tikz

/-- A character inside a TikZ node: braces are escaped, backslashes dropped, and underscores become
blanks. -/
def texChar (c : Char) : List Char :=
  if c = '\x7b' || c = '\x7d' then ['\\', c]
  else if c = '\\' then []
  else if c = '_' then [' ']
  else [c]

/-- A text inside a TikZ node. -/
def texText (text : String) : String :=
  String.ofList (text.toList.flatMap texChar)

namespace TikzPiece

variable {α : Type}

/-- A point as a coordinate. -/
def coordinate (length : α → String) (p : Point α) : String :=
  String.join ["(", length p.x, ",", length p.y, ")"]

/-- The command that fills or outlines a path. -/
def command (filled : Bool) : String :=
  if filled then "\\fill" else "\\draw"

/-- The text of a segment. -/
def segmentText (length : α → String) : TikzSegment α → String
  | .line p => " -- " ++ coordinate length p
  | .arc a b radius => String.join [" arc (", toString a, ":", toString b, ":", length radius, ")"]
  | .head steps =>
      String.join (steps.map fun p => " -- ++" ++ coordinate length p) ++ " -- cycle"

/-- The text of a piece, its lengths written by `length`. -/
def print (length : α → String) : TikzPiece α → String
  | figureStart caption label =>
      String.join ["\\begin\x7bfigure\x7d[H]\n\\caption\x7b", texText caption, "\x7d\n\\label\x7b", label,
        "\x7d\n\\center\n\\begin\x7btikzpicture\x7d[yscale=-1]\n"]
  | figureEnd => "\\end\x7btikzpicture\x7d\n\\end\x7bfigure\x7d\n"
  | rectangle p q =>
      String.join ["  \\draw ", coordinate length p, " rectangle ", coordinate length q, ";\n"]
  | rounded radius p q =>
      String.join ["  \\draw [rounded corners = ", length radius, "] ", coordinate length p,
        " rectangle ", coordinate length q, ";\n"]
  | circle filled p r =>
      String.join ["  ", command filled, " ", coordinate length p, " circle (", length r, ");\n"]
  | text p centered content =>
      String.join ["  \\draw ", coordinate length p,
        if centered then " node \x7b" else " node[anchor=west] \x7b", texText content, "\x7d;\n"]
  | path filled start segments =>
      String.join ["  ", command filled, " ", coordinate length start,
        String.join (segments.map (segmentText length)), ";\n"]

end TikzPiece

end Railroad
