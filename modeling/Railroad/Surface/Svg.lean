import Railroad.Surface.Reply
import Railroad.Text.Lines
import Railroad.Text.Markup
/-!
SVG documents, alone or inside an HTML page: the elements that the primitives write, and their text.

Every element carries a class for a stylesheet, and unless told otherwise its own looks too.
-/
namespace Railroad

/-- A segment of a path.  Lines lead to an absolute coordinate, arcs to a relative point; a head is a
closed polygon from the current point, by relative steps. -/
inductive SvgSegment (α : Type) where
  | horizontal (x : α)
  | vertical (y : α)
  | arc (radius : α) (sweep : Bool) (delta : Point α)
  | head (steps : List (Point α))
deriving Repr, DecidableEq

/-- A piece of a document; starts and ends are pieces of their own. -/
inductive SvgPiece (α : Type) where
  | pageStart (title : String) (stylesheet : Option String)
  | pageEnd
  | frameStart (name : String)
  | frameEnd
  | declaration
  | stylesheet (href : String)
  | svgStart (width height : α)
  | svgEnd
  | linkStart (name : String)
  | linkEnd
  | rect (x y w h : α) (style : Style)
  | roundRect (rounding x y w h : α) (style : Style)
  | circle (x y r : α) (style : Style)
  | text (anchor : Option String) (x y : α) (centered : Bool) (text : String) (style : Style)
  | path (style : Style) (start : Point α) (segments : List (SvgSegment α))
deriving Repr, DecidableEq

/-- An open path: its style, first point and segments, the last segment first. -/
structure SvgPath (α : Type) where
  style : Style
  start : Point α
  segments : List (SvgSegment α)

/-- How documents are written. -/
structure SvgOptions where
  /-- The stylesheet that the document links to, if any. -/
  stylesheet : Option String
  /-- Whether elements carry their own looks. -/
  inlineStyle : Bool
  /-- The title of the page around the diagrams, if there is one. -/
  page : Option String
deriving Repr, DecidableEq

/-- A document being written. -/
structure Svg (α : Type) where
  options : SvgOptions
  origins : Origins α
  pieces : Array (SvgPiece α)
  path : Option (SvgPath α)

namespace Svg

variable {α : Type} [Scalar α]

def start (options : SvgOptions) : Svg α :=
  ⟨options, .start, #[], none⟩

omit [Scalar α] in
/-- Appends a piece. -/
def write (s : Svg α) (p : SvgPiece α) : Svg α :=
  { s with pieces := s.pieces.push p }

omit [Scalar α] in
/-- The stylesheet, unless it is the empty text. -/
def href? (o : SvgOptions) : Option String :=
  o.stylesheet.filter (!·.isEmpty)

omit [Scalar α] in
/-- Adds a segment to the open path. -/
def segment (s : Svg α) (added : SvgSegment α) : Reply (Svg α) :=
  match s.path with
  | none => .wrong s .segmentOutsidePath
  | some path => .ok { s with path := some { path with segments := added :: path.segments } }

/-- Half a unit, by which shapes are set off so that their edges fall on pixels. -/
def half : α :=
  1 / 2

/-- Answers a primitive. -/
def primitive (s : Svg α) (p : Primitive α) : Reply (Svg α) :=
  match p with
  | .openDocument =>
      match s.options.page with
      | some title => .ok (s.write (.pageStart title (href? s.options)))
      | none => .ok s
  | .closeDocument =>
      match s.options.page with
      | some _ => .ok (s.write .pageEnd)
      | none => .ok s
  | .pushTranslate origin => .ok { s with origins := s.origins.push origin }
  | .popTranslate =>
      match s.origins.pop with
      | .ok origins => .ok { s with origins }
      | .error fault => .wrong s fault
  | .beginDiagram x y w h name =>
      let s := match s.options.page with
        | some _ => s.write (.frameStart name)
        | none =>
            let s := s.write .declaration
            match href? s.options with
            | some href => s.write (.stylesheet href)
            | none => s
      .ok { s.write (.svgStart w h) with origins := s.origins.push ⟨-x, -y⟩ }
  | .endDiagram =>
      match s.origins.pop with
      | .error fault => .wrong s fault
      | .ok origins =>
          let s := { s with origins }.write .svgEnd
          .ok (if s.options.page.isSome then s.write .frameEnd else s)
  | .beginLink name => .ok (s.write (.linkStart name))
  | .endLink => .ok (s.write .linkEnd)
  | .rectangle x y w h style =>
      .ok (s.write (.rect (s.origins.toX (x + half)) (s.origins.toY (y + half)) w h style))
  | .roundedRectangle x y w h style =>
      .ok (s.write
        (.roundRect (h / 2) (s.origins.toX (x + half)) (s.origins.toY (y + half)) w h style))
  | .circle x y r style =>
      .ok (s.write (.circle (s.origins.toX (x + half)) (s.origins.toY (y + half)) r style))
  | .text x y _ h text style =>
      let anchor := if style = .production then some text else none
      .ok (s.write (.text anchor (s.origins.toX x) (s.origins.toY (y + h / 2)) false text style))
  | .centeredText x y w h text style =>
      .ok (s.write
        (.text none (s.origins.toX (x + w / 2)) (s.origins.toY (y + h / 2)) true text style))
  | .pathBegin x y style =>
      match s.path with
      | some _ => .wrong s .pathOpen
      | none => .ok { s with path := some ⟨style, s.origins.toPoint x y, []⟩ }
  | .pathHTo x => s.segment (.horizontal (s.origins.toX x))
  | .pathVTo y => s.segment (.vertical (s.origins.toY y))
  | .pathArc radius arc =>
      let d : Point α := arc.delta
      s.segment (.arc radius arc.clockwise ⟨d.x * radius, d.y * radius⟩)
  | .pathArrowLeft size => s.segment (.head [⟨size, size / 2⟩, ⟨0, -size⟩])
  | .pathArrowRight size => s.segment (.head [⟨-size, -size / 2⟩, ⟨0, size⟩, ⟨size, -size / 2⟩])
  | .pathArrowDown size => s.segment (.head [⟨-size / 2, -size⟩, ⟨size, 0⟩])
  | .pathEnd =>
      match s.path with
      | none => .wrong s .pathNotBegun
      | some path =>
          .ok { s.write (.path path.style path.start path.segments.reverse) with path := none }

end Svg

/-- The class of a style in stylesheets. -/
def Style.className : Style → String
  | line => "line"
  | arrow => "arrow"
  | box => "box"
  | production => "prod"
  | literal => "literal"
  | identifier => "ident"
  | terminator => "end"
  | other => "other"
  | title => "title"

/-- The colour of a style's text. -/
def Style.textFill : Style → String
  | literal => "green"
  | other => "blue"
  | _ => "black"

namespace SvgPiece

variable {α : Type}

/-- An attribute with a value that needs no escapes. -/
def attr (name value : String) : String :=
  String.join [" ", name, "=\"", value, "\""]

/-- The class and the looks of a shape. -/
def shapeLooks (inlineStyle : Bool) (style : Style) : String :=
  attr "class" style.className ++
    if !inlineStyle then ""
    else if style.isFilled then " stroke=\"none\" fill=\"black\""
    else " stroke=\"black\" fill=\"none\" stroke-width=\"2px\""

/-- The class and the looks of a text. -/
def textLooks (inlineStyle : Bool) (style : Style) : String :=
  attr "class" style.className ++
    if !inlineStyle then ""
    else attr "fill" style.textFill ++ " stroke=\"none\" font-family=\"Courier,monospace\""
      ++ " font-weight=\"bold\" font-size=\"20px\""

/-- The text of a segment, as path data. -/
def segmentText (number : α → String) : SvgSegment α → String
  | .horizontal x => " H " ++ number x
  | .vertical y => " V " ++ number y
  | .arc radius sweep delta =>
      let r := number radius
      String.join [" a ", r, " ", r, " 0 0 ", if sweep then "1" else "0", " ", number delta.x, " ",
        number delta.y]
  | .head steps =>
      " l " ++ String.join (steps.map fun p => number p.x ++ " " ++ number p.y ++ " ") ++ "z"

/-- The text of a piece, its numbers written by `number`. -/
def print (number : α → String) (inlineStyle : Bool) : SvgPiece α → String
  | pageStart title sheet =>
      String.join ["<html>\n<head>\n  <title>", Text.markupData title, "</title>\n",
        "  <meta http-equiv=\"Content-Type\" content=\"application/xhtml+xml; charset=UTF-8\"></meta>\n",
        match sheet with
        | some href =>
            "  <link type=\"text/css\" rel=\"stylesheet\""
              ++ attr "href" (Text.markupAttribute href) ++ "></link>\n"
        | none => "",
        "</head>\n<body>\n"]
  | pageEnd => "</body>\n</html>\n"
  | frameStart name => "<div><a" ++ attr "name" (Text.markupAttribute name) ++ ">\n"
  | frameEnd => "</a></div>\n"
  | declaration => "<?xml version=\"1.0\" encoding=\"UTF-8\"?>\n"
  | stylesheet href =>
      "<?xml-stylesheet" ++ attr "href" (Text.markupAttribute href) ++ " type=\"text/css\"?>\n"
  | svgStart width height =>
      String.join ["<svg overflow=\"visible\" xmlns=\"http://www.w3.org/2000/svg\" version=\"1.1\"",
        " xmlns:svg=\"http://www.w3.org/2000/svg\" xmlns:xlink=\"http://www.w3.org/1999/xlink\"",
        attr "width" (number width ++ "px"), attr "height" (number height ++ "px"), ">\n"]
  | svgEnd => "</svg>\n"
  | linkStart name => "  <a" ++ attr "xlink:href" ("#" ++ Text.markupAttribute name) ++ ">\n"
  | linkEnd => "  </a>\n"
  | rect x y w h style =>
      String.join ["  <rect", attr "x" (number x), attr "y" (number y),
        attr "width" (number w), attr "height" (number h), shapeLooks inlineStyle style,
        "></rect>\n"]
  | roundRect rounding x y w h style =>
      String.join ["  <rect", attr "rx" (number rounding), attr "ry" (number rounding),
        attr "x" (number x), attr "y" (number y), attr "width" (number w),
        attr "height" (number h), shapeLooks inlineStyle style, "></rect>\n"]
  | circle x y r style =>
      String.join ["  <circle", attr "cx" (number x), attr "cy" (number y),
        attr "r" (number r), shapeLooks inlineStyle style, " />\n"]
  | text anchor x y centered content style =>
      String.join ["  <text",
        match anchor with
        | some name => attr "id" (Text.markupAttribute name)
        | none => "",
        attr "x" (number x), attr "y" (number y),
        if centered then " text-anchor=\"middle\"" else "", " alignment-baseline=\"central\"",
        textLooks inlineStyle style, ">", Text.markupData content, "</text>\n"]
  | path style start segments =>
      String.join ["  <path", shapeLooks inlineStyle style, " d=\"M ", number start.x, " ",
        number start.y, String.join (segments.map (segmentText number)), "\"/>\n"]

end SvgPiece

end Railroad
