import Railroad.Surface.Settings
import Railroad.Text.LowerCase
import Railroad.Text.Quoted
/-!
Output formats and their names.
-/
namespace Railroad

/-- A kind of document or image that diagrams are drawn as. -/
inductive Format where
  | html
  | png
  | svg
  | tikz
deriving Repr, DecidableEq

namespace Format

/-- All formats, in the order of their names. -/
def all : List Format :=
  [html, png, svg, tikz]

def name : Format → String
  | html => "html"
  | png => "png"
  | svg => "svg"
  | tikz => "tikz"

/-- The output that draws a format. -/
def surface : Format → SurfaceKind
  | html => .html
  | png => .png
  | svg => .svg
  | tikz => .tikz

/-- The name under which a format's output is noted. -/
def outputName : Format → String
  | html => "HtmlSurface"
  | png => "PngSurface"
  | svg => "SvgSurface"
  | tikz => "TikzSurface"

end Format

/-- A format that there is not. -/
structure UnknownFormat where
  name : String
deriving Repr, DecidableEq

def UnknownFormat.message (e : UnknownFormat) : String :=
  let names := ", ".intercalate (Format.all.map Format.name)
  s!"format must be one of {names}, got {Text.quoted e.name}"

/-- The format of a name, in letters of either case. -/
def Format.ofName (name : String) : Except UnknownFormat Format :=
  let lower := Text.lower name
  match Format.all.find? (·.name = lower) with
  | some format => .ok format
  | none => .error ⟨name⟩

end Railroad
