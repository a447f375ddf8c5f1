import Railroad.Decimal.General
import Railroad.Drawing.Call
import Railroad.Text.Quoted
/-!
Records of calls: what was called, with which arguments, and under which origin.
-/
namespace Railroad

/-- An argument of a recorded call. -/
inductive Arg (α : Type) where
  | number (x : α)
  | integer (n : Int)
  | text (s : String)
  | point (p : Point α)
  | direction (d : Direction)
  | arc (a : Arc)
  | style (s : Style)
deriving Repr, DecidableEq

/-- A recorded call.  `composite` tells the calls that are drawn by others, `nested` the calls made from
inside one of those. -/
structure Record (α : Type) where
  name : String
  args : List (Arg α)
  origin : Point α
  composite : Bool
  nested : Bool
deriving Repr, DecidableEq

variable {α : Type}

/-- The arguments of a primitive. -/
def Primitive.args : Primitive α → List (Arg α)
  | openDocument | closeDocument | popTranslate | pathEnd | endDiagram | endLink => []
  | pushTranslate origin => [.point origin]
  | rectangle x y w h style | roundedRectangle x y w h style =>
      [.number x, .number y, .number w, .number h, .style style]
  | circle x y r style => [.number x, .number y, .number r, .style style]
  | text x y w h s style | centeredText x y w h s style =>
      [.number x, .number y, .number w, .number h, .text s, .style style]
  | pathBegin x y style => [.number x, .number y, .style style]
  | pathHTo x => [.number x]
  | pathVTo y => [.number y]
  | pathArc radius arc => [.number radius, .arc arc]
  | pathArrowLeft size | pathArrowRight size | pathArrowDown size => [.number size]
  | beginDiagram x y w h name => [.number x, .number y, .number w, .number h, .text name]
  | beginLink name => [.text name]

/-- The arguments of a composite that are recorded: a connector's radius and style are not. -/
def Composite.args : Composite α → List (Arg α)
  | hline p q style | vline p q style => [.point p, .point q, .style style]
  | arrowLeft p length size | arrowRight p length size | arrowDown p length size =>
      [.point p, .number length, .number size]
  | connector leaving p q arriving _ _ =>
      [.direction leaving, .point p, .point q, .direction arriving]

/-- The record of a primitive. -/
def Primitive.record (p : Primitive α) (origin : Point α) (nested : Bool) : Record α :=
  ⟨p.name, p.args, origin, false, nested⟩

/-- The record of a composite. -/
def Composite.record (c : Composite α) (origin : Point α) (nested : Bool) : Record α :=
  ⟨c.name, c.args, origin, true, nested⟩

/-- The text of an argument: numbers in compact form, texts quoted. -/
def Arg.describe : Arg Float → String
  | number x => Decimal.compact x
  | integer n => toString n
  | text s => Text.quoted s
  | point p => p.describe
  | direction d => d.label
  | arc a => a.label
  | style s => s.label

/-- The line of a record, set in if the call is nested. -/
def Record.describe (r : Record Float) : String :=
  String.join [if r.nested then "    " else "", r.name, "(",
    ", ".intercalate (r.args.map Arg.describe), ") @ ", r.origin.describe]

end Railroad
