import Railroad.Grammar.Node
/-!
The classes of drawn things, by which every output picks its own looks.
-/
namespace Railroad

inductive Style where
  | line
  | arrow
  | box
  | production
  | literal
  | identifier
  | terminator
  | other
  | title
deriving Repr, DecidableEq, Inhabited

namespace Style

/-- All styles, in the order in which they are listed. -/
def all : List Style :=
  [line, arrow, box, production, literal, identifier, terminator, other, title]

/-- The word for a style. -/
def word : Style → String
  | line => "line"
  | arrow => "arrow"
  | box => "box"
  | production => "production"
  | literal => "literal"
  | identifier => "identifier"
  | terminator => "terminator"
  | other => "other"
  | title => "title"

/-- The word as recorded calls write it. -/
def label : Style → String
  | line => "LINE"
  | arrow => "ARROW"
  | box => "BOX"
  | production => "PRODUCTION"
  | literal => "LITERAL"
  | identifier => "IDENTIFIER"
  | terminator => "TERMINATOR"
  | other => "OTHER"
  | title => "TITLE"

def ofWord? (w : String) : Option Style :=
  all.find? (·.word = w)

/-- Whether paths and circles of a style are filled rather than outlined. -/
def isFilled (s : Style) : Bool :=
  s = arrow || s = terminator

/-- The style of a leaf inside a rule. -/
def ofLeaf : Node → Style
  | .identifier .. => identifier
  | .literal _ _ .title => title
  | .literal _ _ .quoted => literal
  | _ => other

end Style

end Railroad
