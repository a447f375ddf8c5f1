import Railroad.Decimal.General
/-!
Notes on what was done, for whoever watches a run.
-/
namespace Railroad

/-- A note on a step that was finished. -/
inductive Note where
  /-- A text was read as a grammar. -/
  | parsed (productions tokens : Nat)
  | laidOut (nodes : Nat) (typeName : String) (width height : Float)
  | drawn (rails : Nat)
  /-- A whole document was drawn on an output of the given name. -/
  | rendered (productions : Nat) (outputName : String)
  | referenced (names references : Nat)
  /-- A file was written. -/
  | wrote (path : String)

def Note.message : Note → String
  | parsed productions tokens => s!"Parsed {productions} production(s) from {tokens} token(s)"
  | laidOut nodes typeName width height =>
      s!"Laid out {nodes} nodes, root {typeName} is {Decimal.compact width}x{Decimal.compact height}"
  | drawn rails => s!"Rendered grammar, {rails} rail(s) opened"
  | rendered productions outputName => s!"Rendered {productions} production(s) as {outputName}"
  | referenced names references =>
      s!"Reference graph has {names} names and {references} references"
  | wrote path => "Wrote " ++ path

end Railroad
