import Railroad.Grammar.Node
import Railroad.Geometry.Metrics
/-!
What can go wrong while a tree is laid out or drawn.
-/
namespace Railroad

/-- The two passes over a tree. -/
inductive Pass where
  | layout
  | render
deriving Repr, DecidableEq

inductive LayoutFault where
  /-- A context state was restored that had not been saved. -/
  | unmatchedPop
  /-- A node's id lies outside the table. -/
  | outsideTable (typeName : String)
  /-- A node's box was already there. -/
  | writtenTwice (typeName : String) (id : Nat)
  /-- There is no box for a node. -/
  | noBox (typeName : String)
  /-- A pass has no rule for a node's type; `NoneType` is the type of a missing node. -/
  | unknownNode (pass : Pass) (typeName : String)
  | tooDeep
  /-- A node lacks a part that it needs. -/
  | missingChild
  | noAlternatives
  /-- So many states were saved and not restored. -/
  | unrestored (count : Nat)
deriving Repr, DecidableEq

def Pass.word : Pass → String
  | layout => "layout"
  | render => "render"

def LayoutFault.message : LayoutFault → String
  | unmatchedPop => "pop_state called without a matching push_state"
  | outsideTable typeName => typeName ++ " is not part of the indexed tree"
  | writtenTwice typeName id => s!"Box for {typeName} #{id} written twice"
  | noBox typeName => "No box computed for " ++ typeName
  | unknownNode pass typeName => s!"Unknown node type during {pass.word}: {typeName}"
  | tooDeep => s!"Grammar nesting deeper than {Metrics.maxDepth} levels"
  | missingChild => "Required child node is missing"
  | noAlternatives => "Alternation has no alternatives"
  | unrestored count => s!"Layout context left {count} unrestored state(s)"

end Railroad
