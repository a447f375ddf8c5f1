import Railroad.Drawing.Session
import Railroad.Layout.Engine
import Railroad.Surface.Surface
/-!
Whole grammars drawn as one diagram on an output.
-/
namespace Railroad

/-- What can go wrong while a tree is drawn on an output. -/
inductive DiagramFault where
  | layout (fault : LayoutFault)
  | surface (fault : SurfaceFault)
  /-- The root is a node of another type than a grammar. -/
  | invalidRoot (typeName : String)
deriving Repr, DecidableEq

def DiagramFault.message : DiagramFault → String
  | layout fault => fault.message
  | surface fault => fault.message
  | invalidRoot typeName => "Expected a Grammar root, got " ++ typeName

variable {α : Type} [Scalar α]

/-- Lays a tree out and draws it, heading in a direction. -/
def drawTree (n : Node) (direction : Direction) (links : List String) :
    Except LayoutFault (DrawingSession α) := do
  let table ← (Engine.layout n direction).1
  let (result, session) := (DrawingSession.start table links direction).draw n false
  let _ ← result
  return session

/-- The calls that draw the diagram of a grammar that has been laid out, the diagram's bounds
included; the last part is missing if something is wrong. -/
def diagramCalls (root : Node) (session : DrawingSession α) :
    List (Call α) × Option LayoutFault × DrawingSession α :=
  let box := session.backdrop.box root
  let start : Call α := .primitive (.beginDiagram box.tl.x box.tl.y box.width box.height "top")
  match session.draw root false with
  | (.error fault, session) => (start :: session.calls, some fault, session)
  | (.ok _, session) => (start :: session.calls ++ [.primitive .endDiagram], none, session)

/-- The boxes of a grammar. -/
def layoutGrammar (root : Node) : Except DiagramFault (BoxTable α) :=
  if !root.isGrammar then .error (.invalidRoot root.typeName)
  else
    match (Engine.layout root .none).1 with
    | .error fault => .error (.layout fault)
    | .ok table => .ok table

/-- Draws a grammar that has been laid out on an output. -/
def drawLaidOut (output : Output α) (root : Node) (table : BoxTable α) (links : List String) :
    Except DiagramFault (DrawingSession α) × Output α :=
  let (calls, fault, session) := diagramCalls root (.start table links .none)
  let reply := sendAll Output.call output calls
  match reply.fault, fault with
  | some f, _ => (.error (.surface f), reply.state)
  | none, some f => (.error (.layout f), reply.state)
  | none, none => (.ok session, reply.state)

/-- Draws a grammar on an output.  Nothing is sent to the output before the grammar is laid out. -/
def drawGrammar (output : Output α) (root : Node) (links : List String) :
    Except DiagramFault (DrawingSession α) × Output α :=
  match layoutGrammar root with
  | .error fault => (.error fault, output)
  | .ok table => drawLaidOut output root table links

/-- Draws a grammar that has been laid out as a whole document: the output is opened before the diagram
and closed after it, unless something is wrong. -/
def drawDocument (output : Output α) (root : Node) (table : BoxTable α) (links : List String) :
    Except DiagramFault (DrawingSession α) × Output α :=
  let opened := output.call (.primitive .openDocument)
  match opened.fault with
  | some fault => (.error (.surface fault), opened.state)
  | none =>
      match drawLaidOut opened.state root table links with
      | (.error fault, output) => (.error fault, output)
      | (.ok session, output) =>
          let closed := output.call (.primitive .closeDocument)
          match closed.fault with
          | some fault => (.error (.surface fault), closed.state)
          | none => (.ok session, closed.state)

end Railroad
