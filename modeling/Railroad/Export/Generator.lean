import Railroad.Drawing.Sheet
import Railroad.Ebnf.Reader
import Railroad.Export.Format
import Railroad.Export.Note
import Railroad.Reference.Rules
import Railroad.Trace.Trace
/-!
Diagrams from grammar texts: a generator reads a text, lays its grammar out and draws it as a whole
document.

A generator is used for one text after another.  It keeps the trace of the last traced run, the notes on
all its runs, its reader, and the id of the next node; none of these bears on what it draws.
-/
namespace Railroad

/-- What a generator makes. -/
inductive Artifact where
  | document (text : String)
  | image (png : Png Float)

/-- What is drawn on an output. -/
def Surface.artifact : Surface Float → Artifact
  | .png image => .image image
  | s => .document s.document

/-- What can go wrong while a diagram is made. -/
inductive GenerateFault where
  /-- An image is asked for as text. -/
  | imageAsText
  | setting (fault : UnknownSetting)
  | parse (fault : Ebnf.ParseError)
  | diagram (fault : DiagramFault)

def GenerateFault.message : GenerateFault → String
  | imageAsText => "PNG output is binary, use generate_png()"
  | setting fault => "unknown setting " ++ fault.name
  | parse fault => fault.message
  | diagram fault => fault.message

structure Generator where
  format : Format
  /-- Whether identifiers link to the rules of their names. -/
  links : Bool
  settings : List Setting
  trace : Option (Trace Float)
  notes : List Note
  /-- The reader of all its texts, as the last of them left it. -/
  reader : Ebnf.Reader
  /-- The id of the next node that is read. -/
  nextId : Nat

/-- A step of a generator, which may change it also if it fails. -/
abbrev Generating (β : Type) := EStateM GenerateFault Generator β

namespace Generator

def new (format : Format) (links : Bool) (settings : List Setting) : Generator :=
  ⟨format, links, settings, none, [], .new, 0⟩

/-- The names of what a generator is told besides its settings, and of the generator itself. -/
def reservedNames : List String :=
  ["self", "format", "links"]

/-- A setting by a reserved name. -/
def clash? (settings : List Setting) : Option UnknownSetting :=
  (settings.find? fun s => reservedNames.contains s.name).map fun s => ⟨s.name⟩

/-- Adds a note. -/
def note (n : Note) : Generating Unit :=
  modify fun g => { g with notes := g.notes ++ [n] }

/-- Hands a value on, or fails. -/
def orFail {ε β : Type} (fault : ε → GenerateFault) : Except ε β → Generating β
  | .ok value => pure value
  | .error e => throw (fault e)

/-- Reads a text. -/
def readGrammar (text : String) : Generating Node := do
  let g ← get
  let r := g.reader.read g.nextId text
  set { g with reader := r.reader, nextId := r.nextId }
  let root ← orFail .parse r.result
  note (.parsed root.productions.length r.reader.tokens.length)
  return root

/-- The stage of a trace at which the text has been read. -/
def parseStage (root : Node) : Stage Float :=
  .make "parse" [("productions", .integer root.productions.length), ("names", .texts root.ruleNames),
    ("has_title", .flag root.title?.isSome)]

/-- The stage of a trace at which the boxes are known. -/
def layoutStage (session : DrawingSession Float) (root : Node) : Stage Float :=
  let box := session.backdrop.box root
  .make "layout" [("nodes", .integer session.backdrop.table.size), ("width", .real box.width),
    ("height", .real box.height)]

/-- The stage of a trace at which everything is drawn. -/
def renderStage (session : DrawingSession Float) (records : List (Record Float)) : Stage Float :=
  .make "render" [("calls", .integer records.length), ("rails", .integer session.rails.length),
    ("counts", .counts (callCounts records))]

/-- The trace of a run that is finished. -/
def traceOf (text : String) (format : Format) (root : Node) (session : DrawingSession Float)
    (output : Output Float) : Trace Float :=
  let records := output.records.toList
  ⟨text, format.name, [parseStage root, layoutStage session root, renderStage session records],
    records⟩

/-- Draws a grammar as a whole document on an output that is noted under a name. -/
def drawRoot (root : Node) (output : Output Float) (outputName : String) :
    Generating (DrawingSession Float × Output Float) := do
  let links := if (← get).links then root.ruleNames else []
  let table ← orFail .diagram (layoutGrammar root)
  let box := (table.box? root).getD Metrics.newBox
  note (.laidOut table.size root.typeName box.width box.height)
  let (result, output) := drawDocument output root table links
  let session ← orFail .diagram result
  note (.drawn session.rails.length)
  note (.rendered root.productions.length outputName)
  return (session, output)

/-- Draws a text in a format.  A run that is not traced drops the last trace once the text is read, a
traced one replaces it at its end. -/
def draw (format : Format) (settings : List Setting) (text : String) (traced : Bool) :
    Generating Artifact := do
  let surface ← orFail .setting (format.surface.create settings)
  let root ← readGrammar text
  if traced then
    let (session, output) ← drawRoot root (.traced ⟨.start, surface⟩) "TracedSurface"
    modify fun g => { g with trace := some (traceOf text format root session output) }
    return output.surface.artifact
  else
    modify fun g => { g with trace := none }
    let (_, output) ← drawRoot root (.direct surface) format.outputName
    return output.surface.artifact

/-- A document from a text. -/
def generate (text : String) (traced : Bool) : Generating Artifact := do
  let g ← get
  if g.format = .png then throw .imageAsText
  draw g.format g.settings text traced

/-- An image from a text.  The settings of a generator of documents bear on documents only. -/
def generateImage (text : String) (traced : Bool) : Generating Artifact := do
  let g ← get
  draw .png (if g.format = .png then g.settings else []) text traced

end Generator

end Railroad
