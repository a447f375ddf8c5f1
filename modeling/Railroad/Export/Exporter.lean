import Railroad.Files.FileStore
/-!
Diagrams as files: the suffix of a file's name says in which format.
-/
namespace Railroad

/-- The formats that suffixes stand for, in the order of the suffixes. -/
def suffixFormats : List (String × Format) :=
  [(".htm", .html), (".html", .html), (".png", .png), (".svg", .svg), (".tex", .tikz)]

/-- A suffix that stands for no format. -/
structure UnsupportedSuffix where
  suffix : String
deriving Repr, DecidableEq

def UnsupportedSuffix.message (e : UnsupportedSuffix) : String :=
  let shown := Text.quoted (if e.suffix = "" then "(none)" else e.suffix)
  let known := ", ".intercalate (suffixFormats.map (·.1))
  s!"Unsupported output type {shown}; expected one of {known}"

/-- The format of a file, by its suffix in letters of either case. -/
def FilePath.format (p : FilePath) : Except UnsupportedSuffix Format :=
  let suffix := Text.lower p.suffix
  match suffixFormats.lookup suffix with
  | some format => .ok format
  | none => .error ⟨suffix⟩

/-- What can go wrong while a diagram is written to a file. -/
inductive ExportFault where
  | suffix (fault : UnsupportedSuffix)
  | generate (fault : GenerateFault)
  | file (fault : FileFault)

structure Exporter where
  /-- Whether identifiers link to the rules of their names. -/
  links : Bool
  settings : Format → List Setting

namespace Exporter

/-- The diagram of a text in the format of a file, with notes on the way.  Settings by reserved names
are turned down before the text is looked at. -/
def render (e : Exporter) (text : String) (file : FilePath) :
    Except ExportFault Artifact × List Note :=
  match file.format with
  | .error fault => (.error (.suffix fault), [])
  | .ok format =>
      match Generator.clash? (e.settings format) with
      | some fault => (.error (.generate (.setting fault)), [])
      | none =>
          let generator : Generator := .new format e.links (e.settings format)
          let work := if format = .png then Generator.generateImage text false
            else Generator.generate text false
          match work.run generator with
          | .ok artifact g => (.ok artifact, g.notes)
          | .error fault g => (.error (.generate fault), g.notes)

/-- Writes the diagram of a text to a file, with notes on the way.  No file is touched unless the
diagram is finished. -/
def save {m : Type → Type} [Monad m] (e : Exporter) (files : FileStore m) (text : String)
    (file : FilePath) : m (Except ExportFault Unit × List Note) := do
  match e.render text file with
  | (.error fault, notes) => return (.error fault, notes)
  | (.ok artifact, notes) =>
      match ← files.write file artifact with
      | .error fault => return (.error (.file fault), notes)
      | .ok () => return (.ok (), notes ++ [.wrote file.text])

end Exporter

end Railroad
