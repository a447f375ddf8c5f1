import Railroad.Cli.Command
import Railroad.Ebnf.Written
import Railroad.Export.Exporter
import Railroad.Reference.Graph
import Railroad.Text.Lines
import Railroad.Text.Terminal
/-!
Running a command: what it shows, prints and writes, and how it ends.
-/
namespace Railroad.Cli

/-- The colour of a message. -/
inductive Tone where
  | good
  | bad
deriving Repr, DecidableEq

def Tone.colour : Tone → String
  | good => "green"
  | bad => "red"

/-- What is shown on the screen. -/
inductive Shown where
  /-- A coloured lead and the rest of a line. -/
  | message (tone : Tone) (lead rest : String)
  /-- A table of checks and the names that each of them found. -/
  | table (title : String) (rows : List (String × String))
deriving Repr, DecidableEq

/-- The line of a message, with its colour as markup. -/
def markup (tone : Tone) (lead rest : String) : String :=
  s!"[{tone.colour}]{lead}[/] {rest}"

/-- The columns of a table. -/
def columns : List String :=
  ["Check", "Names"]

/-- What stops a command that has no message for it. -/
inductive Interruption where
  | file (fault : FileFault)
  | generate (fault : GenerateFault)
  | writing (fault : Ebnf.WriteFault)
  | misplaced (fault : Misplaced)

/-- How a command ends. -/
inductive Ending where
  | done
  /-- A message says what is wrong. -/
  | failed
  | misused (fault : UsageFault)
  | interrupted (what : Interruption)

def Ending.exitCode : Ending → Nat
  | done => 0
  | failed => 1
  | misused _ => 2
  | interrupted _ => 1

/-- What a command leaves behind, the files that it writes apart. -/
structure Report where
  shown : List Shown
  printed : String
  notes : List Note
  ending : Ending

namespace Report

/-- A command that ends with a message that something is wrong. -/
def failure (lead rest : String) (notes : List Note) : Report :=
  ⟨[.message .bad lead rest], "", notes, .failed⟩

def interruption (what : Interruption) (notes : List Note) : Report :=
  ⟨[], "", notes, .interrupted what⟩

end Report

/-- Reads a grammar file and goes on with its text, in which every line ends in a line feed. -/
def withText {m : Type → Type} [Monad m] (files : FileStore m) (grammar : FilePath)
    (next : String → m Report) : m Report := do
  match ← files.contains grammar with
  | .error fault => return .interruption (.file fault) []
  | .ok false => return .failure "File not found:" grammar.text []
  | .ok true =>
      match ← files.readText grammar with
      | .error fault => return .interruption (.file fault) []
      | .ok text => next (String.ofList (Text.universalLines text.toList))

/-- Whether a command has a message for a fault. -/
def isReported : GenerateFault → Bool
  | .setting _ => false
  | .diagram (.surface (.image fault)) =>
      match fault with
      | .notANumber | .emptyFont _ => true
      | _ => false
  | _ => true

/-- The settings for each format. -/
def RenderOptions.settings (o : RenderOptions) (grammar : FilePath) : Format → List Setting
  | .svg => [⟨"stylesheet", .text o.stylesheet⟩]
  | .html => [⟨"stylesheet", .text o.stylesheet⟩, ⟨"title", .text grammar.stem⟩]
  | .tikz => [⟨"caption", .text o.caption⟩, ⟨"label", .text ("fig:" ++ grammar.stem)⟩]
  | .png => [⟨"scale", .integer o.scale⟩]

/-- Draws a text into a file. -/
def render {m : Type → Type} [Monad m] (files : FileStore m) (grammar output : FilePath)
    (o : RenderOptions) (text : String) : m Report := do
  let exporter : Exporter := ⟨o.links, o.settings grammar⟩
  let (outcome, notes) ← exporter.save files text output
  match outcome with
  | .ok () => return ⟨[.message .good "Wrote" output.text], "", notes, .done⟩
  | .error (.suffix fault) => return .failure "Render failed:" fault.message notes
  | .error (.generate fault) =>
      if isReported fault then
        return .failure "Render failed:" fault.message notes
      else return .interruption (.generate fault) notes
  | .error (.file .nullCharacter) =>
      return .failure "Render failed:" FileFault.nullCharacter.message notes
  | .error (.file fault) => return .interruption (.file fault) notes

/-- Reads a text and goes on with its tree. -/
def withGrammar (text : String) (next : Node → List Note → Report) : Report :=
  let r := Ebnf.Reader.new.read 0 text
  match r.result with
  | .error fault => .failure "Parse failed:" fault.message []
  | .ok root => next root [.parsed root.productions.length r.reader.tokens.length]

/-- Prints a text in its normal form, without what it does to a terminal. -/
def print (text : String) : Report :=
  withGrammar text fun root notes =>
    match Ebnf.written root with
    | .ok written => ⟨[], Text.plain written, notes, .done⟩
    | .error fault => .interruption (.writing fault) notes

/-- The names that a check found, on one line; a dash if there is nothing to be seen. -/
def listed (names : List String) : String :=
  let line := ", ".intercalate names
  if line = "" then "-" else line

/-- The table of a grammar's checks. -/
def checks (title : String) (rules : List Rule) (unreachable : List String) : Shown :=
  .table title [("Productions", listed (definedNames rules)),
    ("Undefined", listed (undefinedNames rules)), ("Unreachable", listed unreachable),
    ("Recursive", listed (recursiveNames rules)), ("Duplicates", listed (duplicateNames rules))]

/-- Reports on the rules of a text.  The reference graph is noted once for every check that follows
references. -/
def info (grammar : FilePath) (start : Option String) (text : String) : Report :=
  withGrammar text fun root notes =>
    match root.rules with
    | .error fault => .interruption (.misplaced fault) notes
    | .ok rules =>
        match unreachableNames rules start with
        | .error fault => .failure "Unknown start production:" fault.name notes
        | .ok unreachable =>
            let graph := ReferenceGraph.ofRules rules
            let looks := if rules.isEmpty then 3 else 4
            let title := (root.title?.bind Node.text?).getD grammar.name
            ⟨[checks title rules unreachable], "",
              notes ++ List.replicate looks (.referenced graph.names.length graph.edges.length),
              .done⟩

/-- The help page. -/
def helpPage : String :=
  Text.unlines ["Draw railroad diagrams from EBNF grammars.", "",
    "  [--verbose] render GRAMMAR OUTPUT [--no-links] [--stylesheet TEXT] [--scale INTEGER]",
    "                                    [--caption TEXT]",
    "  [--verbose] print GRAMMAR", "  [--verbose] info GRAMMAR [--start TEXT]", ""]

/-- Runs a command. -/
def Command.run {m : Type → Type} [Monad m] (files : FileStore m) : Command → m Report
  | render grammar output options => withText files grammar (Cli.render files grammar output options)
  | print grammar => withText files grammar fun text => return Cli.print text
  | info grammar start => withText files grammar fun text => return Cli.info grammar start text
  | help => return ⟨[], helpPage, [], .done⟩

/-- Runs a command line.  Notes are shown only to those who ask for them. -/
def run {m : Type → Type} [Monad m] (files : FileStore m) (words : List String) : m Report := do
  match readRequest words with
  | .error fault => return ⟨[], "", [], .misused fault⟩
  | .ok request =>
      let report ← request.command.run files
      return if request.verbose then report else { report with notes := [] }

end Railroad.Cli
