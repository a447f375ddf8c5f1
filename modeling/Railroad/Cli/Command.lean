import Railroad.Cli.Arguments
import Railroad.Files.FilePath
import Railroad.Text.Integer
/-!
The commands of the command line.
-/
namespace Railroad.Cli

/-- How a grammar is rendered. -/
structure RenderOptions where
  links : Bool
  /-- The stylesheet that documents refer to. -/
  stylesheet : String
  /-- The scale of images. -/
  scale : Int
  /-- The caption of figures. -/
  caption : String
deriving Repr, DecidableEq

inductive Command where
  /-- Draws a grammar into a file. -/
  | render (grammar output : FilePath) (options : RenderOptions)
  /-- Prints a grammar in its normal form. -/
  | print (grammar : FilePath)
  /-- Reports on the rules of a grammar. -/
  | info (grammar : FilePath) (start : Option String)
  | help
deriving Repr, DecidableEq

/-- A command, and whether notes are shown while it runs. -/
structure Request where
  verbose : Bool
  command : Command
deriving Repr, DecidableEq

def helpFlag : Flag :=
  ⟨"--help", none, false⟩

/-- The options that may stand before a command. -/
def commonFlags : List Flag :=
  [⟨"--verbose", some 'v', false⟩, helpFlag]

def renderFlags : List Flag :=
  [⟨"--no-links", none, false⟩, ⟨"--stylesheet", none, true⟩, ⟨"--scale", none, true⟩,
    ⟨"--caption", none, true⟩, helpFlag]

def printFlags : List Flag :=
  [helpFlag]

def infoFlags : List Flag :=
  [⟨"--start", none, true⟩, helpFlag]

/-- The plain words of a command that takes a fixed number of them. -/
def takeWords (count : Nat) (words : List String) : Except UsageFault (List FilePath) :=
  match words[count]? with
  | some word => .error (.extraWord word)
  | none =>
      if words.length < count then .error .missingWord
      else
        words.mapM fun word =>
          let path := FilePath.ofText word
          if path.hasNull then .error (.badPath word) else .ok path

/-- The scale among some options. -/
def scaleOf (a : Arguments) : Except UsageFault Int :=
  match a.value? "--scale" with
  | none => .ok 2
  | some value =>
      match Text.integer? value with
      | some n => .ok n
      | none => .error (.badInteger "--scale" value)

def renderCommand (a : Arguments) : Except UsageFault Command := do
  let scale ← scaleOf a
  let options : RenderOptions :=
    ⟨!a.has "--no-links", (a.value? "--stylesheet").getD "svg.css", scale,
      (a.value? "--caption").getD "Figure"⟩
  match ← takeWords 2 a.words with
  | [grammar, output] => return .render grammar output options
  | _ => .error .missingWord

def printCommand (a : Arguments) : Except UsageFault Command := do
  match ← takeWords 1 a.words with
  | [grammar] => return .print grammar
  | _ => .error .missingWord

def infoCommand (a : Arguments) : Except UsageFault Command := do
  match ← takeWords 1 a.words with
  | [grammar] => return .info grammar (a.value? "--start")
  | _ => .error .missingWord

/-- Reads the words after the name of a command.  Asking for help settles everything else. -/
def readCommand (flags : List Flag) (command : Arguments → Except UsageFault Command)
    (words : List String) : Except UsageFault Command := do
  let a ← sortWords flags true words
  if a.has "--help" then return .help
  command a

/-- Reads the words of a command line. -/
def readRequest (words : List String) : Except UsageFault Request := do
  let a ← sortWords commonFlags false words
  let verbose := a.has "--verbose"
  if a.has "--help" then return ⟨verbose, .help⟩
  let command ← match a.words with
    | [] => .error .noCommand
    | "render" :: rest => readCommand renderFlags renderCommand rest
    | "print" :: rest => readCommand printFlags printCommand rest
    | "info" :: rest => readCommand infoFlags infoCommand rest
    | word :: _ => .error (.unknownCommand word)
  return ⟨verbose, command⟩

end Railroad.Cli
