import Railroad.Cli.Report
/-!
The command line on a disk and a terminal.
-/
namespace Railroad.Cli

/-- What a failed access to a file means. -/
def faultOf : IO.Error → FileFault
  | .noFileOrDirectory .. => .missing
  | .inappropriateType .. => .isADirectory
  | .invalidArgument .. => .tooLong
  | _ => .notADirectory

/-- Access to the files of a disk.  Images are not painted here. -/
def disk : FileStore IO where
  contains p := do
    match ← (IO.FS.readBinFile p.text).toBaseIO with
    | .ok _ => return .ok true
    | .error e =>
        match faultOf e with
        | .isADirectory => return .ok true
        | .tooLong => return .error .tooLong
        | _ => return .ok false
  readText p := do
    match ← (IO.FS.readBinFile p.text).toBaseIO with
    | .error e => return .error (faultOf e)
    | .ok bytes =>
        match String.fromUTF8? bytes with
        | some text => return .ok text
        | none => return .error .notText
  write p content := do
    match content with
    | .image _ => throw (.userError "images are not painted here")
    | .document text =>
        match ← (IO.FS.writeFile p.text text).toBaseIO with
        | .ok () => return .ok ()
        | .error e => return .error (faultOf e)

/-- The lines that are shown for a part of a report. -/
def Shown.lines : Shown → List String
  | message _ lead rest => [s!"{lead} {rest}"]
  | table title rows => title :: rows.map fun (check, names) => s!"{check}: {names}"

/-- Runs a command line here and hands its exit code back. -/
def runHere (words : List String) : IO UInt32 := do
  let report ← run disk words
  for note in report.notes do
    IO.eprintln note.message
  IO.print report.printed
  for line in report.shown.flatMap Shown.lines do
    IO.println line
  if let .misused _ := report.ending then
    IO.eprint helpPage
  return report.ending.exitCode.toUInt32

end Railroad.Cli

def main (words : List String) : IO UInt32 :=
  Railroad.Cli.runHere words
