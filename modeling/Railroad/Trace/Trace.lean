import Railroad.Decimal.Shortest
import Railroad.Trace.Record
/-!
Traces of a run: the stages that it went through, with what was found at each, and every call made.
-/
namespace Railroad

/-- What is found at a stage. -/
inductive Finding (α : Type) where
  | text (s : String)
  | integer (n : Int)
  | flag (b : Bool)
  | real (x : α)
  | texts (ss : List String)
  | counts (cs : List (String × Nat))
deriving Repr, DecidableEq

/-- A stage with its findings, each under a key of its own. -/
structure Stage (α : Type) where
  name : String
  findings : List (String × Finding α)
deriving Repr, DecidableEq

/-- Sets the value of a key: in place if the key is there, at the end if not. -/
def setKey {β : Type} (key : String) (value : β) : List (String × β) → List (String × β)
  | [] => [(key, value)]
  | (k, v) :: rest => if k = key then (k, value) :: rest else (k, v) :: setKey key value rest

/-- A stage with the given findings; of two with one key the later counts. -/
def Stage.make {α : Type} (name : String) (findings : List (String × Finding α)) : Stage α :=
  ⟨name, findings.foldl (fun acc (k, v) => setKey k v acc) []⟩

structure Trace (α : Type) where
  input : String
  format : String
  stages : List (Stage α)
  records : List (Record α)

namespace Trace

variable {α : Type}

/-- Adds a stage. -/
def addStage (t : Trace α) (s : Stage α) : Trace α :=
  { t with stages := t.stages ++ [s] }

/-- Adds a record. -/
def addRecord (t : Trace α) (r : Record α) : Trace α :=
  { t with records := t.records ++ [r] }

/-- The first stage of a name. -/
def stage? (t : Trace α) (name : String) : Option (Stage α) :=
  t.stages.find? (·.name = name)

/-- The indices of the calls of a name; nested ones may be left out. -/
def indicesOf (t : Trace α) (name : String) (topLevel : Bool) : List Nat :=
  (t.records.zipIdx.filter fun (r, _) => r.name = name && !(topLevel && r.nested)).map (·.2)

end Trace

/-- How often each name was called, in the order of the first calls. -/
def callCounts {α : Type} (records : List (Record α)) : List (String × Nat) :=
  records.foldl (fun counts r => setKey r.name (((counts.lookup r.name).getD 0) + 1) counts) []

/-- Names with their counts, the largest first; equal counts keep their order. -/
def byCount (counts : List (String × Nat)) : List (String × Nat) :=
  counts.mergeSort fun a b => b.2 ≤ a.2

/-- The lines of some records; composites may be left out. -/
def callLines (records : List (Record Float)) (primitivesOnly : Bool) : List String :=
  (records.filter fun r => !(primitivesOnly && r.composite)).map Record.describe

/-- The text of a finding. -/
def Finding.describe : Finding Float → String
  | text s => s
  | integer n => toString n
  | flag b => if b then "True" else "False"
  | real x => Decimal.shortest x
  | texts ss => String.join ["[", ", ".intercalate (ss.map Text.quoted), "]"]
  | counts cs =>
      String.join ["\x7b", ", ".intercalate (cs.map fun (k, n) => s!"{Text.quoted k}: {n}"), "\x7d"]

/-- The first letters of a text. -/
def firstLetters (n : Nat) (s : String) : String :=
  String.ofList (s.toList.take n)

/-- A text cut off after a hundred letters. -/
def cutOff (s : String) : String :=
  if 100 < s.length then firstLetters 100 s ++ "..." else s

/-- The lines of a stage. -/
def Stage.lines (s : Stage Float) : List String :=
  s!"=== Stage: {s.name} ===" :: s.findings.map fun (k, v) => s!"  {k}: {cutOff v.describe}"

/-- A line of one character, repeated. -/
def rule (n : Nat) (c : Char) : String :=
  String.ofList (List.replicate n c)

namespace Trace

/-- The summary: format, input, stages, and how often each name was called. -/
def summaryLines (t : Trace Float) : List String :=
  let input := Text.quoted (firstLetters 100 t.input) ++ (if 100 < t.input.length then "..." else "")
  [rule 60 '=', "RENDER TRACE SUMMARY", rule 60 '=', "", "Format: " ++ t.format, "Input: " ++ input, "",
    s!"Pipeline stages: {t.stages.length}"]
    ++ t.stages.map (fun s => "  - " ++ s.name)
    ++ ["", s!"Total drawing calls: {t.records.length}", "", "Calls by method:"]
    ++ (byCount (callCounts t.records)).map fun (name, n) => s!"  {name}: {n}"

/-- Everything: the summary, the stages with their findings, and all calls. -/
def dumpLines (t : Trace Float) : List String :=
  t.summaryLines
    ++ ["", rule 60 '=', "DETAILED TRACE", rule 60 '=', "", "PIPELINE STAGES:", rule 40 '-']
    ++ t.stages.flatMap (fun s => s.lines ++ [""])
    ++ ["DRAWING CALLS:", rule 40 '-']
    ++ callLines t.records false

end Trace

end Railroad
