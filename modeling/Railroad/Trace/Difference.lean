/-!
Two lists of lines compared index by index, the differences shown with some lines around them.
-/
namespace Railroad.Difference

/-- The line at an index; past the end there is the empty line. -/
def lineAt (lines : List String) (i : Nat) : String :=
  lines[i]?.getD ""

/-- The indices at which two lists differ. -/
def indices (expected actual : List String) : List Nat :=
  (List.range (max expected.length actual.length)).filter fun i =>
    lineAt expected i != lineAt actual i

/-- The indices to show: those at most `context` away from a difference. -/
def shown (expected actual : List String) (context : Int) : List Nat :=
  let differing := indices expected actual
  (List.range (max expected.length actual.length)).filter fun i =>
    differing.any fun d => (d : Int) - context ≤ i && (i : Int) ≤ d + context

/-- An index, right-aligned in four places. -/
def indexText (i : Nat) : String :=
  let digits := toString i
  String.ofList (List.replicate (4 - digits.length) ' ') ++ digits

/-- What is shown at an index. -/
def entry (expected actual : List String) (i : Nat) : List String :=
  let e := lineAt expected i
  let a := lineAt actual i
  if e = a then [s!"{indexText i}:   {a}"]
  else [s!"{indexText i}: E {e}", "      A " ++ a]

/-- Whether dots stand before the entry at an index: they open the list, and stand wherever the index
does not follow the one shown before it. -/
def isGap (before : Option Nat) (i : Nat) : Bool :=
  match before with
  | none => true
  | some j => j + 1 < i

/-- The entries at some increasing indices after the index shown before them. -/
def entries (expected actual : List String) (before : Option Nat) : List Nat → List String
  | [] => []
  | i :: is =>
      (if isGap before i then ["..."] else []) ++ entry expected actual i
        ++ entries expected actual (some i) is

/-- The comparison of two lists of lines. -/
def report (expected actual : List String) (context : Int) : List String :=
  let line := String.ofList (List.replicate 60 '=')
  let heading := [line, "CALL DIFF", line]
  let differing := indices expected actual
  if differing.isEmpty then
    heading ++ ["No differences found."]
  else
    heading ++ [s!"Found {differing.length} differing call(s)"]
      ++ (if expected.length = actual.length then []
          else [s!"Expected {expected.length} calls, got {actual.length}"])
      ++ "" :: entries expected actual none (shown expected actual context)

end Railroad.Difference
