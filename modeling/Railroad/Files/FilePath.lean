/-!
Paths of files: names between slashes.
-/
namespace Railroad

/-- A path.  Names that are empty or a single dot say nothing and are left out. -/
structure FilePath where
  /-- The slashes that it starts with: none, one or two. -/
  slashes : Nat
  parts : List String
deriving Repr, DecidableEq

namespace FilePath

/-- The names between slashes. -/
def split : List Char → List (List Char)
  | [] => [[]]
  | c :: cs =>
      if c = '/' then [] :: split cs
      else
        match split cs with
        | [] => [[c]]
        | name :: rest => (c :: name) :: rest

/-- The path of a text.  Two slashes in front differ from one, more do not. -/
def ofText (text : String) : FilePath :=
  let cs := text.toList
  let leading := (cs.takeWhile (· = '/')).length
  let slashes := if leading ≤ 2 then leading else 1
  ⟨slashes, ((split cs).map String.ofList).filter fun part => part ≠ "" ∧ part ≠ "."⟩

/-- The text of a path. -/
def text (p : FilePath) : String :=
  let text := String.ofList (List.replicate p.slashes '/') ++ "/".intercalate p.parts
  if text = "" then "." else text

/-- The last name. -/
def name (p : FilePath) : String :=
  p.parts.getLast?.getD ""

/-- A name cut at its last dot, which opens the second part, the suffix.  A dot at either end of the
name opens none. -/
def cutName (name : List Char) : List Char × List Char :=
  let after := name.reverse.takeWhile (· ≠ '.')
  let stem := (name.reverse.drop (after.length + 1)).reverse
  if after.isEmpty || stem.isEmpty then (name, []) else (stem, '.' :: after.reverse)

/-- The last name without its suffix. -/
def stem (p : FilePath) : String :=
  String.ofList (cutName p.name.toList).1

/-- The suffix of the last name, with its dot. -/
def suffix (p : FilePath) : String :=
  String.ofList (cutName p.name.toList).2

/-- The bytes that a name may have. -/
def nameLimit : Nat := 255

/-- The bytes that a path may have. -/
def limit : Nat := 4095

/-- Whether a path holds a null character. -/
def hasNull (p : FilePath) : Bool :=
  p.parts.any fun name => name.toList.contains '\x00'

end FilePath

end Railroad
