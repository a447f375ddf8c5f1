import Railroad.Files.FilePath
/-!
A folder with files in it and below it.  A directory is there as long as it holds a file.  Around the
folder there are directories of which nothing else is known.
-/
namespace Railroad

/-- Why a file cannot be read or written. -/
inductive FileFault where
  | missing
  /-- A name on the way is that of a file. -/
  | notADirectory
  | isADirectory
  /-- The path or a name in it is too long. -/
  | tooLong
  /-- The path holds a null character. -/
  | nullCharacter
  /-- The file is there and does not hold text. -/
  | notText
deriving Repr, DecidableEq

def FileFault.message : FileFault → String
  | missing => "No such file or directory"
  | notADirectory => "Not a directory"
  | isADirectory => "Is a directory"
  | tooLong => "File name too long"
  | nullCharacter => "embedded null byte"
  | notText => "The file does not hold text"

/-- The files of a folder, by the names on the way to them. -/
structure Folder (κ : Type) where
  files : List (List String × κ)

/-- Where a path leads. -/
inductive Place where
  /-- In the folder; the folder itself is the place without a name. -/
  | inside (names : List String)
  /-- A directory around the folder. -/
  | around
  /-- In such a directory, where nothing is known to be. -/
  | beside
deriving Repr, DecidableEq

/-- What stands at a place. -/
inductive Entry (κ : Type) where
  | file (content : κ)
  | directory

/-- The place of a name in a directory. -/
def Place.enter (place : Place) (name : String) : Place :=
  match place, name with
  | inside [], ".." => around
  | inside names, ".." => inside names.dropLast
  | inside names, name => inside (names ++ [name])
  | around, ".." => around
  | _, _ => beside

namespace Folder

variable {κ : Type}

/-- What stands at a place. -/
def entry? (f : Folder κ) : Place → Option (Entry κ)
  | .around => some .directory
  | .beside => none
  | .inside names =>
      match f.files.lookup names with
      | some content => some (.file content)
      | none =>
          if names.isEmpty || f.files.any (fun (path, _) => names.isPrefixOf path) then
            some .directory
          else none

/-- The place that names lead to from a place.  Every place on the way is a directory. -/
def follow (f : Folder κ) (place : Place) : List String → Except FileFault Place
  | [] => .ok place
  | name :: names =>
      match f.entry? place with
      | none => .error .missing
      | some (.file _) => .error .notADirectory
      | some .directory =>
          if FilePath.nameLimit < name.utf8ByteSize then .error .tooLong
          else f.follow (place.enter name) names

/-- The place of a path; a path that starts with a slash leads outside. -/
def locate (f : Folder κ) (p : FilePath) : Except FileFault Place :=
  if p.hasNull then .error .nullCharacter
  else if FilePath.limit < p.text.utf8ByteSize then .error .tooLong
  else f.follow (if p.slashes = 0 then .inside [] else .around) p.parts

/-- Whether something stands at a path.  Of a path that is too long this cannot be told. -/
def contains (f : Folder κ) (p : FilePath) : Except FileFault Bool :=
  match f.locate p with
  | .ok place => .ok (f.entry? place).isSome
  | .error .tooLong => .error .tooLong
  | .error _ => .ok false

/-- The content of the file at a path. -/
def read (f : Folder κ) (p : FilePath) : Except FileFault κ := do
  match f.entry? (← f.locate p) with
  | some (.file content) => .ok content
  | some .directory => .error .isADirectory
  | none => .error .missing

/-- Puts a content at a place, where there is one or at the end. -/
def put (place : List String) (content : κ) : List (List String × κ) → List (List String × κ)
  | [] => [(place, content)]
  | (names, c) :: files =>
      if names = place then (names, content) :: files else (names, c) :: put place content files

/-- Writes the file at a path, anew or in place of one that is there.  What is written outside the
folder leaves no trace in it. -/
def write (f : Folder κ) (p : FilePath) (content : κ) : Except FileFault (Folder κ) := do
  let place ← f.locate p
  match f.entry? place, place with
  | some .directory, _ => .error .isADirectory
  | _, .inside names => .ok ⟨put names content f.files⟩
  | _, _ => .ok f

end Folder

end Railroad
