import Railroad.Export.Generator
import Railroad.Files.Folder
/-!
Access to files: what a run may do with them, whether they lie in a folder that is a value or on a disk.
-/
namespace Railroad

/-- What can be done with files by steps of `m`. -/
structure FileStore (m : Type → Type) where
  contains : FilePath → m (Except FileFault Bool)
  readText : FilePath → m (Except FileFault String)
  write : FilePath → Artifact → m (Except FileFault Unit)

/-- The text of a file. -/
def Artifact.text : Artifact → Except FileFault String
  | document text => .ok text
  | image _ => .error .notText

/-- Access to the files of a folder. -/
def Folder.store : FileStore (StateM (Folder Artifact)) where
  contains p := return (← get).contains p
  readText p := return (← get).read p >>= Artifact.text
  write p content := do
    match (← get).write p content with
    | .ok folder => do
        set folder
        return .ok ()
    | .error fault => return .error fault

end Railroad
