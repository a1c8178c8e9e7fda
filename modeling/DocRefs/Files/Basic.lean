import DocRefs.Text.Quoted

/-!
# Files and directories

What the library asks of a place that holds files: whether a path exists, and what a directory lists. An answer may
change the place, which may count what it is asked.
-/

namespace DocRefs

/-- One name in a directory. -/
structure DirectoryEntry where
  name : String
  isDirectory : Bool
deriving Repr, DecidableEq

/-- Why a path cannot be used. -/
inductive FileFault
  | notFound
  | permissionDenied
  | notADirectory
  | isADirectory
  | nameTooLong
deriving Repr, DecidableEq

/-- The system's number for a fault. -/
def FileFault.number : FileFault → Nat
  | notFound => 2
  | permissionDenied => 13
  | notADirectory => 20
  | isADirectory => 21
  | nameTooLong => 36

/-- The system's words for a fault. -/
def FileFault.words : FileFault → String
  | notFound => "No such file or directory"
  | permissionDenied => "Permission denied"
  | notADirectory => "Not a directory"
  | isADirectory => "Is a directory"
  | nameTooLong => "File name too long"

/-- A fault and the path that it was met at. -/
structure FileError where
  fault : FileFault
  path : String
deriving Repr, DecidableEq

/-- The text of an error. -/
def FileError.message (e : FileError) : String :=
  s!"[Errno {e.fault.number}] {e.fault.words}: {quoted e.path}"

/-- A place that holds files. -/
class FileSystem (σ : Type) where
  pathExists : σ → String → Bool × σ
  listDirectory : σ → String → Except FileError (List DirectoryEntry) × σ

end DocRefs
