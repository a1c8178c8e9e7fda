import DocRefs.Files.Disk
import DocRefs.Text.Lines
import DocRefs.Text.Utf8

/-!
# Documents

A document is a path and a text. The text of a file is read as UTF-8, and its line ends become line feeds.
-/

namespace DocRefs

/-- A document. -/
structure Document where
  path : String
  text : String
deriving Repr, DecidableEq

/-- Why a document cannot be read. -/
inductive ReadError
  | file (e : FileError)
  | encoding (r : Utf8.Refusal)
deriving Repr, DecidableEq

/-- The text of an error. -/
def ReadError.message : ReadError → String
  | file e => e.message
  | encoding r => r.message

namespace Document

/-- The directory that a document lies in. -/
def dirname (d : Document) : String :=
  Path.dirname d.path

/-- The text of a line. -/
def lineText (d : Document) (line : Int) : List Char :=
  DocRefs.lineText d.text.toList line

-- Not to be unfolded: where a text is only handed on, unfolding would go through all that its path leads over.
/-- The text of a file. -/
@[irreducible]
def readText (disk : Disk) (path : String) : Except ReadError String := do
  let bytes ← (disk.readFile path).mapError .file
  let text ← (Utf8.decode bytes).mapError .encoding
  return String.ofList (unifyLineEnds text)

/-- The document at a path: its text is the one given, or else what the file holds. -/
def load (disk : Disk) (path : String) (text : Option String) : Except ReadError Document := do
  let path := Path.absolute disk.cwd path
  match text with
  | some text => return ⟨path, text⟩
  | none => return ⟨path, ← readText disk path⟩

end Document

end DocRefs
