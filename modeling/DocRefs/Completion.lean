import DocRefs.Completion.OpenPath
import DocRefs.Files.Basic
import DocRefs.Path
import DocRefs.Text.Lines
import DocRefs.Text.LowerCase

/-!
# Completing a path

The entries of the directory that is typed so far, kept if their names begin with the last component typed and sorted by
name, both without regard to case. A directory is completed with a slash, and completion is then asked for again.
-/

namespace DocRefs

/-- One suggestion: what is shown, what is put in, and where. -/
structure Candidate where
  label : String
  insertText : String
  isDirectory : Bool
  replace : TextRange
  documentation : String
  retrigger : Bool
deriving Repr, DecidableEq

/-- A typed path split behind its last slash: the directory part, and the part of a name. -/
structure TypedPath where
  directory : List Char
  partialName : List Char
deriving Repr, DecidableEq

namespace TypedPath

/-- Splits a typed path. -/
def ofChars (typed : List Char) : TypedPath :=
  let name := Path.nameChars typed
  ⟨typed.take (typed.length - name.length), name⟩

/-- The directory whose entries are suggested. -/
def searchDir (t : TypedPath) (baseDir : String) : String :=
  if t.directory.isEmpty then baseDir else Path.normalize (Path.join baseDir (String.ofList t.directory))

end TypedPath

namespace Candidate

/-- The suggestion of an entry. -/
def ofEntry (directory : String) (replace : TextRange) (e : DirectoryEntry) : Candidate :=
  if e.isDirectory then ⟨e.name, e.name ++ "/", true, replace, s!"Directory: {directory}{e.name}", true⟩
  else ⟨e.name, e.name, false, replace, s!"File: {directory}{e.name}", false⟩

/-- The entries whose names begin with a part of a name, sorted, case not regarded. -/
def matching (partialName : String) (entries : List DirectoryEntry) : List DirectoryEntry :=
  (entries.filter fun e => (lowerCase partialName).toList.isPrefixOf (lowerCase e.name).toList).mergeSort
    fun a b => lowerCase a.name ≤ lowerCase b.name

/-- The suggestions at the end of a line's text, which take the place of the part of a name that stands there. -/
def ofEntries (line : Int) (prefixLength : Nat) (t : TypedPath) (entries : List DirectoryEntry) : List Candidate :=
  let replace : TextRange := ⟨⟨line, prefixLength - t.partialName.length⟩, ⟨line, prefixLength⟩⟩
  (matching (String.ofList t.partialName) entries).map (ofEntry (String.ofList t.directory) replace)

end Candidate

end DocRefs
