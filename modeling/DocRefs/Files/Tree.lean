import DocRefs.Assoc
import DocRefs.Files.Basic
import DocRefs.Path

/-!
# A tree of files in memory

Files and directories as two sets of normalised paths, with the directories that may not be listed. Every question is
counted by path, so that it can be seen how often a cache passed one on.
-/

namespace DocRefs

/-- A tree of files. -/
structure Tree where
  files : List String := []
  directories : List String := ["/"]
  unreadable : List String := []
  existsCalls : Assoc String Nat := .empty
  listCalls : Assoc String Nat := .empty
deriving Repr

namespace Tree

/-- The tree that holds the root and nothing else. -/
def empty : Tree := {}

/-- A set with one more member. -/
def withMember (path : String) (paths : List String) : List String :=
  if paths.contains path then paths else paths ++ [path]

/-- Adds paths to the directories up to the first one that is there. -/
def addUntilKnown (directories : List String) : List String → List String
  | [] => directories
  | p :: above => if directories.contains p then directories else addUntilKnown (directories ++ [p]) above

/-- Adds a directory and those above it, up to the first one that is there. -/
def addDirectory (t : Tree) (path : String) : Tree :=
  { t with directories := addUntilKnown t.directories (Path.ancestors (Path.normalize path)) }

/-- Adds a file and the directories above it. -/
def addFile (t : Tree) (path : String) : Tree :=
  let path := Path.normalize path
  let t := t.addDirectory (Path.dirname path)
  { t with files := withMember path t.files }

/-- Whether a path lies below another, by their texts. -/
def isBelow (path other : String) : Bool :=
  (path.toList ++ ['/']).isPrefixOf other.toList

/-- Takes out a path and everything below it. -/
def remove (t : Tree) (path : String) : Tree :=
  let path := Path.normalize path
  { t with
    files := t.files.filter fun f => f ≠ path && !isBelow path f
    directories := t.directories.filter fun d => d ≠ path && !isBelow path d }

/-- Forbids listing a directory, named as it is given. -/
def setUnreadable (t : Tree) (path : String) : Tree :=
  { t with unreadable := withMember path t.unreadable }

/-- Allows listing every directory. -/
def clearUnreadable (t : Tree) : Tree :=
  { t with unreadable := [] }

/-- A tree with these directories and files. -/
def build (directories files unreadable : List String) : Tree :=
  let t := directories.foldl addDirectory empty
  let t := files.foldl addFile t
  unreadable.foldl setUnreadable t

/-- Whether there is something at a normalised path. -/
def holds (t : Tree) (path : String) : Bool :=
  t.files.contains path || t.directories.contains path

/-- One more call for a path. -/
def count (calls : Assoc String Nat) (path : String) : Assoc String Nat :=
  calls.insert path ((calls.get? path).getD 0 + 1)

/-- Whether there is something at a path; the question is counted. -/
def pathExists (t : Tree) (path : String) : Bool × Tree :=
  let path := Path.normalize path
  (t.holds path, { t with existsCalls := count t.existsCalls path })

/-- The names in a directory, sorted; of two equal ones the directory comes first. -/
def entriesOf (t : Tree) (path : String) : List DirectoryEntry :=
  let directories := t.directories.filter fun d => d ≠ path && Path.dirname d = path
  let files := t.files.filter fun f => Path.dirname f = path
  let entries : List DirectoryEntry :=
    directories.map (fun d => ⟨Path.basename d, true⟩) ++ files.map (fun f => ⟨Path.basename f, false⟩)
  entries.mergeSort fun a b => a.name ≤ b.name

/-- What listing a normalised path gives. -/
def listing (t : Tree) (path : String) : Except FileError (List DirectoryEntry) :=
  if t.unreadable.contains path then .error ⟨.permissionDenied, path⟩
  else if !t.directories.contains path then .error ⟨.notFound, path⟩
  else .ok (t.entriesOf path)

/-- Lists a directory; the question is counted. -/
def listDirectory (t : Tree) (path : String) : Except FileError (List DirectoryEntry) × Tree :=
  let path := Path.normalize path
  (t.listing path, { t with listCalls := count t.listCalls path })

/-- How many questions about existence were asked. -/
def probeCount (t : Tree) : Nat :=
  t.existsCalls.entries.foldl (fun n call => n + call.2) 0

instance : FileSystem Tree := ⟨pathExists, listDirectory⟩

end Tree

end DocRefs
