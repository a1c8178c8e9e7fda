import DocRefs.Files.Disk
import DocRefs.Settings

/-!
# Collecting documents

A file stands for itself, a directory for the documents below it, in the order of their components. Directories to which
access is denied count as empty.
-/

namespace DocRefs

namespace Disk

/-- Whether no directory from a place down to another, the last one left out, is denied. -/
def isOpenBelow (d : Disk) (place : Place) (below : List String) : Bool :=
  (List.range below.length).all fun n => !d.denied.contains (place ++ below.take n)

/-- The files below a place, each by its components from there on. -/
def filesBelow (d : Disk) (place : Place) : List (List String) :=
  d.nodes.filterMap fun (p, node) =>
    match node with
    | .directory => none
    | .file _ =>
      if place.isPrefixOf p && p.length != place.length then
        let below := p.drop place.length
        if d.isOpenBelow place below then some below else none
      else none

/-- Whether components stand before others in the order of the first that differs, or are the same. -/
def inOrder : List String → List String → Bool
  | [], _ => true
  | _ :: _, [] => false
  | c :: cs, d :: ds => if c = d then inOrder cs ds else c ≤ d

/-- The files below a directory as paths from it, sorted. -/
def filePathsBelow (d : Disk) (directory : FilePath) : List FilePath :=
  match d.find directory.toString with
  | .error _ => []
  | .ok place =>
    ((d.filesBelow place).mergeSort inOrder).map fun below => ⟨directory.slashes, directory.parts ++ below⟩

end Disk

/-- Why documents cannot be collected: there is nothing at a path, or it cannot be looked up. -/
inductive CollectError
  | nothingAt (path : FilePath)
  | file (e : FileError)
deriving Repr, DecidableEq

/-- The documents that paths stand for, up to the first path that stands for none. -/
def collectDocuments (disk : Disk) (settings : Settings) : List FilePath → Except CollectError (List FilePath)
  | [] => .ok []
  | p :: ps =>
    match disk.lookUp p.toString with
    | .error e => .error (.file e)
    | .ok none => .error (.nothingAt p)
    | .ok (some (.file _)) => (collectDocuments disk settings ps).map (p :: ·)
    | .ok (some .directory) =>
      (collectDocuments disk settings ps).map fun others => (disk.filePathsBelow p).filter settings.isDocument ++ others

end DocRefs
