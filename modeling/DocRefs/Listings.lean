import DocRefs.Assoc
import DocRefs.Files.Basic
import DocRefs.Path

/-!
# Remembered listings

Directory listings are remembered by normalised path. A listing that fails counts as empty and is not remembered, so
that a later request tries again.
-/

namespace DocRefs

/-- The listings that are known. -/
structure Listings where
  known : Assoc String (List DirectoryEntry) := .empty
deriving Repr

/-- What a request for a listing gave: the entries, whether the directory was read for it, and the error if reading
failed. -/
structure ListingAnswer where
  entries : List DirectoryEntry
  wasRead : Bool
  error : Option FileError
deriving Repr, DecidableEq

namespace Listings

/-- The remembered listing of a directory. -/
def lookup? (l : Listings) (directory : String) : Option (List DirectoryEntry) :=
  l.known.get? (Path.normalize directory)

/-- Remembers the listing of a directory. -/
def store (l : Listings) (directory : String) (entries : List DirectoryEntry) : Listings :=
  ⟨l.known.insert (Path.normalize directory) entries⟩

/-- The listing of a directory: the remembered one, or else the one that is read now. -/
def get {σ : Type} [FileSystem σ] (l : Listings) (fs : σ) (directory : String) : ListingAnswer × Listings × σ :=
  match l.lookup? directory with
  | some entries => (⟨entries, false, none⟩, l, fs)
  | none =>
    match FileSystem.listDirectory fs (Path.normalize directory) with
    | (.ok entries, fs) => (⟨entries, true, none⟩, l.store directory entries, fs)
    | (.error e, fs) => (⟨[], true, some e⟩, l, fs)

/-- Whether the listing of a directory is known. -/
def isCached (l : Listings) (directory : String) : Bool :=
  l.known.contains (Path.normalize directory)

/-- The directories whose listings a changed path may have altered: itself and its parent. -/
def touchedBy (path : String) : List String :=
  [Path.normalize path, Path.dirname (Path.normalize path)]

/-- Forgets the listings that changed paths may have altered, and says how many there were. -/
def invalidate (l : Listings) (changed : List String) : Nat × Listings :=
  let stale := changed.flatMap touchedBy
  let kept : Assoc String (List DirectoryEntry) := ⟨l.known.entries.filter fun e => !stale.contains e.1⟩
  (l.known.size - kept.size, ⟨kept⟩)

/-- Forgets everything. -/
def clear (_ : Listings) : Listings :=
  {}

end Listings

end DocRefs
