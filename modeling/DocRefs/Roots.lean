import DocRefs.Assoc
import DocRefs.Files.Basic
import DocRefs.Path

/-!
# Project roots

The root of a project is the nearest directory, from a given one upwards, that holds the marker. What a search finds is
remembered for every directory that it passed, and a remembered answer is not looked up again until the memory is
cleared.
-/

namespace DocRefs

/-- The roots that are known, by directory; a directory may be known to have none. -/
structure Roots where
  marker : String
  known : Assoc String (Option String) := .empty
deriving Repr

/-- What a search found, and the directories that it probed. -/
structure RootSearch where
  root : Option String
  probed : List String
deriving Repr, DecidableEq

namespace Roots

/-- Searches directories in order until one is known or holds the marker. -/
def walk {σ : Type} [FileSystem σ] (r : Roots) (fs : σ) : List String → RootSearch × σ
  | [] => (⟨none, []⟩, fs)
  | d :: ds =>
    match r.known.get? d with
    | some root => (⟨root, []⟩, fs)
    | none =>
      let (found, fs) := FileSystem.pathExists fs (Path.join d r.marker)
      if found then (⟨some d, [d]⟩, fs)
      else
        let (search, fs) := walk r fs ds
        ({ search with probed := d :: search.probed }, fs)

/-- Remembers what a search found for every directory that it probed. -/
def remember (r : Roots) (search : RootSearch) : Roots :=
  { r with known := search.probed.foldl (fun t d => t.insert d search.root) r.known }

/-- Finds the root of an absolute directory. -/
def find {σ : Type} [FileSystem σ] (r : Roots) (fs : σ) (start : String) : RootSearch × Roots × σ :=
  let (search, fs) := r.walk fs (Path.ancestors start)
  (search, r.remember search, fs)

/-- The remembered root of a directory, if it is known to have one. -/
def cached (r : Roots) (directory : String) : Option String :=
  (r.known.get? directory).join

/-- Whether the answer for a directory is known. -/
def isCached (r : Roots) (directory : String) : Bool :=
  r.known.contains directory

/-- Forgets everything. -/
def clear (r : Roots) : Roots :=
  { r with known := .empty }

/-- Whether a path has the marker's name. -/
def isMarker (r : Roots) (path : String) : Bool :=
  Path.basename path = r.marker

/-- Forgets everything if one of the changed paths has the marker's name, and says whether it did. -/
def invalidate (r : Roots) (changed : List String) : Bool × Roots :=
  if changed.any r.isMarker then (true, r.clear) else (false, r)

end Roots

end DocRefs
