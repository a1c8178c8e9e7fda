import DocRefs.Path
import DocRefs.Text.LowerCase

/-!
# Paths as components

A path as a root and its components: empty components and dots are dropped when it is read, two dots are kept. Names
given on the command line and names of watched files are such paths, and are shown in this form.
-/

namespace DocRefs

/-- A path by its components. The root has no slash in a relative path, and one or two in an absolute one. -/
structure FilePath where
  slashes : Nat
  parts : List String
deriving Repr, DecidableEq

namespace FilePath

/-- Reads a path. -/
def ofString (s : String) : FilePath :=
  ⟨Path.rootSlashes s.toList, (((fields '/' s.toList).filter fun f => f ≠ [] && f ≠ ['.']).map String.ofList)⟩

/-- A path as it is shown: a dot when it has neither root nor components. -/
def toString (p : FilePath) : String :=
  match String.ofList (Path.ofComponents p.slashes (p.parts.map String.toList)) with
  | "" => "."
  | s => s

/-- Whether a path begins at the root. -/
def isAbsolute (p : FilePath) : Bool :=
  p.slashes != 0

/-- A path taken from a base: the path itself when it is absolute. -/
def append (base p : FilePath) : FilePath :=
  if p.isAbsolute then p else ⟨base.slashes, base.parts ++ p.parts⟩

/-- The last component. -/
def name (p : FilePath) : String :=
  p.parts.getLast?.getD ""

/-- The end of the name from its last point on, if something stands before the point and something behind it. -/
def suffix (p : FilePath) : String :=
  let name := p.name.toList
  let ending := (name.reverse.takeWhile (· != '.')).reverse
  if ending.isEmpty || name.length < ending.length + 2 then "" else String.ofList ('.' :: ending)

/-- The path below a directory, if it lies there: the roots agree and the directory's components come first. -/
def below? (directory p : FilePath) : Option (List String) :=
  if directory.slashes = p.slashes && directory.parts.isPrefixOf p.parts then some (p.parts.drop directory.parts.length)
  else none

/-- All components, the root first when there is one. -/
def allParts (p : FilePath) : List String :=
  if p.isAbsolute then String.ofList (List.replicate p.slashes '/') :: p.parts else p.parts

/-- Why there is no home to put for a leading tilde: none is known for the name behind it, or the name holds a null
character, so that it cannot be looked up. -/
inductive NoHome
  | unknown
  | nullName
deriving Repr, DecidableEq

/-- The text of the refusal. -/
def NoHome.message : NoHome → String
  | unknown => "Could not determine home directory."
  | nullName => "embedded null byte"

/-- The directory that a home names, unless the home is itself written with a tilde. Slashes at its end do not count,
and an empty one is the root. -/
def homeDirectory (home : String) : Except NoHome FilePath :=
  let written := (home.toList.reverse.dropWhile (· == '/')).reverse
  match written with
  | [] => .ok (ofString "/")
  | '~' :: _ => .error .unknown
  | _ => .ok (ofString (String.ofList written))

/-- Puts a home for a leading tilde: that of the user whose name is behind the tilde, or one's own if no name is there.
The homes that are known are looked up by name, one's own under the empty name. -/
def expandHome (homeOf? : String → Option String) (p : FilePath) : Except NoHome FilePath :=
  match p with
  | ⟨0, first :: rest⟩ =>
    match first.toList with
    | '~' :: name =>
      if '\x00' ∈ name then .error .nullName
      else
        match homeOf? (String.ofList name) with
        | none => .error .unknown
        | some home => (homeDirectory home).map fun directory => ⟨directory.slashes, directory.parts ++ rest⟩
    | _ => .ok p
  | _ => .ok p

end FilePath

end DocRefs
