import DocRefs.Text.Fields

/-!
# Paths as text

Slash-separated paths handled by their text alone: joining, normalising, the directory and the name of a path, and the
directories above one. Exactly two leading slashes are a root of their own.
-/

namespace DocRefs.Path

/-- How many slashes the root of a normalised path has: none for a relative path, two where exactly two lead. -/
def rootSlashes : List Char → Nat
  | '/' :: '/' :: '/' :: _ => 1
  | '/' :: '/' :: _ => 2
  | '/' :: _ => 1
  | _ => 0

/-- Takes one more component into a normalised list, which is kept from its last to its first: dots go, and two dots
take back the component before them. Where there is none to take back they stay in a relative path and go in an absolute
one. -/
def pushComponent (rooted : Bool) (done : List (List Char)) (component : List Char) : List (List Char) :=
  if component = [] || component = ['.'] then done
  else if component ≠ ['.', '.'] then component :: done
  else
    match done with
    | [] => if rooted then [] else [component]
    | last :: before => if last = ['.', '.'] then component :: done else before

/-- The components of a normalised path. -/
def normalComponents (p : List Char) : List (List Char) :=
  ((fields '/' p).foldl (pushComponent (rootSlashes p != 0)) []).reverse

/-- The text of a path with that many slashes at its root. -/
def ofComponents (slashes : Nat) (components : List (List Char)) : List Char :=
  List.replicate slashes '/' ++ List.intercalate ['/'] components

/-- The normal form of a path: no empty component, no dot, two dots only where nothing is left to take back. -/
def normalChars (p : List Char) : List Char :=
  match ofComponents (rootSlashes p) (normalComponents p) with
  | [] => ['.']
  | q => q

/-- A path taken from a base: the path itself when it is absolute. -/
def joinChars (base p : List Char) : List Char :=
  if p.head? = some '/' then p
  else if base = [] || base.getLast? = some '/' then base ++ p
  else base ++ '/' :: p

/-- What stands behind the last slash. -/
def nameChars (p : List Char) : List Char :=
  (p.reverse.takeWhile (· != '/')).reverse

/-- What stands before the last slash, and the slashes there too when nothing else does. -/
def parentChars (p : List Char) : List Char :=
  let head := p.take (p.length - (nameChars p).length)
  if head.all (· == '/') then head else (head.reverse.dropWhile (· == '/')).reverse

/-- A path with its trailing directory parts, of which the parent is a front part. -/
theorem parentChars_prefix (p : List Char) : parentChars p <+: p := by
  unfold parentChars
  simp only
  split
  · exact List.take_prefix _ _
  · refine List.IsPrefix.trans ?_ (List.take_prefix (p.length - (nameChars p).length) p)
    rw [← List.reverse_suffix, List.reverse_reverse]
    exact List.dropWhile_suffix _

/-- The normal form of a path. -/
def normalize (p : String) : String :=
  String.ofList (normalChars p.toList)

/-- A path taken from a base. -/
def join (base p : String) : String :=
  String.ofList (joinChars base.toList p.toList)

/-- The directory that a path lies in, by its text. -/
def dirname (p : String) : String :=
  String.ofList (parentChars p.toList)

/-- The last component of a path, empty behind a trailing slash. -/
def basename (p : String) : String :=
  String.ofList (nameChars p.toList)

/-- Whether a path begins at the root. -/
def isAbsolute (p : String) : Bool :=
  p.toList.head? = some '/'

/-- The normal form of a path taken from the working directory. -/
def absolute (cwd p : String) : String :=
  normalize (if isAbsolute p then p else join cwd p)

/-- A path and the directories above it, nearest first. -/
def ancestors (p : String) : List String :=
  if h : dirname p = p then [p] else
    have : (dirname p).length < p.length := by
      have hp := parentChars_prefix p.toList
      have hle := hp.length_le
      simp only [dirname, ← String.length_toList, String.toList_ofList]
      refine Nat.lt_of_le_of_ne hle fun he => h ?_
      have := hp.eq_of_length he
      rw [dirname, this, String.ofList_toList]
    p :: ancestors (dirname p)
termination_by p.length

end DocRefs.Path
