import DocRefs.Files.Basic
import DocRefs.Path

/-!
# A disk

Files with their bytes and directories, found component by component as a system call does: two dots lead to the
directory above an existing one, and nothing is found below a file. No name is longer than 255 bytes, and no path longer
than 4095. Access to a path may be denied, which forbids reading it but not seeing it.
-/

namespace DocRefs

/-- The place of something on a disk: the names from the root on. -/
abbrev Place := List String

/-- What is at a place. -/
inductive Node
  | directory
  | file (bytes : List UInt8)
deriving Repr, DecidableEq

/-- A disk, seen from a working directory. The root is always there. -/
structure Disk where
  cwd : String := "/"
  nodes : List (Place × Node) := []
  denied : List Place := []
deriving Repr

namespace Disk

/-- What is at a place. -/
def at? (d : Disk) (place : Place) : Option Node :=
  if place = [] then some .directory else (d.nodes.find? (·.1 = place)).map (·.2)

/-- The most bytes that a name may have. -/
def maxNameSize : Nat := 255

/-- The most bytes that a path may have. -/
def maxPathSize : Nat := 4095

/-- Follows one component from a place where something is. -/
def step (d : Disk) (here : Place) (component : String) : Except FileFault Place :=
  match d.at? here with
  | some .directory =>
    if component = "" || component = "." then .ok here
    else if component = ".." then .ok here.dropLast
    else if maxNameSize < component.utf8ByteSize then .error .nameTooLong
    else if (d.at? (here ++ [component])).isSome then .ok (here ++ [component])
    else .error .notFound
  | some (.file _) => .error .notADirectory
  | none => .error .notFound

/-- Follows components one after the other. -/
def follow (d : Disk) : Place → List String → Except FileFault Place
  | here, [] => .ok here
  | here, c :: cs =>
    match d.step here c with
    | .ok next => d.follow next cs
    | .error fault => .error fault

/-- The components that a path has behind the root, from the working directory when it is relative. -/
def componentsOf (d : Disk) (path : String) : List String :=
  (fields '/' (Path.joinChars d.cwd.toList path.toList)).map String.ofList

/-- The place that a path leads to. -/
def find (d : Disk) (path : String) : Except FileFault Place :=
  if path = "" then .error .notFound
  else if maxPathSize < path.utf8ByteSize then .error .nameTooLong
  else d.follow [] (d.componentsOf path)

/-- What a path leads to. -/
def node? (d : Disk) (path : String) : Option Node :=
  match d.find path with
  | .ok place => d.at? place
  | .error _ => none

/-- Whether a path leads to something. -/
def pathExists (d : Disk) (path : String) : Bool :=
  (d.node? path).isSome

/-- What is seen at a path. That nothing is there is an answer; that the path cannot be looked up is none. -/
def lookUp (d : Disk) (path : String) : Except FileError (Option Node) :=
  match d.find path with
  | .ok place => .ok (d.at? place)
  | .error .nameTooLong => .error ⟨.nameTooLong, path⟩
  | .error _ => .ok none

/-- Whether a path leads to a directory. -/
def isDirectory (d : Disk) (path : String) : Bool :=
  d.node? path = some .directory

/-- Whether a path leads to something that may not be read. -/
def isDenied (d : Disk) (path : String) : Bool :=
  match d.find path with
  | .ok place => d.denied.contains place
  | .error _ => false

/-- The entries of the directory at a place, by their names. -/
def entriesAt (d : Disk) (place : Place) : List DirectoryEntry :=
  (d.nodes.filterMap fun (p, node) =>
    if p ≠ [] && p.dropLast = place then
      some ⟨p.getLast?.getD "", match node with | .directory => true | .file _ => false⟩
    else none).mergeSort fun a b => a.name ≤ b.name

/-- Lists a directory. -/
def listDirectory (d : Disk) (path : String) : Except FileError (List DirectoryEntry) :=
  match d.find path with
  | .error fault => .error ⟨fault, path⟩
  | .ok place =>
    match d.at? place with
    | some .directory => if d.denied.contains place then .error ⟨.permissionDenied, path⟩ else .ok (d.entriesAt place)
    | some (.file _) => .error ⟨.notADirectory, path⟩
    | none => .error ⟨.notFound, path⟩

/-- The bytes of a file. -/
def readFile (d : Disk) (path : String) : Except FileError (List UInt8) :=
  match d.find path with
  | .error fault => .error ⟨fault, path⟩
  | .ok place =>
    match d.at? place with
    | some (.file bytes) => if d.denied.contains place then .error ⟨.permissionDenied, path⟩ else .ok bytes
    | some .directory => .error ⟨.isADirectory, path⟩
    | none => .error ⟨.notFound, path⟩

/-- The place that a path names by its text. -/
def placeOf (d : Disk) (path : String) : Place :=
  (Path.normalComponents (Path.joinChars d.cwd.toList path.toList)).map String.ofList

/-- Deletes a place and everything below it. -/
def delete (d : Disk) (place : Place) : Disk :=
  { d with nodes := d.nodes.filter fun (p, _) => !place.isPrefixOf p }

/-- Puts something at a place below the root, instead of all that is there and below it. -/
def put (d : Disk) (place : Place) (node : Node) : Disk :=
  if place = [] then d
  else
    let d := d.delete place
    { d with nodes := d.nodes ++ [(place, node)] }

/-- Makes a directory at a place, unless one is there. -/
def putDirectory (d : Disk) (place : Place) : Disk :=
  if d.at? place = some .directory then d else d.put place .directory

/-- Makes the directories on the way to a place, and at the place itself. -/
def makeDirectory (d : Disk) (place : Place) : Disk :=
  (List.range place.length).foldl (fun d n => d.putDirectory (place.take (n + 1))) d

/-- Writes a file and makes the directories on the way to it. -/
def writeFile (d : Disk) (place : Place) (bytes : List UInt8) : Disk :=
  (d.makeDirectory place.dropLast).put place (.file bytes)

/-- A set of changes to a disk, made in the order of the fields. -/
structure Change where
  directories : List String := []
  files : List (String × List UInt8) := []
  delete : List String := []
  deny : List String := []
  allow : List String := []

/-- Makes a set of changes. -/
def apply (d : Disk) (c : Change) : Disk :=
  let d := c.directories.foldl (fun d p => d.makeDirectory (d.placeOf p)) d
  let d := c.files.foldl (fun d (p, bytes) => d.writeFile (d.placeOf p) bytes) d
  let d := c.delete.foldl (fun d p => d.delete (d.placeOf p)) d
  let d := { d with denied := d.denied ++ c.deny.map d.placeOf }
  { d with denied := d.denied.filter fun p => !(c.allow.map d.placeOf).contains p }

instance : FileSystem Disk where
  pathExists d path := (d.pathExists path, d)
  listDirectory d path := (d.listDirectory path, d)

end Disk

end DocRefs
