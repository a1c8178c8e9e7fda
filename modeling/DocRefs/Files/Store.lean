import DocRefs.Files.Disk
import DocRefs.Files.Tree

/-!
# Where files are kept

A workspace works over a tree in memory or over a disk.
-/

namespace DocRefs

/-- A place that holds files, in memory or on a disk. -/
inductive Store
  | memory (t : Tree)
  | disk (d : Disk)

namespace Store

/-- Whether a path exists. -/
def pathExists : Store → String → Bool × Store
  | memory t, path => ((t.pathExists path).1, memory (t.pathExists path).2)
  | disk d, path => (d.pathExists path, disk d)

/-- Lists a directory. -/
def listDirectory : Store → String → Except FileError (List DirectoryEntry) × Store
  | memory t, path => ((t.listDirectory path).1, memory (t.listDirectory path).2)
  | disk d, path => (d.listDirectory path, disk d)

instance : FileSystem Store := ⟨pathExists, listDirectory⟩

end Store

end DocRefs
