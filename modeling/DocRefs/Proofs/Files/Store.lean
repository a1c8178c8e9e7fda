import DocRefs.Files.Store
import DocRefs.Proofs.Files.Altered
import DocRefs.Proofs.Files.Tree
import Mathlib.Data.List.Nodup

/-!
# What a directory lists while files come and go

A directory lists what it listed before unless a path right in it, or its own path, came or went. In memory that is a
fact about edited lists (`Tree.Edits.listing_eq`). On a disk it is one about the places that can be reached: the entries
of a directory are those of the places right below its own (`Disk.mem_entriesAt_iff`), and as no two have one name their
order is settled (`Disk.entriesAt_eq`). `Store.Mutated.listing` says it of both.
-/

namespace DocRefs

/-- Whether a node is a directory. -/
def Node.isDirectory : Node → Bool
  | .directory => true
  | .file _ => false

namespace Disk

/-- A disk as a system keeps it: no two nodes at one place, and no name too long. -/
structure Regular (d : Disk) : Prop extends d.Proper where
  short : ∀ e ∈ d.nodes, ∀ c ∈ e.1, c.utf8ByteSize ≤ maxNameSize
  distinct : (d.nodes.map Prod.fst).Nodup

/-- The places at which something came or went from one disk to another, or became a file instead of a directory or the
other way. -/
def CameOrWent (d d' : Disk) : Set Place :=
  {place | (d'.reach place).map Node.isDirectory ≠ (d.reach place).map Node.isDirectory}

/-- The path that names a place, with one slash before every name. -/
def pathOf (place : Place) : String :=
  String.ofList (Path.ofComponents 1 (place.map String.toList))

variable {d d' : Disk} {place : Place} {path name : String}

theorem isName_toList (h : ∀ c ∈ place, Path.IsName c.toList) : ∀ c ∈ place.map String.toList, Path.IsName c := by
  intro c hc
  obtain ⟨name, hname, rfl⟩ := List.mem_map.1 hc
  exact h name hname

/-- The path of a place of names is clean. -/
theorem clean_pathOf (h : ∀ c ∈ place, Path.IsName c.toList) : Path.Clean (pathOf place) :=
  (Path.clean_iff _).2 ⟨1, place.map String.toList, .inl rfl, isName_toList h, String.toList_ofList⟩

/-- The path of a place names that place. -/
theorem placeOf_pathOf (d : Disk) (h : ∀ c ∈ place, Path.IsName c.toList) : d.placeOf (pathOf place) = place := by
  have hhead := Path.head?_of_isAbsolute (clean_pathOf h).absolute
  have hsettled := Path.settled_names (1 != 0) (isName_toList h)
  rw [placeOf, Path.joinChars, if_pos hhead, pathOf, String.toList_ofList,
    Path.normalComponents_ofComponents (by decide) hsettled]
  simp [Function.comp_def]

/-- The path of a name lies in the path of the names before it. -/
theorem dirname_pathOf_concat (h : ∀ c ∈ place, Path.IsName c.toList) (hname : Path.IsName name.toList) :
    Path.dirname (pathOf (place ++ [name])) = pathOf place := by
  rw [Path.dirname, pathOf, String.toList_ofList, List.map_append, List.map_singleton,
    Path.parentChars_ofComponents (isName_toList h) hname, pathOf]

/-- What an absolute path lists. -/
theorem listDirectory_absolute_iff (h : d.Proper) {entries : List DirectoryEntry} :
    d.listDirectory (Path.absolute d.cwd path) = .ok entries ↔
      (Path.absolute d.cwd path).utf8ByteSize ≤ maxPathSize ∧ d.reach (d.placeOf path) = some .directory ∧
        d.denied.contains (d.placeOf path) = false ∧ d.entriesAt (d.placeOf path) = entries := by
  constructor
  · intro hlist
    unfold listDirectory at hlist
    split at hlist
    · simp at hlist
    · rename_i place hfind
      obtain ⟨hsize, rfl, hfollow⟩ := (find_absolute_eq_ok_iff h).1 hfind
      split at hlist
      · rename_i hnode
        split at hlist
        · simp at hlist
        · rename_i hallowed
          rw [reach, if_pos hfollow]
          exact ⟨hsize, hnode, Bool.eq_false_iff.2 hallowed, Except.ok.inj hlist⟩
      · simp at hlist
      · simp at hlist
  · rintro ⟨hsize, hreach, hallowed, rfl⟩
    rw [reach] at hreach
    split at hreach
    · rename_i hfollow
      rw [listDirectory, (find_absolute_eq_ok_iff h).2 ⟨hsize, rfl, hfollow⟩]
      simp only [hreach, hallowed, Bool.false_eq_true, if_false]
    · simp at hreach

/-! ## The entries of a directory -/

/-- On a regular disk each node is what is at its place. -/
theorem Regular.at?_eq (h : d.Regular) {node : Node} (hne : place ≠ []) (hnode : (place, node) ∈ d.nodes) :
    d.at? place = some node := by
  rw [at?, if_neg hne]
  cases hfound : d.nodes.find? (·.1 = place) with
  | none =>
    exact absurd (decide_eq_true rfl) (List.find?_eq_none.1 hfound _ hnode)
  | some entry =>
    have hplace : entry.1 = place := by simpa using List.find?_some hfound
    have hsame := List.inj_on_of_nodup_map h.distinct (List.mem_of_find?_eq_some hfound) hnode hplace
    rw [hsame]
    rfl

/-- What is right in a directory that is reached is reached. -/
theorem Regular.reach_concat_iff (h : d.Regular) (hplace : d.reach place = some .directory) {node : Node} :
    d.reach (place ++ [name]) = some node ↔ (place ++ [name], node) ∈ d.nodes := by
  have hne : place ++ [name] ≠ [] := by simp
  rw [reach] at hplace
  split at hplace
  · rename_i hfollow
    constructor
    · intro hreach
      rw [reach] at hreach
      split at hreach
      · exact (mem_nodes_of_at? hreach).resolve_left hne
      · simp at hreach
    · intro hnode
      have hhere := h.at?_eq hne hnode
      have hname : Path.IsName name.toList := h.names _ hnode name (by simp)
      have hsize := h.short _ hnode name (by simp)
      have hstep : d.step place name = .ok (place ++ [name]) := by
        have hdot : ¬ (name = "" ∨ name = ".") := by
          rintro (rfl | rfl)
          · exact hname.ne_nil rfl
          · exact hname.ne_dot rfl
        have hdots : name ≠ ".." := by
          rintro rfl
          exact hname.ne_dots rfl
        rw [step, hplace]
        simp [hdot, hdots, Nat.not_lt.2 hsize, hhere]
      have hdown : d.follow [] (place ++ [name]) = .ok (place ++ [name]) := by
        refine follow_append_eq_ok_iff.2 ⟨place, hfollow, ?_⟩
        rw [follow, hstep]
        rfl
      rw [reach, if_pos hdown, hhere]
  · simp at hplace

/-- A node is an entry of the directory that it lies right in. -/
theorem entry_eq_some_iff {p : Place} {node : Node} {e : DirectoryEntry} :
    (if p ≠ [] && p.dropLast = place then
      some (⟨p.getLast?.getD "", match node with | .directory => true | .file _ => false⟩ : DirectoryEntry)
    else none) = some e ↔ p = place ++ [e.name] ∧ e.isDirectory = node.isDirectory := by
  obtain ⟨name, kind⟩ := e
  have hkind : (match node with | .directory => true | .file _ => false) = node.isDirectory := by cases node <;> rfl
  rw [hkind]
  constructor
  · intro he
    simp only [Option.ite_none_right_eq_some, Bool.and_eq_true, decide_eq_true_eq] at he
    obtain ⟨⟨hne, hfront⟩, he⟩ := he
    obtain ⟨last, hlast⟩ := Option.ne_none_iff_exists'.1 (mt List.getLast?_eq_none_iff.1 hne)
    rw [hlast, Option.getD_some] at he
    obtain ⟨rfl, rfl⟩ := DirectoryEntry.mk.inj (Option.some.inj he)
    exact ⟨by rw [← hfront, List.dropLast_append_getLast? _ hlast], rfl⟩
  · rintro ⟨rfl, rfl⟩
    simp

/-- The entries of a directory are the names of the places right below its own, each with the kind of what is there. -/
theorem mem_entriesAt_iff {e : DirectoryEntry} :
    e ∈ d.entriesAt place ↔ ∃ node, (place ++ [e.name], node) ∈ d.nodes ∧ e.isDirectory = node.isDirectory := by
  rw [entriesAt, List.mem_mergeSort, List.mem_filterMap]
  constructor
  · rintro ⟨⟨p, node⟩, hnode, he⟩
    obtain ⟨rfl, hkind⟩ := entry_eq_some_iff.1 he
    exact ⟨node, hnode, hkind⟩
  · rintro ⟨node, hnode, hkind⟩
    exact ⟨_, hnode, entry_eq_some_iff.2 ⟨rfl, hkind⟩⟩

/-- The entries of a directory have one name each, and stand in its order. -/
theorem Regular.entriesAt_sorted (h : d.Regular) (place : Place) :
    ((d.entriesAt place).map DirectoryEntry.name).Nodup ∧ (d.entriesAt place).Pairwise fun a b => a.name ≤ b.name := by
  rw [entriesAt]
  constructor
  · refine ((List.mergeSort_perm _ _).map _).nodup_iff.2 (List.pairwise_map.2 ?_)
    refine (List.pairwise_map.1 h.distinct).filterMap _ ?_
    rintro ⟨p, node⟩ ⟨p', node'⟩ hdiffers e he e' he' hname
    exact hdiffers ((entry_eq_some_iff.1 he).1.trans (hname ▸ (entry_eq_some_iff.1 he').1.symm))
  · exact DirectoryEntry.pairwise_mergeSort _

/-- A directory that is reached on two disks has the same entries on both if nothing came or went right in it. -/
theorem entriesAt_eq (h : d.Regular) (h' : d'.Regular) (hplace : d.reach place = some .directory)
    (hplace' : d'.reach place = some .directory) (hsame : ∀ name, place ++ [name] ∉ CameOrWent d d') :
    d'.entriesAt place = d.entriesAt place := by
  have hmem : ∀ e, e ∈ d'.entriesAt place ↔ e ∈ d.entriesAt place := by
    intro e
    have hkinds : (d'.reach (place ++ [e.name])).map Node.isDirectory =
        (d.reach (place ++ [e.name])).map Node.isDirectory := by
      simpa [CameOrWent] using hsame e.name
    have hiff : ∀ {disk : Disk}, disk.Regular → disk.reach place = some .directory →
        (e ∈ disk.entriesAt place ↔ (disk.reach (place ++ [e.name])).map Node.isDirectory = some e.isDirectory) := by
      intro disk hdisk hreach
      rw [mem_entriesAt_iff, Option.map_eq_some_iff]
      simp only [hdisk.reach_concat_iff hreach, eq_comm]
    rw [hiff h' hplace', hiff h hplace, hkinds]
  obtain ⟨hnames, hsorted⟩ := h.entriesAt_sorted place
  obtain ⟨hnames', hsorted'⟩ := h'.entriesAt_sorted place
  have hperm := (List.perm_ext_iff_of_nodup (List.Nodup.of_map _ hnames') (List.Nodup.of_map _ hnames)).2 hmem
  refine hperm.eq_of_pairwise (fun a b ha hb hab hba => ?_) hsorted' hsorted
  exact List.inj_on_of_nodup_map hnames ((hmem a).1 ha) hb (String.le_antisymm hab hba)

/-- What comes or goes is a place of names. -/
theorem isName_of_mem_cameOrWent (h : d.Proper) (h' : d'.Proper) (hdenied : d'.denied = d.denied)
    (hcame : place ∈ CameOrWent d d') : ∀ c ∈ place, Path.IsName c.toList := by
  have haltered : place ∈ Altered d d' := .inl fun hreach => hcame (congrArg _ hreach)
  obtain ⟨-, entry, hentry, rfl⟩ := exists_node_of_mem_altered hdenied haltered
  rcases List.mem_append.1 hentry with hentry | hentry
  · exact h.names entry hentry
  · exact h'.names entry hentry

/-- A directory lists what it listed if neither its own place nor one right below it came or went. -/
theorem listDirectory_pathOf (h : d.Regular) (h' : d'.Regular) (hdenied : d'.denied = d.denied)
    (hnames : ∀ c ∈ place, Path.IsName c.toList) (hhere : place ∉ CameOrWent d d')
    (hsame : ∀ name, place ++ [name] ∉ CameOrWent d d')
    {entries : List DirectoryEntry} (hlist : d.listDirectory (pathOf place) = .ok entries) :
    d'.listDirectory (pathOf place) = .ok entries := by
  have hpath : ∀ cwd, Path.absolute cwd (pathOf place) = pathOf place := (clean_pathOf hnames).absolute_eq
  rw [← hpath d.cwd, listDirectory_absolute_iff h.toProper, hpath, placeOf_pathOf d hnames] at hlist
  obtain ⟨hsize, hreach, hallowed, rfl⟩ := hlist
  have hreach' : d'.reach place = some .directory := by
    have hkind : (d'.reach place).map Node.isDirectory = some true := by
      rw [CameOrWent, Set.mem_ofPred_eq, not_not, hreach] at hhere
      exact hhere
    obtain ⟨node, hnode, hdirectory⟩ := Option.map_eq_some_iff.1 hkind
    cases node with
    | directory => exact hnode
    | file bytes => simp [Node.isDirectory] at hdirectory
  rw [← hpath d'.cwd, listDirectory_absolute_iff h'.toProper, hpath, placeOf_pathOf d' hnames, hdenied]
  exact ⟨hsize, hreach', hallowed, entriesAt_eq h h' hreach hreach' hsame⟩

end Disk

namespace Store

/-- Files are kept by clean paths in memory, and as a system keeps them on a disk. -/
def Regular : Store → Prop
  | memory t => t.AllClean
  | disk d => d.Regular

/-- What a directory lists. -/
def listing (s : Store) (directory : String) : Except FileError (List DirectoryEntry) :=
  (s.listDirectory directory).1

/-- Files and directories come and go, at the paths of a set. In memory they are added and removed one by one; a disk
becomes any other one on which access is denied to the same places. -/
inductive Mutated : Store → Store → Set String → Prop
  | memory (t : Tree) {m : Tree.Mutation} (hm : m.AddsAbsolute) :
      Mutated (.memory t) (.memory (m.apply t)) {p | t.Changed (m.apply t) p}
  | disk {d d' : Disk} (hregular : d'.Regular) (hdenied : d'.denied = d.denied) :
      Mutated (.disk d) (.disk d') (Disk.pathOf '' Disk.CameOrWent d d')

/-- A directory that is named as the paths are named that come and go: on a disk, from the root and with one slash
before every name. -/
def NamesAlike : Store → String → Prop
  | memory _, _ => True
  | disk _, directory => ∃ place : Place, (∀ c ∈ place, Path.IsName c.toList) ∧ Disk.pathOf place = directory

variable {s s' : Store} {came : Set String} {directory : String}

/-- Listing a directory changes nothing but a count. -/
theorem listing_listDirectory (s : Store) (directory other : String) :
    (s.listDirectory directory).2.listing other = s.listing other := by
  cases s with
  | memory t => exact (t.agrees_listDirectory directory).listing_eq _
  | disk d => rfl

/-- Listing a directory leaves a regular store. -/
theorem Regular.listDirectory (h : s.Regular) (directory : String) : (s.listDirectory directory).2.Regular := by
  cases s with
  | memory t => exact h
  | disk d => exact h

/-- After a listing the same directories are named as the paths are. -/
theorem namesAlike_listDirectory (s : Store) (directory other : String) :
    (s.listDirectory directory).2.NamesAlike other ↔ s.NamesAlike other := by
  cases s <;> rfl

/-- A mutation leaves a regular store. -/
theorem Mutated.regular (h : Mutated s s' came) (hs : s.Regular) : s'.Regular := by
  cases h with
  | memory t hm => exact Tree.AllClean.apply hs hm
  | disk hregular _ => exact hregular

/-- After a mutation the same directories are named as the paths are. -/
theorem Mutated.namesAlike (h : Mutated s s' came) : s'.NamesAlike directory ↔ s.NamesAlike directory := by
  cases h <;> rfl

/-- A directory lists what it listed unless its own path, or one right in it, came or went. -/
theorem Mutated.listing (h : Mutated s s' came) (hs : s.Regular) (hnormal : Path.normalize directory = directory)
    (hnames : s.NamesAlike directory) (hsame : ∀ p ∈ came, p ≠ directory ∧ Path.dirname p ≠ directory)
    {entries : List DirectoryEntry}
    (hlist : s.listing directory = .ok entries) : s'.listing directory = .ok entries := by
  cases h with
  | memory t hm =>
    rename_i m
    rw [← hlist]
    change (m.apply t).listing (Path.normalize directory) = t.listing (Path.normalize directory)
    rw [hnormal]
    exact (m.edits t).listing_eq hsame
  | @disk d d' hregular hdenied =>
    obtain ⟨place, hplace, rfl⟩ := hnames
    refine Disk.listDirectory_pathOf hs hregular hdenied hplace ?_ ?_ hlist
    · intro hcame
      exact (hsame _ (Set.mem_image_of_mem _ hcame)).1 rfl
    · intro name hcame
      have hname := Disk.isName_of_mem_cameOrWent hs.toProper hregular.toProper hdenied hcame name (by simp)
      exact (hsame _ (Set.mem_image_of_mem _ hcame)).2 (Disk.dirname_pathOf_concat hplace hname)

end Store

end DocRefs
