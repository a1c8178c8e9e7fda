import DocRefs.Collect
import DocRefs.Proofs.Path.FilePath

/-!
# The paths of collected documents

A disk that is seen from a clean directory and holds nothing but names stays so whatever is written to it
(`Disk.Proper.apply`), and the files below a directory are those at its path with names behind it
(`exists_names_of_mem_filePathsBelow`).
-/

namespace DocRefs

namespace Disk

/-- A disk that is seen from a clean directory, and on which every place is made of names. -/
structure Proper (d : Disk) : Prop where
  cwd : Path.Clean d.cwd
  names : ∀ e ∈ d.nodes, ∀ c ∈ e.1, Path.IsName c.toList

namespace Proper

variable {d : Disk}

/-- What a path leads to is a place that is made of names. -/
theorem placeOf (h : d.Proper) (path : String) : ∀ c ∈ d.placeOf path, Path.IsName c.toList := by
  intro c hc
  obtain ⟨chars, hchars, rfl⟩ := List.mem_map.1 hc
  rw [String.toList_ofList]
  exact Path.isName_of_mem_normalComponents (Path.head?_joinChars (Path.head?_of_isAbsolute h.cwd.absolute) _) hchars

/-- A proper disk stays one when something is deleted. -/
theorem delete (h : d.Proper) (place : Place) : (d.delete place).Proper :=
  ⟨h.cwd, fun e he => h.names e (List.mem_filter.1 he).1⟩

/-- It stays one when something is put at a place of names. -/
theorem put (h : d.Proper) {place : Place} (hplace : ∀ c ∈ place, Path.IsName c.toList) (node : Node) :
    (d.put place node).Proper := by
  unfold Disk.put
  split
  · exact h
  · refine ⟨h.cwd, ?_⟩
    intro e he
    rcases List.mem_append.1 he with he | he
    · exact (h.delete place).names e he
    · rw [List.mem_singleton.1 he]
      exact hplace

/-- It stays one when a directory is made at a place of names. -/
theorem putDirectory (h : d.Proper) {place : Place} (hplace : ∀ c ∈ place, Path.IsName c.toList) :
    (d.putDirectory place).Proper := by
  unfold Disk.putDirectory
  split
  · exact h
  · exact h.put hplace _

/-- It stays one when the directories on the way are made too. -/
theorem makeDirectory (h : d.Proper) {place : Place} (hplace : ∀ c ∈ place, Path.IsName c.toList) :
    (d.makeDirectory place).Proper :=
  List.foldlRecOn _ _ h fun _ hd _ _ => hd.putDirectory fun c hc => hplace c (List.mem_of_mem_take hc)

/-- It stays one when a file is written at a place of names. -/
theorem writeFile (h : d.Proper) {place : Place} (hplace : ∀ c ∈ place, Path.IsName c.toList) (bytes : List UInt8) :
    (d.writeFile place bytes).Proper :=
  (h.makeDirectory fun c hc => hplace c ((List.dropLast_prefix _).subset hc)).put hplace _

/-- A disk stays proper whatever is changed on it. -/
theorem apply (h : d.Proper) (c : Change) : (d.apply c).Proper := by
  have hdirectories : (c.directories.foldl (fun d p => d.makeDirectory (d.placeOf p)) d).Proper :=
    List.foldlRecOn _ _ h fun _ hd p _ => hd.makeDirectory (hd.placeOf p)
  have hfiles := List.foldlRecOn (motive := Proper) c.files
    (fun d file => d.writeFile (d.placeOf file.1) file.2) hdirectories
    fun _ hd file _ => hd.writeFile (hd.placeOf file.1) file.2
  have hdeleted := List.foldlRecOn (motive := Proper) c.delete (fun d p => d.delete (d.placeOf p)) hfiles
    fun _ hd p _ => hd.delete _
  exact ⟨hdeleted.cwd, hdeleted.names⟩

end Proper

/-- The files below a place are those on the disk to which open directories lead from there. -/
theorem mem_filesBelow_iff {d : Disk} {place : Place} {below : List String} :
    below ∈ d.filesBelow place ↔
      below ≠ [] ∧ d.isOpenBelow place below = true ∧ ∃ bytes, (place ++ below, Node.file bytes) ∈ d.nodes := by
  constructor
  · intro hbelow
    obtain ⟨⟨p, node⟩, hp, hnode⟩ := List.mem_filterMap.1 hbelow
    cases node with
    | directory => simp at hnode
    | file bytes =>
      simp only [Option.ite_none_right_eq_some, Bool.and_eq_true, bne_iff_ne, ne_eq] at hnode
      obtain ⟨⟨hfront, hlength⟩, hopen, hdrop⟩ := hnode
      obtain ⟨rest, rfl⟩ := List.isPrefixOf_iff_prefix.1 hfront
      obtain rfl : rest = below := by simpa using hdrop
      refine ⟨?_, by simpa using hopen, bytes, hp⟩
      rintro rfl
      simp at hlength
  · rintro ⟨hne, hopen, bytes, hp⟩
    exact List.mem_filterMap.2 ⟨_, hp, by simp [hne, hopen]⟩

/-- A file below a directory is reached by at least one name, and by nothing but names. -/
theorem Proper.filesBelow {d : Disk} (h : d.Proper) {place : Place} {below : List String}
    (hbelow : below ∈ d.filesBelow place) : below ≠ [] ∧ ∀ c ∈ below, Path.IsName c.toList := by
  obtain ⟨hne, -, bytes, hp⟩ := mem_filesBelow_iff.1 hbelow
  exact ⟨hne, fun c hc => h.names _ hp c (List.mem_append_right _ hc)⟩

end Disk

/-- What is collected from a directory are the documents below it. -/
theorem collectDocuments_directory {disk : Disk} {settings : Settings} {directory : FilePath}
    (h : disk.isDirectory directory.toString = true) :
    collectDocuments disk settings [directory] = .ok ((disk.filePathsBelow directory).filter settings.isDocument) := by
  have hlook : disk.lookUp directory.toString = .ok (some .directory) := by
    rw [Disk.isDirectory, decide_eq_true_eq, Disk.node?] at h
    rw [Disk.lookUp]
    cases hfind : disk.find directory.toString with
    | ok place => simpa [hfind] using h
    | error fault => simp [hfind] at h
  rw [collectDocuments, hlook]
  simp [collectDocuments, Except.map]

/-- Where something is collected from a path, that path leads somewhere. -/
theorem exists_find_of_collectDocuments {disk : Disk} {settings : Settings} {path : FilePath} {paths : List FilePath}
    (h : collectDocuments disk settings [path] = .ok paths) : ∃ place, disk.find path.toString = .ok place := by
  rw [collectDocuments, Disk.lookUp] at h
  cases hfind : disk.find path.toString with
  | ok place => exact ⟨place, rfl⟩
  | error fault => cases fault <;> simp [hfind] at h

/-- The files below a directory are those at its path with names behind it. -/
theorem exists_names_of_mem_filePathsBelow {disk : Disk} (hdisk : disk.Proper) {directory p : FilePath}
    (hp : p ∈ disk.filePathsBelow directory) :
    ∃ names : List String, names ≠ [] ∧ (∀ c ∈ names, Path.IsName c.toList) ∧ p = directory.append ⟨0, names⟩ := by
  unfold Disk.filePathsBelow at hp
  split at hp
  · simp at hp
  · obtain ⟨below, hbelow, rfl⟩ := List.mem_map.1 hp
    obtain ⟨hne, hnames⟩ := hdisk.filesBelow (List.mem_mergeSort.1 hbelow)
    exact ⟨below, hne, hnames, rfl⟩

end DocRefs
