import DocRefs.Proofs.Collect
import DocRefs.Proofs.Files.Direct
import Mathlib.Data.Set.Basic

/-!
# What changed on a disk

Two disks differ at the places where not the same can be reached or read (`Disk.Altered`). Whether an absolute path
leads to something, and what is read there, depends on its own place only (`Disk.pathExists_eq_of_notMem_altered`), and
where no place is altered every path leads where it led (`Disk.Agrees.find`).
-/

namespace DocRefs.Disk

/-- What can be reached at a place, name by name. -/
def reach (d : Disk) (place : Place) : Option Node :=
  if d.follow [] place = .ok place then d.at? place else none

/-- The places at which something came, went, or reads differently from one disk to another. -/
def Altered (d d' : Disk) : Set Place :=
  {place | d'.reach place ≠ d.reach place ∨ d'.denied.contains place ≠ d.denied.contains place}

variable {d d' : Disk} {path : String} {place : Place}

/-- At a place that is not altered the same is reached, and may be read or not as before. -/
theorem notMem_altered_iff :
    place ∉ Altered d d' ↔ d'.reach place = d.reach place ∧ d'.denied.contains place = d.denied.contains place := by
  rw [Altered, Set.mem_ofPred_eq, not_or, not_not, not_not]

/-- What is at a place below the root is one of the disk's nodes. -/
theorem mem_nodes_of_at? {node : Node} (h : d.at? place = some node) : place = [] ∨ (place, node) ∈ d.nodes := by
  unfold at? at h
  split at h
  · rename_i hroot
    exact .inl hroot
  · obtain ⟨entry, hentry, rfl⟩ := Option.map_eq_some_iff.1 h
    obtain rfl : entry.1 = place := by simpa using List.find?_some hentry
    exact .inr (List.mem_of_find?_eq_some hentry)

/-- Only places of nodes are altered, if the same is denied on both disks. -/
theorem exists_node_of_mem_altered (hdenied : d'.denied = d.denied) (h : place ∈ Altered d d') :
    d'.reach place ≠ d.reach place ∧ ∃ entry ∈ d.nodes ++ d'.nodes, entry.1 = place := by
  rcases h with hreach | hdiffers
  · refine ⟨hreach, ?_⟩
    have hnode : ∀ (disk : Disk) (node : Node), disk.reach place = some node →
        place = [] ∨ (place, node) ∈ disk.nodes := by
      intro disk node hnode
      unfold reach at hnode
      split at hnode
      · exact mem_nodes_of_at? hnode
      · simp at hnode
    have hbelow : place ≠ [] := by
      rintro rfl
      exact hreach rfl
    cases hsome : d.reach place with
    | some node => exact ⟨_, List.mem_append_left _ ((hnode d node hsome).resolve_left hbelow), rfl⟩
    | none =>
      cases hsome' : d'.reach place with
      | some node => exact ⟨_, List.mem_append_right _ ((hnode d' node hsome').resolve_left hbelow), rfl⟩
      | none => exact absurd (hsome'.trans hsome.symm) hreach
  · rw [hdenied] at hdiffers
    exact absurd rfl hdiffers

/-! ## Absolute paths -/

/-- Names lead nowhere but to the place that they name. -/
theorem eq_of_follow_names {names : List String} (h : ∀ c ∈ names, Path.IsName c.toList)
    (hfollow : d.follow [] names = .ok place) : place = names := by
  obtain ⟨-, htaken⟩ := Reached.root.follows (fun c hc => (h c hc).noSlash) hfollow
  rw [List.map_nil, List.reverse_nil, Path.foldl_names fun c hc => ?_, List.append_nil, List.reverse_inj] at htaken
  · exact List.map_injective_iff.2 (fun _ _ => String.toList_inj.1) htaken
  · obtain ⟨name, hname, rfl⟩ := List.mem_map.1 hc
    exact h name hname

/-- An absolute path leads to the place that it names, if that can be reached and the path is not too long. -/
theorem find_absolute_eq_ok_iff (h : d.Proper) :
    d.find (Path.absolute d.cwd path) = .ok place ↔
      (Path.absolute d.cwd path).utf8ByteSize ≤ maxPathSize ∧ place = d.placeOf path ∧
      d.follow [] place = .ok place := by
  rw [find_eq_ok_iff, follow_absolute h.cwd.absolute]
  constructor
  · rintro ⟨-, hsize, hfollow⟩
    obtain rfl := eq_of_follow_names (h.placeOf path) hfollow
    exact ⟨hsize, rfl, hfollow⟩
  · rintro ⟨hsize, rfl, hfollow⟩
    exact ⟨Path.absolute_ne_empty _ _, hsize, hfollow⟩

/-- An absolute path leads to something if it is not too long and something is reached at its place. -/
theorem pathExists_absolute_iff (h : d.Proper) :
    d.pathExists (Path.absolute d.cwd path) = true ↔
      (Path.absolute d.cwd path).utf8ByteSize ≤ maxPathSize ∧ (d.reach (d.placeOf path)).isSome = true := by
  rw [pathExists_iff]
  constructor
  · rintro ⟨place, node, hfind, hnode⟩
    obtain ⟨hsize, rfl, hfollow⟩ := (find_absolute_eq_ok_iff h).1 hfind
    refine ⟨hsize, ?_⟩
    rw [reach, if_pos hfollow, hnode]
    rfl
  · rintro ⟨hsize, hreach⟩
    rw [reach] at hreach
    split at hreach
    · rename_i hfollow
      obtain ⟨node, hnode⟩ := Option.isSome_iff_exists.1 hreach
      exact ⟨_, node, (find_absolute_eq_ok_iff h).2 ⟨hsize, rfl, hfollow⟩, hnode⟩
    · simp at hreach

/-- A file is read by an absolute path if it is reached and may be read, and the path is not too long. -/
theorem readFile_absolute_iff (h : d.Proper) {bytes : List UInt8} :
    d.readFile (Path.absolute d.cwd path) = .ok bytes ↔
      (Path.absolute d.cwd path).utf8ByteSize ≤ maxPathSize ∧ d.reach (d.placeOf path) = some (.file bytes) ∧
        d.denied.contains (d.placeOf path) = false := by
  constructor
  · intro hread
    unfold readFile at hread
    split at hread
    · simp at hread
    · rename_i place hfind
      obtain ⟨hsize, rfl, hfollow⟩ := (find_absolute_eq_ok_iff h).1 hfind
      split at hread
      · rename_i found hnode
        split at hread
        · simp at hread
        · rename_i hallowed
          rw [← Except.ok.inj hread, reach, if_pos hfollow]
          exact ⟨hsize, hnode, Bool.eq_false_iff.2 hallowed⟩
      · simp at hread
      · simp at hread
  · rintro ⟨hsize, hreach, hallowed⟩
    rw [reach] at hreach
    split at hreach
    · rename_i hfollow
      rw [readFile, (find_absolute_eq_ok_iff h).2 ⟨hsize, rfl, hfollow⟩]
      simp only [hreach, hallowed, Bool.false_eq_true, if_false]
    · simp at hreach

theorem placeOf_eq (hcwd : d'.cwd = d.cwd) (path : String) : d'.placeOf path = d.placeOf path := by
  rw [placeOf, placeOf, hcwd]

/-- An absolute path leads to something as before unless its place is altered. -/
theorem pathExists_eq_of_notMem_altered (h : d.Proper) (h' : d'.Proper) (hcwd : d'.cwd = d.cwd)
    (hplace : d.placeOf path ∉ Altered d d') :
    d'.pathExists (Path.absolute d.cwd path) = d.pathExists (Path.absolute d.cwd path) := by
  have hiff : d'.pathExists (Path.absolute d'.cwd path) = true ↔ _ := pathExists_absolute_iff h'
  rw [placeOf_eq hcwd, hcwd, (notMem_altered_iff.1 hplace).1, ← pathExists_absolute_iff h] at hiff
  exact Bool.eq_iff_iff.2 hiff

/-- A text is read at an absolute path as before unless its place is altered. -/
theorem readText_of_notMem_altered (h : d.Proper) (h' : d'.Proper) (hcwd : d'.cwd = d.cwd)
    (hplace : d.placeOf path ∉ Altered d d')
    {text : String} (hread : Document.readText d' (Path.absolute d.cwd path) = .ok text) :
    Document.readText d (Path.absolute d.cwd path) = .ok text := by
  obtain ⟨bytes, hbytes, htext⟩ := Document.readText_eq_ok_iff.1 hread
  obtain ⟨hreach, hdenied⟩ := notMem_altered_iff.1 hplace
  have hiff : d'.readFile (Path.absolute d'.cwd path) = .ok bytes ↔ _ := readFile_absolute_iff h'
  rw [placeOf_eq hcwd, hcwd, hreach, hdenied, ← readFile_absolute_iff h] at hiff
  exact Document.readText_eq_ok_iff.2 ⟨bytes, hiff.1 hbytes, htext⟩

/-! ## The last name of a place -/

/-- A name below an absolute path is the last one of the place that both name together. -/
theorem exists_placeOf_join (d : Disk) {above name : String} (habove : Path.isAbsolute above = true)
    (hname : Path.IsName name.toList) : ∃ before, d.placeOf (Path.join above name) = before ++ [name] := by
  obtain ⟨components, hcomponents⟩ := Path.normalComponents_joinChars above.toList hname
  have hhead := Path.head?_joinChars (Path.head?_of_isAbsolute habove) name.toList
  refine ⟨components.map String.ofList, ?_⟩
  rw [placeOf, Path.join, String.toList_ofList, Path.joinChars, if_pos hhead, hcomponents, List.map_append]
  simp

/-- The absolute form of a path ends with the last name of the place that the path names. -/
theorem basename_absolute {d : Disk} (habsolute : Path.isAbsolute d.cwd = true) {path : String}
    {before : Place} {name : String}
    (hname : Path.IsName name.toList) (h : d.placeOf path = before ++ [name]) :
    Path.basename (Path.absolute d.cwd path) = name := by
  have hhead := Path.head?_joinChars (Path.head?_of_isAbsolute habsolute) path.toList
  have hcomponents : Path.normalComponents (Path.joinChars d.cwd.toList path.toList) =
      before.map String.toList ++ [name.toList] := by
    have htext := congrArg (List.map String.toList) h
    simpa [placeOf, Function.comp_def] using htext
  rw [Path.basename, Path.toList_absolute, Path.normalChars_rooted hhead, hcomponents,
    Path.nameChars_ofComponents _ _ hname.noSlash, String.ofList_toList]

/-! ## Disks without a difference -/

/-- Two disks that are seen from the same directory and differ at no place. -/
structure Agrees (d d' : Disk) : Prop where
  cwd : d'.cwd = d.cwd
  altered : Altered d d' = ∅

/-- On disks that agree the same is reached. -/
theorem Agrees.reach_eq (h : Agrees d d') (place : Place) : d'.reach place = d.reach place :=
  (notMem_altered_iff.1 (h.altered ▸ Set.notMem_empty place)).1

/-- On disks that agree the same may not be read. -/
theorem Agrees.denied_eq (h : Agrees d d') (place : Place) : d'.denied.contains place = d.denied.contains place :=
  (notMem_altered_iff.1 (h.altered ▸ Set.notMem_empty place)).2

theorem Agrees.symm (h : Agrees d d') : Agrees d' d := by
  refine ⟨h.cwd.symm, Set.eq_empty_iff_forall_notMem.2 fun place => ?_⟩
  exact notMem_altered_iff.2 ⟨(h.reach_eq place).symm, (h.denied_eq place).symm⟩

/-- What is at a place that is reached is there on both disks. -/
theorem Agrees.at?_eq (h : Agrees d d') (hreached : d.Reached place) {node : Node} (hnode : d.at? place = some node) :
    d'.at? place = some node := by
  have hreach := h.reach_eq place
  rw [reach, reach, if_pos hreached.follow, hnode] at hreach
  split at hreach
  · exact hreach
  · simp at hreach

/-- A step that is possible on one of two disks that agree is possible on the other. -/
theorem Agrees.step (h : Agrees d d') {here : Place} (hreached : d.Reached here) {c : String} (hslash : '/' ∉ c.toList)
    (hstep : d.step here c = .ok place) : d'.step here c = .ok place := by
  have hnext := (hreached.step hslash hstep).1
  unfold Disk.step at hstep ⊢
  cases hnode : d.at? here with
  | none => simp [hnode] at hstep
  | some node =>
    rw [h.at?_eq hreached hnode]
    rw [hnode] at hstep
    cases node with
    | file bytes => simp at hstep
    | directory =>
      simp only at hstep ⊢
      split at hstep
      · rename_i hdot
        rw [if_pos hdot]
        exact hstep
      · rename_i hdot
        rw [if_neg hdot]
        split at hstep
        · rename_i hdots
          rw [if_pos hdots]
          exact hstep
        · rename_i hdots
          rw [if_neg hdots]
          split at hstep
          · simp at hstep
          · rename_i hsize
            rw [if_neg hsize]
            split at hstep
            · rename_i hsome
              obtain ⟨there, hthere⟩ := Option.isSome_iff_exists.1 hsome
              obtain rfl := Except.ok.inj hstep
              rw [h.at?_eq hnext hthere]
              rfl
            · simp at hstep

/-- Components that can be followed on one of two disks that agree can be followed on the other. -/
theorem Agrees.follow (h : Agrees d d') {here : Place} (hreached : d.Reached here) {components : List String}
    (hslash : ∀ c ∈ components, '/' ∉ c.toList) (hfollow : d.follow here components = .ok place) :
    d'.follow here components = .ok place := by
  induction components generalizing here with
  | nil => exact hfollow
  | cons c cs ih =>
    rw [Disk.follow] at hfollow ⊢
    split at hfollow
    · rename_i next hnext
      have hc := hslash c List.mem_cons_self
      rw [h.step hreached hc hnext]
      exact ih (hreached.step hc hnext).1 (fun c' hc' => hslash c' (List.mem_cons_of_mem _ hc')) hfollow
    · simp at hfollow

/-- Every path leads where it led, and the same is there. -/
theorem Agrees.find (h : Agrees d d') (habsolute : Path.isAbsolute d.cwd = true) (hfind : d.find path = .ok place) :
    d'.find path = .ok place ∧ ∀ node, d.at? place = some node → d'.at? place = some node := by
  obtain ⟨hne, hsize, hfollow⟩ := find_eq_ok_iff.1 hfind
  have hcomponents : d'.componentsOf path = d.componentsOf path := by rw [componentsOf, componentsOf, h.cwd]
  have hslash : ∀ c ∈ d.componentsOf path, '/' ∉ c.toList := by
    intro c hc
    obtain ⟨f, hf, rfl⟩ := List.mem_map.1 hc
    rw [String.toList_ofList]
    exact notMem_of_mem_fields hf
  refine ⟨find_eq_ok_iff.2 ⟨hne, hsize, hcomponents ▸ h.follow .root hslash hfollow⟩, fun node => ?_⟩
  exact h.at?_eq (reached_of_follow habsolute hfollow).1

/-- On disks that agree the same paths lead to something. -/
theorem Agrees.pathExists_eq (h : Agrees d d') (habsolute : Path.isAbsolute d.cwd = true) (path : String) :
    d'.pathExists path = d.pathExists path := by
  have hone : ∀ {d d' : Disk}, Agrees d d' → Path.isAbsolute d.cwd = true → d.pathExists path = true →
      d'.pathExists path = true := by
    intro d d' h habsolute hexists
    obtain ⟨place, node, hfind, hnode⟩ := pathExists_iff.1 hexists
    obtain ⟨hfind', hnode'⟩ := h.find habsolute hfind
    exact pathExists_iff.2 ⟨place, node, hfind', hnode' node hnode⟩
  exact Bool.eq_iff_iff.2 ⟨hone h.symm (h.cwd ▸ habsolute), hone h habsolute⟩

/-- On disks that agree the same ways down are open. -/
theorem Agrees.isOpenBelow_eq (h : Agrees d d') (place : Place) (below : List String) :
    d'.isOpenBelow place below = d.isOpenBelow place below := by
  unfold isOpenBelow
  congr 1
  funext n
  rw [h.denied_eq]

/-- A document that can be read is found below a directory on both disks. -/
theorem Agrees.mem_filePathsBelow (h : Agrees d d') (hd : d.Proper) {directory p : FilePath}
    (hdirectory : directory.WellFormed) (hp : p ∈ d.filePathsBelow directory) {text : String}
    (hread : Document.readText d (Path.absolute d.cwd p.toString) = .ok text) : p ∈ d'.filePathsBelow directory := by
  obtain ⟨bytes, hbytes, -⟩ := Document.readText_eq_ok_iff.1 hread
  obtain ⟨-, hreach, -⟩ := (readFile_absolute_iff hd).1 hbytes
  unfold filePathsBelow at hp ⊢
  split at hp
  · simp at hp
  · rename_i here hhere
    obtain ⟨below, hbelow, rfl⟩ := List.mem_map.1 hp
    have hmem := List.mem_mergeSort.1 hbelow
    obtain ⟨hne, hopen, -⟩ := mem_filesBelow_iff.1 hmem
    have hplace : d.placeOf (FilePath.toString ⟨directory.slashes, directory.parts ++ below⟩) = here ++ below :=
      placeOf_below_of_find hd.cwd hdirectory (hd.filesBelow hmem).2 hne hhere
    rw [hplace, ← h.reach_eq, reach] at hreach
    split at hreach
    · have hnode := (mem_nodes_of_at? hreach).resolve_left (List.append_ne_nil_of_right_ne_nil _ hne)
      rw [(h.find hd.cwd.absolute hhere).1]
      refine List.mem_map.2 ⟨below, List.mem_mergeSort.2 (mem_filesBelow_iff.2 ⟨hne, ?_, bytes, hnode⟩), rfl⟩
      rw [h.isOpenBelow_eq]
      exact hopen
    · simp at hreach

end DocRefs.Disk
