import DocRefs.Document
import DocRefs.Proofs.Attempts
import DocRefs.Proofs.Path.Names

/-!
# Finding paths on a disk

A path that was found once is too long for no disk (`Disk.find_ne_tooLong`). One that leads anywhere leads to the place
that it names by its text (`Disk.reached_of_follow`), and so does its absolute form (`Disk.find_absolute`). A text is
read at a path only where something is found there (`Disk.exists_of_readText`).
-/

namespace DocRefs

namespace Disk

/-! ## Lengths -/

/-- A component that is not too long for a name. -/
def IsShort (component : String) : Prop :=
  component = "" ∨ component = "." ∨ component = ".." ∨ component.utf8ByteSize ≤ maxNameSize

/-- A component that leads on is not too long. -/
theorem isShort_of_step {d : Disk} {here place : Place} {c : String} (h : d.step here c = .ok place) : IsShort c := by
  unfold step at h
  split at h
  · split at h
    · rename_i hdot
      simp only [Bool.or_eq_true, decide_eq_true_eq] at hdot
      exact hdot.elim .inl fun hd => .inr (.inl hd)
    · split at h
      · rename_i hdots
        exact .inr (.inr (.inl hdots))
      · split at h
        · simp at h
        · rename_i hsize
          exact .inr (.inr (.inr (Nat.le_of_not_lt hsize)))
  · simp at h
  · simp at h

/-- A component that is short is not refused for its length. -/
theorem step_ne_tooLong {c : String} (h : IsShort c) (d : Disk) (here : Place) :
    d.step here c ≠ .error .nameTooLong := by
  unfold step
  split
  · split
    · simp
    · split
      · simp
      · split
        · rename_i hdot hdots hsize
          simp only [Bool.or_eq_true, decide_eq_true_eq, not_or] at hdot
          rcases h with h | h | h | h
          · exact absurd h hdot.1
          · exact absurd h hdot.2
          · exact absurd h hdots
          · omega
        · split <;> simp
  · simp
  · simp

/-- Components that lead somewhere are not too long. -/
theorem isShort_of_follow {d : Disk} {here place : Place} {components : List String}
    (h : d.follow here components = .ok place) : ∀ c ∈ components, IsShort c := by
  induction components generalizing here with
  | nil => simp
  | cons c cs ih =>
    rw [follow] at h
    split at h
    · rename_i next hstep
      intro c' hc'
      rcases List.mem_cons.1 hc' with rfl | hc'
      · exact isShort_of_step hstep
      · exact ih h c' hc'
    · simp at h

/-- Components that are short are not refused for their length. -/
theorem follow_ne_tooLong {components : List String} (h : ∀ c ∈ components, IsShort c) (d : Disk) (here : Place) :
    d.follow here components ≠ .error .nameTooLong := by
  induction components generalizing here with
  | nil => simp [follow]
  | cons c cs ih =>
    rw [follow]
    split
    · exact ih (fun c' hc' => h c' (List.mem_cons_of_mem _ hc')) _
    · rename_i fault hstep
      intro hfault
      rw [Except.error.inj hfault] at hstep
      exact step_ne_tooLong (h c List.mem_cons_self) d here hstep

/-- A path is found by following its components, unless it is empty or too long. -/
theorem find_eq_ok_iff {d : Disk} {path : String} {place : Place} :
    d.find path = .ok place ↔
      path ≠ "" ∧ path.utf8ByteSize ≤ maxPathSize ∧ d.follow [] (d.componentsOf path) = .ok place := by
  unfold find
  split
  · rename_i h
    simp [h]
  · rename_i h
    split
    · rename_i hsize
      simp only [reduceCtorEq, false_iff, not_and]
      omega
    · rename_i hsize
      simp only [h, ne_eq, not_false_eq_true, true_and, Nat.le_of_not_lt hsize]

/-- A path that is found on one disk is not too long for another one that is seen from the same directory. -/
theorem find_ne_tooLong {d d' : Disk} (hcwd : d'.cwd = d.cwd) {path : String} {place : Place}
    (h : d.find path = .ok place) : d'.find path ≠ .error .nameTooLong := by
  obtain ⟨hne, hsize, hfollow⟩ := find_eq_ok_iff.1 h
  have hcomponents : d'.componentsOf path = d.componentsOf path := by rw [componentsOf, componentsOf, hcwd]
  rw [find, if_neg hne, if_neg (Nat.not_lt.2 hsize), hcomponents]
  exact follow_ne_tooLong (isShort_of_follow hfollow) d' []

/-! ## Places -/

/-- Components are followed up to a place, and the others from there. -/
theorem follow_append_eq_ok_iff {d : Disk} {here place : Place} {components more : List String} :
    d.follow here (components ++ more) = .ok place ↔ ∃ mid, d.follow here components = .ok mid ∧
    d.follow mid more = .ok place := by
  induction components generalizing here with
  | nil => simp [follow]
  | cons c cs ih =>
    rw [List.cons_append, follow, follow]
    cases d.step here c with
    | ok next => exact ih
    | error fault => simp

/-- A place that is reached from the root name by name. -/
inductive Reached (d : Disk) : Place → Prop
  | root : Reached d []
  | into {place : Place} {name : String} (h : Reached d place) (hname : Path.IsName name.toList)
      (hstep : d.step place name = .ok (place ++ [name])) : Reached d (place ++ [name])

/-- A place that is reached is reached by its own names. -/
theorem Reached.follow {d : Disk} {place : Place} (h : d.Reached place) : d.follow [] place = .ok place := by
  induction h with
  | root => rfl
  | into _ _ hstep ih => exact follow_append_eq_ok_iff.2 ⟨_, ih, by rw [Disk.follow, hstep]; rfl⟩

/-- One component leads from a reached place to a reached one, as it is taken into a path. -/
theorem Reached.step {d : Disk} {here place : Place} (h : d.Reached here) {c : String} (hslash : '/' ∉ c.toList)
    (hstep : d.step here c = .ok place) :
    d.Reached place ∧ (place.map String.toList).reverse =
      Path.pushComponent true (here.map String.toList).reverse c.toList := by
  have hwhole := hstep
  unfold Disk.step at hstep
  split at hstep
  · split at hstep
    · rename_i hdot
      simp only [Bool.or_eq_true, decide_eq_true_eq] at hdot
      rw [← Except.ok.inj hstep]
      refine ⟨h, ?_⟩
      rcases hdot with rfl | rfl <;> simp [Path.pushComponent]
    · rename_i hdot
      simp only [Bool.or_eq_true, decide_eq_true_eq, not_or] at hdot
      split at hstep
      · rename_i hdots
        rw [hdots, ← Except.ok.inj hstep]
        cases h with
        | root => exact ⟨.root, rfl⟩
        | into h hname =>
          rw [List.dropLast_concat]
          refine ⟨h, ?_⟩
          have hne := hname.ne_dots
          simp [Path.pushComponent, hne]
      · rename_i hdots
        have hname : Path.IsName c.toList := by
          refine ⟨?_, hslash, ?_, ?_⟩
          · simpa using hdot.1
          · exact fun he => hdot.2 (String.toList_inj.1 he)
          · exact fun he => hdots (String.toList_inj.1 he)
        split at hstep
        · simp at hstep
        · split at hstep
          · obtain rfl := Except.ok.inj hstep
            refine ⟨.into h hname hwhole, ?_⟩
            rw [Path.pushComponent_name hname, List.map_append, List.reverse_append]
            rfl
          · simp at hstep
  · simp at hstep
  · simp at hstep

/-- What components lead to is reached by the names that are left of them when they are taken into a path. -/
theorem Reached.follows {d : Disk} {here place : Place} (h : d.Reached here) {components : List String}
    (hslash : ∀ c ∈ components, '/' ∉ c.toList) (hfollow : d.follow here components = .ok place) :
    d.Reached place ∧ (place.map String.toList).reverse =
      (components.map String.toList).foldl (Path.pushComponent true) (here.map String.toList).reverse := by
  induction components generalizing here with
  | nil =>
    rw [← Except.ok.inj hfollow]
    exact ⟨h, rfl⟩
  | cons c cs ih =>
    rw [Disk.follow] at hfollow
    split at hfollow
    · rename_i next hnext
      obtain ⟨hreached, hpushed⟩ := h.step (hslash c List.mem_cons_self) hnext
      rw [List.map_cons, List.foldl_cons, ← hpushed]
      exact ih hreached (fun c' hc' => hslash c' (List.mem_cons_of_mem _ hc')) hfollow
    · simp at hfollow

/-- A path leads to the place that it names by its text, if it leads anywhere. -/
theorem reached_of_follow {d : Disk} (hcwd : Path.isAbsolute d.cwd = true) {path : String} {place : Place}
    (h : d.follow [] (d.componentsOf path) = .ok place) : d.Reached place ∧ place = d.placeOf path := by
  have hslash : ∀ c ∈ d.componentsOf path, '/' ∉ c.toList := by
    intro c hc
    obtain ⟨f, hf, rfl⟩ := List.mem_map.1 hc
    rw [String.toList_ofList]
    exact notMem_of_mem_fields hf
  obtain ⟨hreached, hplace⟩ := Reached.root.follows hslash h
  refine ⟨hreached, ?_⟩
  have hroot : (Path.rootSlashes (Path.joinChars d.cwd.toList path.toList) != 0) = true := by
    rw [bne_iff_ne, ne_eq, Path.rootSlashes_eq_zero_iff, Classical.not_not]
    exact Path.head?_joinChars (Path.head?_of_isAbsolute hcwd) _
  have hread : (d.componentsOf path).map String.toList = fields '/' (Path.joinChars d.cwd.toList path.toList) := by
    simp [componentsOf, Function.comp_def]
  have htaken : (place.map String.toList).reverse =
      (fields '/' (Path.joinChars d.cwd.toList path.toList)).foldl (Path.pushComponent true) [] := by
    rw [hplace, hread]
    rfl
  rw [placeOf, Path.normalComponents, hroot, ← htaken]
  simp [Function.comp_def]

/-- Components are followed from the root as they stand in the text of a path. -/
theorem follow_ofComponents (d : Disk) (slashes : Nat) {components : List (List Char)} (h : ∀ c ∈ components, '/' ∉ c) :
    d.follow [] ((fields '/' (Path.ofComponents slashes components)).map String.ofList) =
      d.follow [] (components.map String.ofList) := by
  have hempty : ∀ cs, d.follow [] ("" :: cs) = d.follow [] cs := fun cs => by simp [follow, step, at?]
  rw [Path.fields_ofComponents slashes h]
  induction slashes with
  | zero =>
    rw [List.replicate_zero, List.nil_append]
    split
    · rename_i hnil
      rw [hnil]
      exact hempty []
    · rfl
  | succ k ih =>
    rw [List.replicate_succ, List.cons_append, List.map_cons]
    exact (hempty _).trans ih

/-- The absolute form of a path is followed as the names of the place that the path names by its text. -/
theorem follow_absolute {d : Disk} (hcwd : Path.isAbsolute d.cwd = true) (path : String) :
    d.follow [] (d.componentsOf (Path.absolute d.cwd path)) = d.follow [] (d.placeOf path) := by
  have hhead := Path.head?_joinChars (Path.head?_of_isAbsolute hcwd) path.toList
  have hnormal := Path.normalChars_rooted hhead
  have habsolute := Path.toList_absolute d.cwd path
  have hagain : Path.joinChars d.cwd.toList (Path.absolute d.cwd path).toList = (Path.absolute d.cwd path).toList := by
    rw [Path.joinChars, if_pos]
    rw [habsolute, hnormal]
    obtain ⟨k, hk⟩ := Nat.exists_eq_succ_of_ne_zero fun h0 => (Path.rootSlashes_eq_zero_iff _).1 h0 hhead
    simp [Path.ofComponents, hk, List.replicate_succ]
  rw [componentsOf, hagain, habsolute, hnormal]
  exact d.follow_ofComponents _ fun c hc => (Path.isName_of_mem_normalComponents hhead hc).noSlash

/-- A path that leads somewhere leads there by its absolute form, unless that one is too long. -/
theorem find_absolute {d : Disk} (hcwd : Path.isAbsolute d.cwd = true) {path : String} {place : Place}
    (h : d.find path = .ok place) :
    d.find (Path.absolute d.cwd path) = .ok place ∨ d.find (Path.absolute d.cwd path) = .error .nameTooLong := by
  obtain ⟨-, -, hfollow⟩ := find_eq_ok_iff.1 h
  obtain ⟨hreached, rfl⟩ := reached_of_follow hcwd hfollow
  by_cases hsize : (Path.absolute d.cwd path).utf8ByteSize ≤ maxPathSize
  · exact .inl (find_eq_ok_iff.2 ⟨Path.absolute_ne_empty _ _, hsize, (follow_absolute hcwd path).trans hreached.follow⟩)
  · refine .inr ?_
    rw [find, if_neg (Path.absolute_ne_empty _ _), if_pos (Nat.lt_of_not_le hsize)]

/-! ## Reading -/

/-- What is seen at a path. -/
theorem lookUp_cases (d : Disk) (path : String) :
    (d.find path = .error .nameTooLong ∧ ∃ e, d.lookUp path = .error e) ∨
    ((∀ place node, d.find path = .ok place → d.at? place ≠ some node) ∧ d.lookUp path = .ok none) ∨
    ∃ place node, d.find path = .ok place ∧ d.at? place = some node ∧ d.lookUp path = .ok (some node) := by
  rw [lookUp]
  cases hfind : d.find path with
  | ok place =>
    cases hnode : d.at? place with
    | none => exact .inr (.inl ⟨by rintro p node hp; rw [← Except.ok.inj hp, hnode]; simp, by simp [hnode]⟩)
    | some node => exact .inr (.inr ⟨place, node, rfl, hnode, by simp [hnode]⟩)
  | error fault =>
    cases fault with
    | nameTooLong => exact .inl ⟨rfl, _, rfl⟩
    | notFound => exact .inr (.inl ⟨by simp, rfl⟩)
    | permissionDenied => exact .inr (.inl ⟨by simp, rfl⟩)
    | notADirectory => exact .inr (.inl ⟨by simp, rfl⟩)
    | isADirectory => exact .inr (.inl ⟨by simp, rfl⟩)

/-- A path leads to something if it leads to a place where something is. -/
theorem pathExists_iff {d : Disk} {path : String} :
    d.pathExists path = true ↔ ∃ place node, d.find path = .ok place ∧ d.at? place = some node := by
  rw [pathExists, node?]
  cases d.find path with
  | ok place =>
    cases hnode : d.at? place with
    | none => simp [hnode]
    | some node => simp [hnode]
  | error fault => simp

end Disk

/-- A text is read exactly if the bytes of a file can be decoded. -/
theorem Document.readText_eq_ok_iff {disk : Disk} {path text : String} :
    Document.readText disk path = .ok text ↔
      ∃ bytes, disk.readFile path = .ok bytes ∧ ∃ chars, Utf8.decode bytes = .ok chars ∧
      String.ofList (unifyLineEnds chars) = text := by
  unfold Document.readText
  simp only [bind_eq_ok_iff, mapError_eq_ok_iff, pure, Except.pure, Except.ok.injEq]

/-- Where a text is read a file is found. -/
theorem Disk.exists_of_readText {d : Disk} {path text : String} (h : Document.readText d path = .ok text) :
    ∃ place node, d.find path = .ok place ∧ d.at? place = some node := by
  obtain ⟨bytes, hbytes, -⟩ := Document.readText_eq_ok_iff.1 h
  rw [readFile] at hbytes
  cases hfind : d.find path with
  | error fault => simp [hfind] at hbytes
  | ok place =>
    cases hnode : d.at? place with
    | none => simp [hfind, hnode] at hbytes
    | some node => exact ⟨place, node, rfl, hnode⟩

/-- A document is loaded from a path exactly if a text is read at its absolute form. -/
theorem Document.load_eq_ok_iff {disk : Disk} {path : String} {d : Document} :
    Document.load disk path none = .ok d ↔
      d.path = Path.absolute disk.cwd path ∧ Document.readText disk (Path.absolute disk.cwd path) = .ok d.text := by
  obtain ⟨p, t⟩ := d
  rw [Document.load]
  simp only
  rw [bind_eq_ok_iff]
  constructor
  · rintro ⟨text, htext, hd⟩
    obtain ⟨rfl, rfl⟩ := Document.mk.inj (Except.ok.inj hd)
    exact ⟨rfl, htext⟩
  · rintro ⟨rfl, htext⟩
    exact ⟨t, htext, rfl⟩

end DocRefs
