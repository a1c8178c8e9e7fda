import DocRefs.Proofs.Files.Disk
import DocRefs.Proofs.Path.FilePath

/-!
# Paths that lead where their absolute forms lead

A path whose components are names leads where its absolute form leads (`Disk.direct_of_plain`). Two dots lead there too
as long as the components before them are there, so a path below a directory that is there is as good
(`Disk.find_below`).
-/

namespace DocRefs.Disk

/-! ## The components of a path -/

/-- A path with a component is followed by the components of the working directory and its own. -/
theorem follow_toString {d : Disk} (hcwd : Path.Clean d.cwd) {p : FilePath} (h : p.WellFormed) (hne : p.parts ≠ []) :
    d.follow [] (d.componentsOf p.toString) = d.follow [] ((FilePath.ofString d.cwd).append p).parts := by
  have hcomponents := (h.append (FilePath.wellFormed_ofString d.cwd)).mem_map
  rw [componentsOf, h.joinChars_toString hne hcwd,
    d.follow_ofComponents _ fun c hc => (hcomponents c hc).2, List.map_map]
  simp [Function.comp_def]

/-- What a path leads to is reached by the components of the working directory and its own. -/
theorem follow_of_follow_toString {d : Disk} (hcwd : Path.Clean d.cwd) {p : FilePath} (h : p.WellFormed) {place : Place}
    (hfollow : d.follow [] (d.componentsOf p.toString) = .ok place) :
    d.follow [] ((FilePath.ofString d.cwd).append p).parts = .ok place := by
  by_cases hne : p.parts = []
  · obtain ⟨slashes, parts⟩ := p
    obtain rfl : parts = [] := hne
    cases slashes with
    | zero =>
      -- A path without components is shown as a dot, which leads on from where it is taken.
      have hdot : (⟨0, ["."]⟩ : FilePath).WellFormed := ⟨by decide, by decide⟩
      have hsame : FilePath.toString ⟨0, []⟩ = FilePath.toString ⟨0, ["."]⟩ := by decide
      rw [hsame, follow_toString hcwd hdot (by simp)] at hfollow
      obtain ⟨mid, hmid, hstep⟩ := follow_append_eq_ok_iff.1 hfollow
      have hstay : mid = place := by
        rw [follow] at hstep
        split at hstep
        · rename_i next hnext
          unfold step at hnext
          split at hnext
          · rw [if_pos (by decide)] at hnext
            rw [Except.ok.inj hnext]
            exact Except.ok.inj hstep
          · simp at hnext
          · simp at hnext
        · simp at hstep
      rw [← hstay]
      exact follow_append_eq_ok_iff.2 ⟨mid, hmid, rfl⟩
    | succ k =>
      have htext : (FilePath.toString ⟨k + 1, []⟩).toList = Path.ofComponents (k + 1) [] := by
        unfold FilePath.toString
        split
        · rename_i he
          have hchars := congrArg String.toList he
          simp [Path.ofComponents, List.replicate_succ] at hchars
        · rw [String.toList_ofList]
          rfl
      have hjoined : Path.joinChars d.cwd.toList (Path.ofComponents (k + 1) []) = Path.ofComponents (k + 1) [] := by
        rw [Path.joinChars, if_pos (by simp [Path.ofComponents, List.replicate_succ])]
      rw [componentsOf, htext, hjoined, d.follow_ofComponents (k + 1) (by simp)] at hfollow
      exact hfollow
  · rw [← follow_toString hcwd h hne]
    exact hfollow

/-- The place that a path names by its text is what is left of the components of the working directory and its own. -/
theorem placeOf_toString {d : Disk} (hcwd : Path.Clean d.cwd) {p : FilePath} (h : p.WellFormed) (hne : p.parts ≠ []) :
    d.placeOf p.toString =
      ((((FilePath.ofString d.cwd).append p).parts.map String.toList).foldl
        (Path.pushComponent true) []).reverse.map String.ofList := by
  have hwhole := h.append (FilePath.wellFormed_ofString d.cwd)
  have hrooted : (((FilePath.ofString d.cwd).append p).slashes != 0) = true := by
    simpa using FilePath.slashes_append_ne_zero hcwd p
  rw [placeOf, h.joinChars_toString hne hcwd,
    Path.normalComponents_ofComponents_eq_foldl hwhole.slashes hwhole.mem_map, hrooted]

/-! ## Paths that lead where their absolute forms lead -/

/-- A path that is short enough is found by following its components. -/
theorem find_of_follow {d : Disk} {p : FilePath} {place : Place}
    (h : d.follow [] (d.componentsOf p.toString) = .ok place) :
    d.find p.toString = .ok place ∨ maxPathSize < p.toString.utf8ByteSize ∧
    d.find p.toString = .error .nameTooLong := by
  by_cases hsize : p.toString.utf8ByteSize ≤ maxPathSize
  · exact .inl (find_eq_ok_iff.2 ⟨p.toString_ne_empty, hsize, h⟩)
  · refine .inr ⟨Nat.lt_of_not_le hsize, ?_⟩
    rw [find, if_neg p.toString_ne_empty, if_pos (Nat.lt_of_not_le hsize)]

section Below

variable {d : Disk} {directory : FilePath} {names : List String}

/-- A path with names behind it is well-formed, and has components. -/
theorem wellFormed_below (h : directory.WellFormed) (hnames : ∀ c ∈ names, Path.IsName c.toList) (hne : names ≠ []) :
    (directory.append ⟨0, names⟩).WellFormed ∧ (directory.append ⟨0, names⟩).parts ≠ [] :=
  ⟨FilePath.WellFormed.append ⟨Nat.zero_le 2, fun c hc => ⟨(hnames c hc).ne_nil, (hnames c hc).noSlash⟩⟩ h, by
    simp [FilePath.append, FilePath.isAbsolute, hne]⟩

/-- Names below a directory are the last ones of the place that they name. -/
theorem placeOf_below (hcwd : Path.Clean d.cwd) (h : directory.WellFormed) (hnames : ∀ c ∈ names, Path.IsName c.toList)
    (hne : names ≠ []) :
    d.placeOf (directory.append ⟨0, names⟩).toString =
      ((((FilePath.ofString d.cwd).append directory).parts.map String.toList).foldl (Path.pushComponent true)
        []).reverse.map String.ofList ++ names := by
  obtain ⟨hbelow, hfilled⟩ := wellFormed_below h hnames hne
  rw [placeOf_toString hcwd hbelow hfilled, FilePath.parts_append_append, List.map_append, List.foldl_append,
    Path.foldl_names fun c hc => ?_]
  · simp [Function.comp_def]
  · obtain ⟨name, hname, rfl⟩ := List.mem_map.1 hc
    exact hnames name hname

/-- Names below a directory that is there name a place below the one that it leads to. -/
theorem placeOf_below_of_find (hcwd : Path.Clean d.cwd) (h : directory.WellFormed)
    (hnames : ∀ c ∈ names, Path.IsName c.toList)
    (hne : names ≠ []) {here : Place} (hhere : d.find directory.toString = .ok here) :
    d.placeOf (directory.append ⟨0, names⟩).toString = here ++ names := by
  obtain ⟨-, -, hfollow⟩ := find_eq_ok_iff.1 hhere
  have hdown := follow_of_follow_toString hcwd h hfollow
  have hwhole := h.append (FilePath.wellFormed_ofString d.cwd)
  obtain ⟨-, htaken⟩ := Reached.root.follows (fun c hc => (hwhole.parts c hc).2) hdown
  rw [List.map_nil, List.reverse_nil] at htaken
  rw [placeOf_below hcwd h hnames hne, ← htaken]
  simp [Function.comp_def]

/-- A path below a directory that is there leads where its absolute form leads, unless it is too long. -/
theorem find_below (hcwd : Path.Clean d.cwd) (h : directory.WellFormed) (hnames : ∀ c ∈ names, Path.IsName c.toList)
    (hne : names ≠ []) {here place : Place} (hhere : d.find directory.toString = .ok here)
    (hplace : d.find (Path.absolute d.cwd (directory.append ⟨0, names⟩).toString) = .ok place) :
    d.find (directory.append ⟨0, names⟩).toString = .ok place ∨
      maxPathSize < (directory.append ⟨0, names⟩).toString.utf8ByteSize ∧
        d.find (directory.append ⟨0, names⟩).toString = .error .nameTooLong := by
  obtain ⟨-, -, hfollow⟩ := find_eq_ok_iff.1 hhere
  have hdown := follow_of_follow_toString hcwd h hfollow
  have hreached := (reached_of_follow hcwd.absolute hfollow).1
  have hnamed := placeOf_below_of_find hcwd h hnames hne hhere
  obtain ⟨-, -, hto⟩ := find_eq_ok_iff.1 hplace
  rw [follow_absolute hcwd.absolute, hnamed] at hto
  obtain ⟨mid, hmid, hrest⟩ := follow_append_eq_ok_iff.1 hto
  obtain rfl := Except.ok.inj (hreached.follow.symm.trans hmid)
  obtain ⟨hbelow, hfilled⟩ := wellFormed_below h hnames hne
  refine find_of_follow ?_
  rw [follow_toString hcwd hbelow hfilled, FilePath.parts_append_append]
  exact follow_append_eq_ok_iff.2 ⟨here, hdown, hrest⟩

end Below

/-- A path whose absolute form is the path put behind the working directory leads where its absolute form leads. -/
theorem find_of_join {d : Disk} (hcwd : Path.isAbsolute d.cwd = true) {path : String} (hne : path ≠ "")
    (h : Path.absolute d.cwd path = Path.join d.cwd path) {place : Place}
    (hplace : d.find (Path.absolute d.cwd path) = .ok place) : d.find path = .ok place := by
  obtain ⟨before, hbefore⟩ : ∃ before, Path.joinChars d.cwd.toList path.toList = before ++ path.toList := by
    unfold Path.joinChars
    split
    · exact ⟨[], rfl⟩
    · split
      · exact ⟨_, rfl⟩
      · exact ⟨d.cwd.toList ++ ['/'], by simp⟩
  have hhead := Path.head?_joinChars (Path.head?_of_isAbsolute hcwd) path.toList
  have hsize : path.utf8ByteSize ≤ (Path.join d.cwd path).utf8ByteSize := by
    rw [Path.join, hbefore, String.ofList_append, String.utf8ByteSize_append, String.ofList_toList]
    omega
  have hcomponents : d.componentsOf (Path.join d.cwd path) = d.componentsOf path := by
    have hagain : Path.joinChars d.cwd.toList (Path.joinChars d.cwd.toList path.toList) =
        Path.joinChars d.cwd.toList path.toList := by
      rw [Path.joinChars, if_pos hhead]
    rw [componentsOf, componentsOf, Path.join, String.toList_ofList, hagain]
  rw [h] at hplace
  obtain ⟨-, hshort, hfollow⟩ := find_eq_ok_iff.1 hplace
  exact find_eq_ok_iff.2 ⟨hne, by omega, hcomponents ▸ hfollow⟩

/-- A path that, seen from a working directory, leads where its absolute form leads as long as a directory is there, and
is never too long if its absolute form leads somewhere on some disk. -/
structure Direct (cwd directory path : String) : Prop where
  found : ∀ d : Disk, d.cwd = cwd → (∃ here, d.find directory = .ok here) →
    ∀ place, d.find (Path.absolute cwd path) = .ok place → d.find path = .ok place
  short : ∀ d : Disk, d.cwd = cwd → ∀ place, d.find (Path.absolute cwd path) = .ok place →
    ∀ d' : Disk, d'.cwd = cwd → d'.find path ≠ .error .nameTooLong

/-- Plain paths are direct, whatever directory they are reported for. -/
theorem direct_of_plain {p : FilePath} (h : p.Plain) (hne : p.parts ≠ []) {cwd : String}
    (hcwd : Path.Clean cwd) (directory : String) : Direct cwd directory p.toString := by
  have hfind : ∀ d : Disk, d.cwd = cwd → ∀ place, d.find (Path.absolute cwd p.toString) = .ok place →
      d.find p.toString = .ok place := by
    rintro d rfl place hplace
    exact find_of_join hcwd.absolute p.toString_ne_empty (h.absolute_eq_join hne hcwd) hplace
  exact ⟨fun d hd _ => hfind d hd, fun d hd place hplace d' hd' =>
    find_ne_tooLong (hd'.trans hd.symm) (hfind d hd place hplace)⟩

end DocRefs.Disk
