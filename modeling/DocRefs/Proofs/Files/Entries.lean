import DocRefs.Proofs.Listings
import DocRefs.Proofs.Path.Joining

/-!
# What a tree lists

An entry of a directory is a file or a directory of the tree that lies right there, by its name (`Tree.mem_entriesAt`).
Every change leaves everything in a directory that is there, unless that is a root which the change takes out
(`Tree.ClosedBut.apply`). So in a tree that has grown from nothing, by paths that were added and paths other than a root
that were taken out (`Tree.Grown`), everything lies in a directory that is there (`Tree.Grown.closed`), so that it is
listed.
-/

namespace DocRefs.Tree

variable {t t' : Tree}

/-! ## Entries -/

/-- The file or directory of the tree that an entry of a directory is. -/
structure EntryAt (t : Tree) (directory : String) (e : DirectoryEntry) (p : String) : Prop where
  dirname : Path.dirname p = directory
  basename : Path.basename p = e.name
  isThere : if e.isDirectory then p ∈ t.directories ∧ p ≠ directory else p ∈ t.files

/-- The entries of a directory are the files and directories that lie there, by their names. -/
theorem mem_entriesOf {directory : String} {e : DirectoryEntry} :
    e ∈ t.entriesOf directory ↔ ∃ p, t.EntryAt directory e p := by
  rw [entriesOf, List.mem_mergeSort, List.mem_append, List.mem_map, List.mem_map]
  simp only [List.mem_filter, ne_eq, Bool.and_eq_true, decide_eq_true_eq]
  constructor
  · rintro (⟨p, ⟨hp, hne, hdirname⟩, rfl⟩ | ⟨p, ⟨hp, hdirname⟩, rfl⟩)
    · exact ⟨p, hdirname, rfl, hp, hne⟩
    · exact ⟨p, hdirname, rfl, hp⟩
  · obtain ⟨name, isDirectory⟩ := e
    rintro ⟨p, hdirname, rfl, hp⟩
    cases isDirectory with
    | true => exact .inl ⟨p, ⟨hp.1, hp.2, hdirname⟩, rfl⟩
    | false => exact .inr ⟨p, ⟨hp, hdirname⟩, rfl⟩

/-- A directory has entries only if it is there and may be listed. -/
theorem mem_entriesAt {directory : String} {e : DirectoryEntry} :
    e ∈ t.entriesAt directory ↔
      Path.normalize directory ∉ t.unreadable ∧ Path.normalize directory ∈ t.directories ∧
        ∃ p, t.EntryAt (Path.normalize directory) e p := by
  rw [entriesAt, listing, ← mem_entriesOf]
  by_cases hreadable : Path.normalize directory ∈ t.unreadable
  · simp [hreadable]
  · by_cases hthere : Path.normalize directory ∈ t.directories
    · simp [hreadable, hthere]
    · simp [hreadable, hthere]

/-- An entry is the name of something that is there. -/
theorem EntryAt.mem {directory : String} {e : DirectoryEntry} {p : String} (h : t.EntryAt directory e p) :
    p ∈ t.files ∨ p ∈ t.directories := by
  have hthere := h.isThere
  split at hthere
  · exact .inr hthere.1
  · exact .inl hthere

/-- Something is at a path if it is a file or a directory. -/
theorem holds_iff {p : String} : t.holds p = true ↔ p ∈ t.files ∨ p ∈ t.directories := by
  simp [holds]

/-! ## Grown trees -/

/-- A tree of absolute and normal paths, each of which lies in a directory of the tree. -/
structure Closed (t : Tree) : Prop where
  clean : t.AllClean
  above : ∀ p, p ∈ t.files ∨ p ∈ t.directories → Path.dirname p ∈ t.directories

/-- A change that takes out no root. There are two, since exactly two leading slashes are a root of their own. -/
def Mutation.KeepsRoots : Mutation → Prop
  | addFile _ => True
  | addDirectory _ => True
  | remove path => Path.normalize path ≠ "/" ∧ Path.normalize path ≠ "//"

/-- The trees that come from the empty one by adding absolute paths and taking out paths other than the roots. What was
asked and what may be listed does not count. -/
inductive Grown : Tree → Prop
  | empty : Grown Tree.empty
  | mutate {t : Tree} (h : Grown t) {m : Mutation} (hm : m.AddsAbsolute) (hroots : m.KeepsRoots) : Grown (m.apply t)
  | withMarks {t t' : Tree} (h : Grown t) (hfiles : t'.files = t.files)
      (hdirectories : t'.directories = t.directories) : Grown t'

/-- A tree of absolute and normal paths, each of which lies in a directory of the tree or in one that is lost. -/
structure ClosedBut (lost : String → Prop) (t : Tree) : Prop where
  clean : t.AllClean
  above : ∀ p, p ∈ t.files ∨ p ∈ t.directories → Path.dirname p ∈ t.directories ∨ lost (Path.dirname p)

/-- A closed tree is one that has lost nothing. -/
theorem closed_iff : t.Closed ↔ t.ClosedBut fun _ => False := by
  constructor
  · intro h
    exact ⟨h.clean, fun p hp => .inl (h.above p hp)⟩
  · intro h
    exact ⟨h.clean, fun p hp => (h.above p hp).resolve_right id⟩

/-- A path is there when it and those above it are added up to the first one that is there. -/
theorem self_mem_addUntilKnown (directories : List String) (path : String) :
    path ∈ addUntilKnown directories (Path.ancestors path) := by
  obtain ⟨above, habove⟩ := Path.exists_ancestors_eq_cons path
  rw [habove, addUntilKnown]
  split
  · rename_i hknown
    exact List.contains_iff_mem.1 hknown
  · obtain ⟨more, hmore, -, -⟩ := addUntilKnown_eq (directories ++ [path]) above
    rw [hmore]
    simp

/-- And what was added with it lies in a directory that is there. -/
theorem dirname_mem_addUntilKnown {directories : List String} {path p : String}
    (hp : p ∈ addUntilKnown directories (Path.ancestors path)) :
    p ∈ directories ∨ Path.dirname p ∈ addUntilKnown directories (Path.ancestors path) := by
  fun_induction Path.ancestors path generalizing directories with
  | case1 path hroot =>
    simp only [addUntilKnown] at hp ⊢
    split at hp
    · exact .inl hp
    · rename_i hnew
      rw [if_neg hnew]
      rcases List.mem_append.1 hp with hp | hp
      · exact .inl hp
      · obtain rfl := List.mem_singleton.1 hp
        exact .inr (by simp [hroot])
  | case2 path hroot _ ih =>
    simp only [addUntilKnown] at hp ⊢
    split at hp
    · exact .inl hp
    · rename_i hnew
      rw [if_neg hnew]
      rcases ih hp with hknown | hdirname
      · rcases List.mem_append.1 hknown with hknown | hself
        · exact .inl hknown
        · obtain rfl := List.mem_singleton.1 hself
          exact .inr (self_mem_addUntilKnown _ _)
      · exact .inr hdirname

/-- No directory is lost when one is added. -/
theorem mem_addDirectory_of_mem {p : String} (hp : p ∈ t.directories) (path : String) :
    p ∈ (t.addDirectory path).directories := by
  obtain ⟨more, hmore, -, -⟩ := addUntilKnown_eq t.directories (Path.ancestors (Path.normalize path))
  rw [Tree.addDirectory, hmore]
  exact List.mem_append_left _ hp

/-- No directory is added but the path and those above it. -/
theorem of_mem_addDirectory {path p : String} (hp : p ∈ (t.addDirectory path).directories) :
    p ∈ t.directories ∨ p ∈ Path.ancestors (Path.normalize path) := by
  obtain ⟨more, hmore, -, habove⟩ := addUntilKnown_eq t.directories (Path.ancestors (Path.normalize path))
  rw [Tree.addDirectory, hmore] at hp
  exact (List.mem_append.1 hp).imp_right (habove p)

namespace ClosedBut

variable {lost lost' : String → Prop}

/-- A tree that is closed but for some roots is closed but for more of them. -/
theorem imp (h : t.ClosedBut lost) (himp : ∀ root, lost root → lost' root) : t.ClosedBut lost' :=
  ⟨h.clean, fun p hp => (h.above p hp).imp_right (himp _)⟩

/-- What was asked and what may be listed does not count. -/
theorem congr (h : t.ClosedBut lost) (hfiles : t'.files = t.files) (hdirectories : t'.directories = t.directories) :
    t'.ClosedBut lost := by
  refine ⟨?_, ?_⟩
  · intro p hp
    rw [hfiles, hdirectories] at hp
    exact h.clean p hp
  · intro p hp
    rw [hfiles, hdirectories] at hp
    rw [hdirectories]
    exact h.above p hp

/-- A directory is added with those above it, so that the tree stays closed. -/
theorem addDirectory (h : t.ClosedBut lost) {path : String} (hpath : Path.isAbsolute path = true) :
    (t.addDirectory path).ClosedBut lost := by
  refine ⟨h.clean.addDirectory hpath, ?_⟩
  have hkept : ∀ p, p ∈ t.files ∨ p ∈ t.directories →
      Path.dirname p ∈ (t.addDirectory path).directories ∨ lost (Path.dirname p) := by
    intro p hp
    exact (h.above p hp).imp_left fun hdirname => mem_addDirectory_of_mem hdirname path
  rintro p (hp | hp)
  · exact hkept p (.inl hp)
  · rcases dirname_mem_addUntilKnown hp with hp | hdirname
    · exact hkept p (.inr hp)
    · exact .inl hdirname

/-- A file is added with the directories above it, so that the tree stays closed. -/
theorem addFile (h : t.ClosedBut lost) {path : String} (hpath : Path.isAbsolute path = true) :
    (t.addFile path).ClosedBut lost := by
  have hclean := Path.clean_normalize hpath
  have hdirectory := h.addDirectory hclean.dirname.absolute
  refine ⟨h.clean.addFile hpath, ?_⟩
  rintro p (hp | hp)
  · rcases mem_withMember.1 hp with rfl | hp
    · have hself := self_mem_addUntilKnown t.directories (Path.normalize (Path.dirname (Path.normalize path)))
      exact .inl (hclean.dirname.normal ▸ hself)
    · exact hdirectory.above p (.inl hp)
  · exact hdirectory.above p (.inr hp)

end ClosedBut

/-- What lies below a path lies there with everything in it. -/
theorem isBelow_of_isBelow_dirname {p path : String} (h : isBelow path (Path.dirname p) = true) :
    isBelow path p = true := by
  rw [isBelow, List.isPrefixOf_iff_prefix] at h ⊢
  refine h.trans ?_
  rw [Path.dirname, String.toList_ofList]
  exact Path.parentChars_prefix _

/-- What lies in a directory that is taken out, or below it, is taken out with it, unless that directory is a root. -/
theorem isBelow_of_dirname {p path : String} (hp : Path.Clean p) (hroots : path ≠ "/" ∧ path ≠ "//")
    (h : Path.dirname p = path ∨ isBelow path (Path.dirname p) = true) : p = path ∨ isBelow path p = true := by
  rcases h with rfl | h
  · rcases hp.root_or_name with ⟨-, hself, -⟩ | ⟨slashes, names, name, hslashes, hnames, hname, hchars, hdirname, -⟩
    · exact .inl hself.symm
    · have hne : names ≠ [] := by
        rintro rfl
        have hroot : Path.dirname p = String.ofList (Path.ofComponents slashes []) := by
          rw [← hdirname, String.ofList_toList]
        rcases hslashes with rfl | rfl
        · exact hroots.1 hroot
        · exact hroots.2 hroot
      right
      rw [isBelow, List.isPrefixOf_iff_prefix, hdirname, hchars, Path.ofComponents_concat,
        if_neg hne, ← List.append_assoc]
      exact List.prefix_append _ _
  · exact .inr (isBelow_of_isBelow_dirname h)

/-- Where a root that is taken out counts as lost, what is left lies in what is left. -/
theorem ClosedBut.remove {lost : String → Prop} (h : t.ClosedBut lost) {path : String}
    (hlost : Path.normalize path = "/" ∨ Path.normalize path = "//" → lost (Path.normalize path)) :
    (t.remove path).ClosedBut lost := by
  refine ⟨h.clean.apply (m := .remove path) trivial, ?_⟩
  intro p hp
  simp only [Tree.remove, List.mem_filter, ne_eq, Bool.and_eq_true, decide_eq_true_eq, Bool.not_eq_true'] at hp ⊢
  have hin : p ∈ t.files ∨ p ∈ t.directories := hp.imp And.left And.left
  have hkept : p ≠ Path.normalize path ∧ isBelow (Path.normalize path) p = false := by
    rcases hp with hp | hp
    · exact hp.2
    · exact hp.2
  rcases h.above p hin with hdirname | hdirname
  · -- Only a root can go from above something that stays: below any other directory that goes everything goes with it.
    by_cases hsame : Path.dirname p = Path.normalize path
    · by_cases hroot : Path.normalize path = "/" ∨ Path.normalize path = "//"
      · exact .inr (hsame ▸ hlost hroot)
      · rcases isBelow_of_dirname (h.clean p hin) (not_or.1 hroot) (.inl hsame) with heq | hbelow
        · exact absurd heq hkept.1
        · exact absurd hbelow (Bool.eq_false_iff.1 hkept.2)
    · refine .inl ⟨hdirname, hsame, Bool.eq_false_iff.2 fun hbelow => ?_⟩
      exact Bool.eq_false_iff.1 hkept.2 (isBelow_of_isBelow_dirname hbelow)
  · exact .inr hdirname

/-- A change leaves everything in a directory that is there, or that is lost. -/
theorem ClosedBut.apply {lost : String → Prop} (h : t.ClosedBut lost) {m : Mutation} (hm : m.AddsAbsolute)
    (hlost : ∀ path, m = .remove path → Path.normalize path = "/" ∨ Path.normalize path = "//" →
      lost (Path.normalize path)) :
    (m.apply t).ClosedBut lost := by
  cases m with
  | addFile path => exact h.addFile hm
  | addDirectory path => exact h.addDirectory hm
  | remove path => exact h.remove (hlost path rfl)

/-- A change that takes out no root leaves everything in a directory that is there. -/
theorem Closed.apply (h : t.Closed) {m : Mutation} (hm : m.AddsAbsolute) (hroots : m.KeepsRoots) :
    (m.apply t).Closed := by
  refine closed_iff.2 ((closed_iff.1 h).apply hm ?_)
  rintro path rfl (hroot | hroot)
  · exact hroots.1 hroot
  · exact hroots.2 hroot

/-- Where everything lies in a directory that is there, everything above such a directory is there. -/
theorem mem_of_mem_ancestors {directories : List String} (h : ∀ d ∈ directories, Path.dirname d ∈ directories)
    {p q : String} (hp : p ∈ directories) (hq : q ∈ Path.ancestors p) : q ∈ directories := by
  fun_induction Path.ancestors p with
  | case1 p hroot => rwa [List.mem_singleton.1 hq]
  | case2 p hroot _ ih =>
    rcases List.mem_cons.1 hq with rfl | hq
    · exact hp
    · exact ih (h p hp) hq

/-- The directories of a closed tree to which one is added: those that it has, that one and all above it. -/
theorem Closed.mem_addDirectory (h : t.Closed) {path : String} (hpath : Path.isAbsolute path = true) {q : String} :
    q ∈ (t.addDirectory path).directories ↔ q ∈ t.directories ∨ q ∈ Path.ancestors (Path.normalize path) := by
  constructor
  · exact of_mem_addDirectory
  · rintro (hq | hq)
    · exact mem_addDirectory_of_mem hq path
    · -- What is above the first directory that was there was not added, but was there already.
      have hclosed := h.apply (m := .addDirectory path) hpath trivial
      exact mem_of_mem_ancestors (fun d hd => hclosed.above d (.inr hd)) (self_mem_addUntilKnown _ _) hq

/-- In a grown tree everything lies in a directory that is there. -/
theorem Grown.closed (h : t.Grown) : t.Closed := by
  induction h with
  | empty =>
    refine ⟨allClean_empty, ?_⟩
    intro p hp
    simp only [Tree.empty, List.not_mem_nil, List.mem_singleton, false_or] at hp ⊢
    rw [hp]
    cbv
  | mutate _ hm hroots ih => exact ih.apply hm hroots
  | withMarks _ hfiles hdirectories ih => exact closed_iff.2 ((closed_iff.1 ih).congr hfiles hdirectories)

end DocRefs.Tree
