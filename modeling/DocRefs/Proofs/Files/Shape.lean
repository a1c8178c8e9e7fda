import DocRefs.Proofs.Files.Removal
import DocRefs.Proofs.Path.FilePath
import Mathlib.Data.List.Permutation

/-!
# The shape of a tree

Changes by absolute paths, in whatever order, leave a tree (`Tree.Built.stays_tree`): everything lies in a directory
that is there, a directory lists what lies right in it, and what is removed takes with it what lies below and nothing
else.

Two things that a tree could be expected to be it is not (`Tree.file_above_file`). Files and directories are two sets of
paths which are kept apart from one another: what a change makes of a path is told by `Mutation.MakesFile` and
`Mutation.MakesDirectory`, and a path that was made both and not taken out since is both (`Tree.Built.lasts_of_mem`,
`Tree.Built.mem_of_lasts`). And a root that is removed leaves what lay in it without a directory (`Tree.LostRoot`).
-/

namespace DocRefs.Tree

variable {t : Tree} {p : String} {past : List Mutation}

/-! ## What a change does -/

namespace Mutation

/-- The path that a change makes a file. -/
def MakesFile : Mutation → String → Prop
  | addFile path, p => p = Path.normalize path
  | addDirectory _, _ => False
  | remove _, _ => False

/-- The paths that a change makes directories: the one that it adds as a directory, or the one that an added file lies
in, and all above it. -/
def MakesDirectory : Mutation → String → Prop
  | addFile path, p => p ∈ Path.ancestors (Path.dirname (Path.normalize path))
  | addDirectory path, p => p ∈ Path.ancestors (Path.normalize path)
  | remove _, _ => False

/-- The paths that a change takes out: the one that it removes, if that is no root, and all below it. -/
def Takes : Mutation → String → Prop
  | addFile _, _ => False
  | addDirectory _, _ => False
  | remove path, p => (remove path).KeepsRoots ∧ Path.normalize path ∈ Path.ancestors p

/-- A change that removes no root does not take out the root of one slash. -/
theorem not_takes_root (m : Mutation) : ¬ m.Takes "/" := by
  have habove : Path.ancestors "/" = ["/"] := by cbv
  cases m with
  | addFile path => exact id
  | addDirectory path => exact id
  | remove path =>
    rintro ⟨hroots, hpath⟩
    rw [habove, List.mem_singleton] at hpath
    exact hroots.1 hpath

end Mutation

/-- A path is a file or a directory after a change only if the change made it one, or if it was one and was not taken
out. -/
theorem AllClean.of_mem_apply (h : t.AllClean) {m : Mutation} (hm : m.AddsAbsolute) :
    (p ∈ (m.apply t).files → m.MakesFile p ∨ p ∈ t.files ∧ ¬ m.Takes p) ∧
      (p ∈ (m.apply t).directories → m.MakesDirectory p ∨ p ∈ t.directories ∧ ¬ m.Takes p) := by
  cases m with
  | addFile path =>
    constructor
    · intro hp
      rcases mem_withMember.1 hp with hmade | hfile
      · exact .inl hmade
      · exact .inr ⟨hfile, id⟩
    · intro hp
      rcases of_mem_addDirectory hp with hdirectory | habove
      · exact .inr ⟨hdirectory, id⟩
      · rw [(Path.clean_normalize hm).dirname.normal] at habove
        exact .inl habove
  | addDirectory path =>
    constructor
    · intro hp
      exact .inr ⟨hp, id⟩
    · intro hp
      rcases of_mem_addDirectory hp with hdirectory | habove
      · exact .inr ⟨hdirectory, id⟩
      · exact .inl habove
  | remove path =>
    have hstays : ∀ q, q ∈ t.files ∨ q ∈ t.directories → ¬ GoesWith path q → ¬ (Mutation.remove path).Takes q := by
      rintro q hq hgoes ⟨hroots, hpath⟩
      exact hgoes ((goesWith_iff_mem_ancestors hroots (h q hq)).2 hpath)
    constructor
    · intro hp
      obtain ⟨hfile, hgoes⟩ := mem_remove.1.1 hp
      exact .inr ⟨hfile, hstays p (.inl hfile) hgoes⟩
    · intro hp
      obtain ⟨hdirectory, hgoes⟩ := mem_remove.2.1 hp
      exact .inr ⟨hdirectory, hstays p (.inr hdirectory) hgoes⟩

/-- And then it is one, in a closed tree of which the change takes out no root. -/
theorem Closed.mem_apply (h : t.Closed) {m : Mutation} (hm : m.AddsAbsolute) (hroots : m.KeepsRoots) :
    (m.MakesFile p ∨ p ∈ t.files ∧ ¬ m.Takes p → p ∈ (m.apply t).files) ∧
      (m.MakesDirectory p ∨ p ∈ t.directories ∧ ¬ m.Takes p → p ∈ (m.apply t).directories) := by
  cases m with
  | addFile path =>
    have hparent := (Path.clean_normalize hm).dirname
    constructor
    · rintro (hmade | ⟨hfile, -⟩)
      · exact mem_withMember.2 (.inl hmade)
      · exact mem_withMember.2 (.inr hfile)
    · rintro (hmade | ⟨hdirectory, -⟩)
      · refine (h.mem_addDirectory hparent.absolute).2 (.inr ?_)
        rw [hparent.normal]
        exact hmade
      · exact mem_addDirectory_of_mem hdirectory _
  | addDirectory path =>
    constructor
    · rintro (hmade | ⟨hfile, -⟩)
      · exact hmade.elim
      · exact hfile
    · rintro (hmade | ⟨hdirectory, -⟩)
      · exact (h.mem_addDirectory hm).2 (.inr hmade)
      · exact mem_addDirectory_of_mem hdirectory _
  | remove path =>
    obtain ⟨hfiles, hdirectories⟩ := h.clean.mem_remove_iff hroots p
    constructor
    · rintro (hmade | ⟨hfile, hstays⟩)
      · exact hmade.elim
      · exact hfiles.2 ⟨hfile, fun hpath => hstays ⟨hroots, hpath⟩⟩
    · rintro (hmade | ⟨hdirectory, hstays⟩)
      · exact hmade.elim
      · exact hdirectories.2 ⟨hdirectory, fun hpath => hstays ⟨hroots, hpath⟩⟩

/-! ## What the past tells -/

/-- A path was made something by a change, and no later change took it out. Of the changes the latest stands first. -/
def Lasts (makes : Mutation → String → Prop) (past : List Mutation) (p : String) : Prop :=
  ∃ later m before, past = later ++ m :: before ∧ makes m p ∧ ∀ r ∈ later, ¬ r.Takes p

/-- Nothing lasts that was never made. -/
theorem not_lasts_nil (makes : Mutation → String → Prop) (p : String) : ¬ Lasts makes [] p := by
  rintro ⟨later, m, before, hpast, -⟩
  simp at hpast

/-- What lasts was made by the latest change, or lasted before and is not taken out by it. -/
theorem lasts_cons {makes : Mutation → String → Prop} {m : Mutation} :
    Lasts makes (m :: past) p ↔ makes m p ∨ Lasts makes past p ∧ ¬ m.Takes p := by
  constructor
  · rintro ⟨later, m', before, hpast, hmakes, hstays⟩
    cases later with
    | nil =>
      obtain ⟨rfl, rfl⟩ := List.cons.inj hpast
      exact .inl hmakes
    | cons r later =>
      obtain ⟨rfl, rfl⟩ := List.cons.inj hpast
      refine .inr ⟨⟨later, m', before, rfl, hmakes, ?_⟩, hstays m List.mem_cons_self⟩
      intro r hr
      exact hstays r (List.mem_cons_of_mem _ hr)
  · rintro (hmakes | ⟨⟨later, m', before, rfl, hmakes, hstays⟩, hkeeps⟩)
    · exact ⟨[], m, past, rfl, hmakes, by simp⟩
    · refine ⟨m :: later, m', before, rfl, hmakes, ?_⟩
      intro r hr
      rcases List.mem_cons.1 hr with rfl | hr
      · exact hkeeps
      · exact hstays r hr

/-- A root that a change has removed. -/
def LostRoot (past : List Mutation) (root : String) : Prop :=
  (root = "/" ∨ root = "//") ∧ ∃ path, Mutation.remove path ∈ past ∧ Path.normalize path = root

/-- A root that was removed stays one that was removed. -/
theorem LostRoot.cons {root : String} (h : LostRoot past root) (m : Mutation) : LostRoot (m :: past) root := by
  obtain ⟨hroot, path, hpath, hnormal⟩ := h
  exact ⟨hroot, path, List.mem_cons_of_mem _ hpath, hnormal⟩

/-- The trees that changes by absolute paths lead to from the empty one, the latest change first. What was asked and
what may be listed does not count. -/
inductive Built : List Mutation → Tree → Prop
  | empty : Built [] Tree.empty
  | mutate {past : List Mutation} {t : Tree} (h : Built past t) {m : Mutation} (hm : m.AddsAbsolute) :
      Built (m :: past) (m.apply t)
  | withMarks {past : List Mutation} {t t' : Tree} (h : Built past t) (hfiles : t'.files = t.files)
    (hdirectories : t'.directories = t.directories) : Built past t'

namespace Built

/-- Changes made one after the other. -/
theorem foldl (h : Built past t) (changes : List Mutation) (hchanges : ∀ m ∈ changes, m.AddsAbsolute) :
    Built (changes.reverse ++ past) (changes.foldl (fun t m => m.apply t) t) := by
  induction changes generalizing past t with
  | nil => exact h
  | cons m changes ih =>
    rw [List.reverse_cons, List.append_assoc, List.singleton_append, List.foldl_cons]
    refine ih (h.mutate (hchanges m List.mem_cons_self)) ?_
    intro r hr
    exact hchanges r (List.mem_cons_of_mem _ hr)

/-- A tree that is made of directories and files is built by adding them. -/
theorem build {directories files : List String} (unreadable : List String)
    (hdirectories : ∀ p ∈ directories, Path.isAbsolute p = true) (hfiles : ∀ p ∈ files, Path.isAbsolute p = true) :
    Built (directories.map Mutation.addDirectory ++ files.map Mutation.addFile).reverse
      (Tree.build directories files unreadable) := by
  have hadded : Built (directories.map Mutation.addDirectory ++ files.map Mutation.addFile).reverse
      (files.foldl Tree.addFile (directories.foldl Tree.addDirectory Tree.empty)) := by
    have hchanges : ∀ m ∈ directories.map Mutation.addDirectory ++ files.map Mutation.addFile, m.AddsAbsolute := by
      intro m hm
      rcases List.mem_append.1 hm with hm | hm
      · obtain ⟨p, hp, rfl⟩ := List.mem_map.1 hm
        exact hdirectories p hp
      · obtain ⟨p, hp, rfl⟩ := List.mem_map.1 hm
        exact hfiles p hp
    have hfold := Built.empty.foldl _ hchanges
    rw [List.append_nil, List.foldl_append, List.foldl_map, List.foldl_map] at hfold
    exact hfold
  exact List.foldlRecOn unreadable _ hadded fun t ht p _ => ht.withMarks rfl rfl

/-- No path is kept twice. -/
theorem nodup (h : Built past t) : t.files.Nodup ∧ t.directories.Nodup := by
  induction h with
  | empty => exact ⟨List.nodup_nil, List.nodup_singleton "/"⟩
  | @mutate past t _ m _ ih =>
    obtain ⟨hfiles, hdirectories⟩ := ih
    cases m with
    | addFile path => exact ⟨nodup_withMember hfiles _, nodup_addUntilKnown hdirectories _⟩
    | addDirectory path => exact ⟨hfiles, nodup_addUntilKnown hdirectories _⟩
    | remove path => exact ⟨hfiles.filter _, hdirectories.filter _⟩
  | withMarks _ hfiles hdirectories ih => rwa [hfiles, hdirectories]

/-- Everything lies in a directory that is there, or in a root that was removed. -/
theorem closedBut (h : Built past t) : t.ClosedBut (LostRoot past) := by
  induction h with
  | empty =>
    refine (closed_iff.1 Grown.empty.closed).imp ?_
    intro root hroot
    exact hroot.elim
  | @mutate past t _ m hm ih =>
    refine (ih.imp fun root hroot => hroot.cons m).apply hm ?_
    intro path hremove hroot
    exact ⟨hroot, path, hremove ▸ List.mem_cons_self, rfl⟩
  | withMarks _ hfiles hdirectories ih => exact ih.congr hfiles hdirectories

/-- The root of one slash stays a directory until it is removed. -/
theorem root_mem (h : Built past t) (hroot : ¬ LostRoot past "/") : "/" ∈ t.directories := by
  induction h with
  | empty => exact List.mem_singleton_self "/"
  | @mutate past t _ m _ ih =>
    have hthere := ih fun hlost => hroot (hlost.cons m)
    cases m with
    | addFile path => exact mem_addDirectory_of_mem hthere _
    | addDirectory path => exact mem_addDirectory_of_mem hthere _
    | remove path =>
      have hother : Path.normalize path ≠ "/" := by
        intro hpath
        exact hroot ⟨.inl rfl, path, List.mem_cons_self, hpath⟩
      refine mem_remove.2.2 ⟨hthere, ?_⟩
      rintro (hpath | hbelow)
      · exact hother hpath.symm
      · exact Bool.eq_false_iff.1 (not_isBelow_root hother (.inl rfl)) hbelow
  | withMarks _ _ hdirectories ih => exact hdirectories ▸ ih hroot

/-- A tree that has kept its roots is a grown one. -/
theorem grown (h : Built past t) (hroots : ∀ m ∈ past, m.KeepsRoots) : t.Grown := by
  induction h with
  | empty => exact .empty
  | mutate _ hm ih =>
    refine .mutate (ih ?_) hm (hroots _ List.mem_cons_self)
    intro m hm
    exact hroots m (List.mem_cons_of_mem _ hm)
  | withMarks _ hfiles hdirectories ih => exact .withMarks (ih hroots) hfiles hdirectories

/-- A path is a file or a directory only if it was made one and was not taken out since. -/
theorem lasts_of_mem (h : Built past t) :
    (p ∈ t.files → Lasts Mutation.MakesFile past p) ∧
      (p ∈ t.directories → p = "/" ∨ Lasts Mutation.MakesDirectory past p) := by
  induction h with
  | empty =>
    constructor
    · intro hp
      exact absurd hp List.not_mem_nil
    · intro hp
      exact .inl (List.mem_singleton.1 hp)
  | @mutate past t h m hm ih =>
    obtain ⟨hfile, hdirectory⟩ := h.closedBut.clean.of_mem_apply (p := p) hm
    rw [lasts_cons, lasts_cons]
    constructor
    · intro hp
      exact (hfile hp).imp_right fun hold => ⟨ih.1 hold.1, hold.2⟩
    · intro hp
      rcases hdirectory hp with hmade | ⟨hold, hstays⟩
      · exact .inr (.inl hmade)
      · exact (ih.2 hold).imp_right fun hlasts => .inr ⟨hlasts, hstays⟩
  | withMarks _ hfiles hdirectories ih =>
    rw [hfiles, hdirectories]
    exact ih

/-- And then it is one, while no root is removed. -/
theorem mem_of_lasts (h : Built past t) (hroots : ∀ m ∈ past, m.KeepsRoots) :
    (Lasts Mutation.MakesFile past p → p ∈ t.files) ∧
      (p = "/" ∨ Lasts Mutation.MakesDirectory past p → p ∈ t.directories) := by
  induction h with
  | empty => simp [Tree.empty, not_lasts_nil]
  | @mutate past t h m hm ih =>
    have hbefore : ∀ m ∈ past, m.KeepsRoots := by
      intro m hm
      exact hroots m (List.mem_cons_of_mem _ hm)
    obtain ⟨hfile, hdirectory⟩ := (h.grown hbefore).closed.mem_apply (p := p) hm (hroots m List.mem_cons_self)
    obtain ⟨ihfile, ihdirectory⟩ := ih hbefore
    rw [lasts_cons, lasts_cons]
    constructor
    · intro hp
      exact hfile (hp.imp_right fun hold => ⟨ihfile hold.1, hold.2⟩)
    · rintro (rfl | hmade | ⟨hlasts, hstays⟩)
      · exact hdirectory (.inr ⟨ihdirectory (.inl rfl), m.not_takes_root⟩)
      · exact hdirectory (.inl hmade)
      · exact hdirectory (.inr ⟨ihdirectory (.inr hlasts), hstays⟩)
  | withMarks _ hfiles hdirectories ih =>
    rw [hfiles, hdirectories]
    exact ih hroots

end Built

/-! ## What a directory lists -/

/-- Entries that hold what lies right in a directory, once as a file if it is one and once as a directory if it is one,
in the order of the names, and nothing else that has a name. -/
structure Lists (t : Tree) (directory : String) (entries : List DirectoryEntry) : Prop where
  sorted : entries.Pairwise fun a b => a.name ≤ b.name
  nodup : entries.Nodup
  asFile : ∀ p, Path.IsChild directory p → (⟨Path.basename p, false⟩ ∈ entries ↔ p ∈ t.files)
  asDirectory : ∀ p, Path.IsChild directory p → (⟨Path.basename p, true⟩ ∈ entries ↔ p ∈ t.directories)
  origin : ∀ e ∈ entries, e.name ≠ "" → ∃! p, Path.IsChild directory p ∧ Path.basename p = e.name

/-- Paths that lie in one directory have a name each. -/
theorem nodup_map_basename {paths : List String} (hnodup : paths.Nodup) (directory : String)
    (hpaths : ∀ p ∈ paths, Path.Clean p ∧ Path.dirname p = directory) (isDirectory : Bool) :
    (paths.map fun p => (⟨Path.basename p, isDirectory⟩ : DirectoryEntry)).Nodup := by
  refine hnodup.map_on ?_
  intro p hp q hq hsame
  obtain ⟨hclean, hdirname⟩ := hpaths p hp
  obtain ⟨hclean', hdirname'⟩ := hpaths q hq
  obtain ⟨hname, -⟩ := DirectoryEntry.mk.inj hsame
  exact hclean.eq_of_basename_eq hclean' (hdirname.trans hdirname'.symm) hname

/-- No entry is listed twice. -/
theorem nodup_entriesOf (hclean : t.AllClean) (hfiles : t.files.Nodup)
    (hdirectories : t.directories.Nodup) (directory : String) : (t.entriesOf directory).Nodup := by
  rw [entriesOf, (List.mergeSort_perm _ _).nodup_iff, List.nodup_append]
  refine ⟨nodup_map_basename (hdirectories.filter _) directory ?_ true,
    nodup_map_basename (hfiles.filter _) directory ?_ false, ?_⟩
  · intro p hp
    simp only [List.mem_filter, Bool.and_eq_true, decide_eq_true_eq] at hp
    exact ⟨hclean p (.inr hp.1), hp.2.2⟩
  · intro p hp
    simp only [List.mem_filter, decide_eq_true_eq] at hp
    exact ⟨hclean p (.inl hp.1), hp.2⟩
  · intro e he e' he' hsame
    obtain ⟨p, -, rfl⟩ := List.mem_map.1 he
    obtain ⟨q, -, rfl⟩ := List.mem_map.1 he'
    simp at hsame

/-- What lies right in a directory is listed by its name as what it is. -/
theorem mem_entriesOf_iff_of_isChild (hclean : t.AllClean) {directory : String} (hdirectory : Path.Clean directory)
    (hchild : Path.IsChild directory p) (isDirectory : Bool) :
    ⟨Path.basename p, isDirectory⟩ ∈ t.entriesOf directory ↔ if isDirectory then
      p ∈ t.directories else p ∈ t.files := by
  rw [mem_entriesOf]
  constructor
  · rintro ⟨q, hq⟩
    obtain rfl : q = p :=
      (hclean q hq.mem).eq_of_basename_eq (hchild.clean hdirectory)
        (hq.dirname.trans (hchild.dirname_eq hdirectory).symm) hq.basename
    have hthere := hq.isThere
    cases isDirectory with
    | true => exact hthere.1
    | false => exact hthere
  · intro hthere
    refine ⟨p, hchild.dirname_eq hdirectory, rfl, ?_⟩
    cases isDirectory with
    | true => exact ⟨hthere, hchild.ne hdirectory⟩
    | false => exact hthere

/-- The entries of a directory list what lies right in it. -/
theorem lists_entriesOf (hclean : t.AllClean) (hfiles : t.files.Nodup)
    (hdirectories : t.directories.Nodup) {directory : String}
    (hdirectory : Path.Clean directory) : t.Lists directory (t.entriesOf directory) where
  sorted := DirectoryEntry.pairwise_mergeSort _
  nodup := nodup_entriesOf hclean hfiles hdirectories directory
  asFile _ hchild := mem_entriesOf_iff_of_isChild hclean hdirectory hchild false
  asDirectory _ hchild := mem_entriesOf_iff_of_isChild hclean hdirectory hchild true
  origin e he hname := by
    obtain ⟨p, hp⟩ := mem_entriesOf.1 he
    rcases (hclean p hp.mem).root_or_isChild with ⟨-, hempty⟩ | hchild
    · exact absurd (hp.basename.symm.trans hempty) hname
    · rw [hp.dirname] at hchild
      refine ⟨p, ⟨hchild, hp.basename⟩, ?_⟩
      rintro q ⟨hq, hsame⟩
      rw [((Path.isChild_iff _ _).1 hq).2, hsame, ← hp.basename]
      exact ((Path.isChild_iff _ _).1 hchild).2.symm

/-! ## The whole -/

/-- What changes, of which the latest stands first, leave of a tree. -/
structure Shaped (past : List Mutation) (t : Tree) : Prop where
  /-- The root of one slash is a directory unless it was removed. -/
  root : ¬ LostRoot past "/" → "/" ∈ t.directories
  /-- Everything lies in a directory that is there, unless that is a root that was removed. -/
  parents : ∀ p, p ∈ t.files ∨ p ∈ t.directories → Path.dirname p ∈ t.directories ∨ LostRoot past (Path.dirname p)
  /-- A path is both a file and a directory only if it was made both, and neither was undone. -/
  kinds : ∀ p, p ∈ t.files → p ∈ t.directories →
    Lasts Mutation.MakesFile past p ∧ (p = "/" ∨ Lasts Mutation.MakesDirectory past p)
  /-- And then it is both, while no root is removed. -/
  both : (∀ m ∈ past, m.KeepsRoots) → ∀ p, Lasts Mutation.MakesFile past p →
    p = "/" ∨ Lasts Mutation.MakesDirectory past p →
    p ∈ t.files ∧ p ∈ t.directories
  /-- A directory that may be listed lists what lies right in it. -/
  listing : ∀ directory, Path.normalize directory ∉ t.unreadable → Path.normalize directory ∈ t.directories →
    ∃ entries, (t.listDirectory directory).1 = .ok entries ∧ t.Lists (Path.normalize directory) entries
  /-- A path that is no root takes with it what has it above, and nothing else. -/
  removal : ∀ path, Path.normalize path ≠ "/" ∧ Path.normalize path ≠ "//" → ∀ p,
    (p ∈ (t.remove path).files ↔ p ∈ t.files ∧ Path.normalize path ∉ Path.ancestors p) ∧
      (p ∈ (t.remove path).directories ↔ p ∈ t.directories ∧ Path.normalize path ∉ Path.ancestors p)

/-- A tree stays a tree, whatever changes it. -/
theorem Built.stays_tree (h : Built past t) : t.Shaped past := by
  have hclosed := h.closedBut
  obtain ⟨hfiles, hdirectories⟩ := h.nodup
  refine ⟨h.root_mem, hclosed.above, ?_, ?_, ?_, ?_⟩
  · intro p hfile hdirectory
    exact ⟨h.lasts_of_mem.1 hfile, h.lasts_of_mem.2 hdirectory⟩
  · intro hroots p hfile hdirectory
    exact ⟨(h.mem_of_lasts hroots).1 hfile, (h.mem_of_lasts hroots).2 hdirectory⟩
  · intro directory hreadable hthere
    refine ⟨t.entriesOf (Path.normalize directory), ?_, ?_⟩
    · rw [listDirectory, listing, if_neg (by simpa using hreadable), if_neg (by simpa using hthere)]
    · exact lists_entriesOf hclosed.clean hfiles hdirectories (hclosed.clean _ (.inr hthere))
  · intro path hroots p
    exact hclosed.clean.mem_remove_iff hroots p

/-- A file gives way to a directory, in which a path becomes both. What only begins like the directory stays when that
is removed. -/
theorem Built.stays_tree_replaced :
    ∃ (past : List Mutation) (t : Tree), Built past t ∧ "/" ∈ t.directories ∧ Path.dirname "/a/b" ∈ t.directories ∧
      ¬ ("/a" ∈ t.files ∧ "/a" ∈ t.directories) ∧ ("/a/b" ∈ t.files ∧ "/a/b" ∈ t.directories) ∧
      (∃ entries, (t.listDirectory "/a/b/..").1 = .ok entries ∧ ⟨"b", true⟩ ∈ entries ∧ ⟨"b", false⟩ ∈ entries) ∧
      ("/a-b" ∈ (t.remove "/a/").files ∧ "/a/b/c" ∉ (t.remove "/a/").files) := by
  have hbuilt : Built [.addFile "/a-b", .addFile "/a/b/c", .addFile "/a/b", .remove "/a/.", .addFile "/a"]
      (((((Tree.empty.addFile "/a").remove "/a/.").addFile "/a/b").addFile "/a/b/c").addFile "/a-b") :=
    Built.empty.foldl [.addFile "/a", .remove "/a/.", .addFile "/a/b", .addFile "/a/b/c", .addFile "/a-b"]
      (by simp [Mutation.AddsAbsolute, Path.isAbsolute])
  have hremoved : Path.normalize "/a/." = "/a" := by cbv
  have hnoLoss : ∀ root, ¬ LostRoot [.addFile "/a-b", .addFile "/a/b/c", .addFile "/a/b", .remove "/a/.",
      .addFile "/a"] root := by
    rintro root ⟨hroot, path, hpath, rfl⟩
    obtain rfl : path = "/a/." := by simpa using hpath
    simp [hremoved] at hroot
  have htree := hbuilt.stays_tree
  refine ⟨_, _, hbuilt, htree.root (hnoLoss _), ?_, ?_, ?_, ?_, ?_⟩
  · exact (htree.parents "/a/b" (.inl (by decide +kernel))).resolve_right (hnoLoss _)
  · rintro ⟨hfile, hdirectory⟩
    obtain ⟨hlasts, -⟩ := htree.kinds "/a" hfile hdirectory
    have hothers : "/a" ≠ Path.normalize "/a-b" ∧ "/a" ≠ Path.normalize "/a/b/c" ∧ "/a" ≠ Path.normalize "/a/b" := by
      decide +kernel
    simp [lasts_cons, not_lasts_nil, Mutation.MakesFile, Mutation.Takes, Mutation.KeepsRoots, hremoved,
      Path.self_mem_ancestors, hothers] at hlasts
  · refine htree.both ?_ "/a/b" ⟨[.addFile "/a-b", .addFile "/a/b/c"], .addFile "/a/b", _, rfl, ?_, ?_⟩
      (.inr ⟨[.addFile "/a-b"], .addFile "/a/b/c", _, rfl, ?_, ?_⟩)
    · simp [Mutation.KeepsRoots, hremoved]
    · exact (by cbv : Path.normalize "/a/b" = "/a/b").symm
    · simp [Mutation.Takes]
    · change "/a/b" ∈ Path.ancestors (Path.dirname (Path.normalize "/a/b/c"))
      decide +kernel
    · simp [Mutation.Takes]
  · obtain ⟨entries, hentries, hlists⟩ := htree.listing "/a/b/.." (by decide +kernel) (by decide +kernel)
    have hchild : Path.IsChild (Path.normalize "/a/b/..") "/a/b" := by decide +kernel
    refine ⟨entries, hentries, ?_, ?_⟩
    · exact (hlists.asDirectory "/a/b" hchild).2 (by decide +kernel)
    · exact (hlists.asFile "/a/b" hchild).2 (by decide +kernel)
  · have hremoval := htree.removal "/a/" (by decide +kernel)
    constructor
    · exact (hremoval "/a-b").1.2 ⟨by decide +kernel, by decide +kernel⟩
    · intro hp
      exact ((hremoval "/a/b/c").1.1 hp).2 (by decide +kernel)

/-- A file that another one is added below is a directory too, and is listed twice. A root that is removed leaves what
lies below it, without a directory to lie in. -/
theorem file_above_file :
    let t := (Tree.empty.addFile "/a").addFile "/a/b"
    let u := Tree.empty.addFile "//c"
    (Built [.addFile "/a/b", .addFile "/a"] t ∧ ("/a" ∈ t.files ∧ "/a" ∈ t.directories) ∧
      (t.listDirectory "/").1 = .ok [⟨"a", true⟩, ⟨"a", false⟩]) ∧
    ("/" ∉ (t.remove "/").directories ∧ "/a/b" ∈ (t.remove "/").files) ∧
    (Built [.addFile "//c"] u ∧ "//c" ∈ (u.remove "//").files ∧ Path.dirname "//c" ∉ (u.remove "//").directories) := by
  intro t u
  refine ⟨⟨?_, ?_, ?_⟩, ?_, ?_, ?_⟩
  · exact .mutate (m := .addFile "/a/b") (.mutate (m := .addFile "/a") .empty (by cbv)) (by cbv)
  · decide +kernel
  · cbv
  · decide +kernel
  · exact .mutate (m := .addFile "//c") .empty (by cbv)
  · decide +kernel

end DocRefs.Tree
