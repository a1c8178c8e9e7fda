import DocRefs.Files.Tree
import DocRefs.Proofs.Path.Names

/-!
# What changes a tree of files

A question leaves the paths of a tree as they are (`Agrees`). A mutation puts new paths behind the old ones or takes
paths out (`Mutation.edits`), so the answer to a question about paths that neither came nor went is the same after it
(`Edits.holds_eq`, `Edits.listing_eq`).
-/

namespace DocRefs

/-- Entries that are sorted by their names stand in the order of these. -/
theorem DirectoryEntry.pairwise_mergeSort (entries : List DirectoryEntry) :
    (entries.mergeSort fun a b => a.name ≤ b.name).Pairwise fun a b => a.name ≤ b.name := by
  refine (List.pairwise_mergeSort ?_ ?_ _).imp of_decide_eq_true
  · intro a b c hab hbc
    exact decide_eq_true (String.le_trans (of_decide_eq_true hab) (of_decide_eq_true hbc))
  · intro a b
    simpa using String.le_total a.name b.name

namespace Tree

/-- A tree with the same paths, of which the same ones may not be listed. -/
structure Agrees (t t' : Tree) : Prop where
  files : t'.files = t.files
  directories : t'.directories = t.directories
  unreadable : t'.unreadable = t.unreadable

namespace Agrees

variable {t t' t'' : Tree}

theorem rfl : Agrees t t := ⟨Eq.refl _, Eq.refl _, Eq.refl _⟩

theorem trans (h : Agrees t t') (h' : Agrees t' t'') : Agrees t t'' :=
  ⟨h'.files.trans h.files, h'.directories.trans h.directories, h'.unreadable.trans h.unreadable⟩

theorem symm (h : Agrees t t') : Agrees t' t := ⟨h.files.symm, h.directories.symm, h.unreadable.symm⟩

/-- In trees with the same paths the same is there. -/
theorem holds_eq (h : Agrees t t') (path : String) : t'.holds path = t.holds path := by
  rw [holds, holds, h.files, h.directories]

/-- In trees with the same paths directories are listed alike. -/
theorem listing_eq (h : Agrees t t') (path : String) : t'.listing path = t.listing path := by
  rw [listing, listing, entriesOf, entriesOf, h.files, h.directories, h.unreadable]

end Agrees

/-- Asking whether a path exists changes nothing but the count. -/
theorem agrees_pathExists (t : Tree) (path : String) : Agrees t (t.pathExists path).2 := ⟨rfl, rfl, rfl⟩

/-- Listing a directory changes nothing but the count. -/
theorem agrees_listDirectory (t : Tree) (path : String) : Agrees t (t.listDirectory path).2 := ⟨rfl, rfl, rfl⟩

/-- Whether a path leads to something. -/
def presence (t : Tree) (path : String) : Bool :=
  t.holds (Path.normalize path)

/-- In trees with the same paths the same paths lead to something. -/
theorem Agrees.presence_eq {t t' : Tree} (h : Agrees t t') : t'.presence = t.presence :=
  funext fun path => h.holds_eq (Path.normalize path)

/-- A path that has come or gone, as a file or as a directory. -/
def Changed (t t' : Tree) (p : String) : Prop :=
  ¬ (p ∈ t.files ↔ p ∈ t'.files) ∨ ¬ (p ∈ t.directories ↔ p ∈ t'.directories)

/-- A tree whose paths are all absolute and normal. -/
def AllClean (t : Tree) : Prop :=
  ∀ p, p ∈ t.files ∨ p ∈ t.directories → Path.Clean p

/-- What has come to or gone from a clean tree is a clean path. -/
theorem Changed.clean {t t' : Tree} {p : String} (h : Changed t t' p) (ht : t.AllClean)
    (ht' : t'.AllClean) : Path.Clean p := by
  by_cases hp : p ∈ t.files ∨ p ∈ t.directories
  · exact ht p hp
  · rcases not_or.1 hp with ⟨hf, hd⟩
    refine ht' p ?_
    rcases h with h | h
    · exact .inl (by simpa [hf] using h)
    · exact .inr (by simpa [hd] using h)

/-! ## Edited lists -/

/-- A list that comes from another one by new members at its end, or by taking members out. -/
inductive Edited (paths : List String) : List String → Prop
  | extended (more : List String) (h : ∀ p ∈ more, p ∉ paths) : Edited paths (paths ++ more)
  | reduced (keep : String → Bool) : Edited paths (paths.filter keep)

theorem Edited.refl (paths : List String) : Edited paths paths := by
  have h : Edited paths (paths ++ []) := .extended [] (by simp)
  rwa [List.append_nil] at h

/-- The members of a kind, in their order, are the same before and after if none of that kind has come or gone. -/
theorem Edited.filter_eq {paths paths' : List String} (h : Edited paths paths') {kind : String → Bool}
    (hkind : ∀ p, ¬ (p ∈ paths ↔ p ∈ paths') → kind p = false) : paths'.filter kind = paths.filter kind := by
  cases h with
  | extended more hnew =>
    have hmore : more.filter kind = [] := by
      refine List.filter_eq_nil_iff.2 fun p hp => ?_
      simp [hkind p (by simp [hp, hnew p hp])]
    rw [List.filter_append, hmore, List.append_nil]
  | reduced keep =>
    rw [List.filter_filter]
    refine List.filter_congr fun p hp => ?_
    cases hkeep : keep p with
    | true => simp
    | false => simp [hkind p (by simp [hp, hkeep])]

/-- One tree comes from another by editing its lists of paths. -/
structure Edits (t t' : Tree) : Prop where
  files : Edited t.files t'.files
  directories : Edited t.directories t'.directories
  unreadable : t'.unreadable = t.unreadable

/-- Whether a path exists is the same before and after if it has neither come nor gone. -/
theorem holds_of_not_changed {t t' : Tree} {p : String} (h : ¬ Changed t t' p) : t'.holds p = t.holds p := by
  rw [Changed, not_or, Classical.not_not, Classical.not_not] at h
  rw [holds, holds, Bool.eq_iff_iff]
  simp [h.1, h.2]

/-- A directory is listed the same before and after if neither it nor anything right below it has come or gone. -/
theorem Edits.listing_eq {t t' : Tree} (h : Edits t t') {directory : String}
    (hsame : ∀ p, Changed t t' p → p ≠ directory ∧ Path.dirname p ≠ directory) :
    t'.listing directory = t.listing directory := by
  have hfiles : (t'.files.filter fun f => Path.dirname f = directory) =
      t.files.filter fun f => Path.dirname f = directory :=
    h.files.filter_eq fun p hp => by simp [(hsame p (.inl hp)).2]
  have hdirectories : (t'.directories.filter fun d => d ≠ directory && Path.dirname d = directory) =
      t.directories.filter fun d => d ≠ directory && Path.dirname d = directory :=
    h.directories.filter_eq fun p hp => by simp [(hsame p (.inr hp)).2]
  have hcontains : t'.directories.contains directory = t.directories.contains directory := by
    have hnot : ¬ Changed t t' directory := fun hc => (hsame directory hc).1 rfl
    rw [Changed, not_or, Classical.not_not, Classical.not_not] at hnot
    rw [Bool.eq_iff_iff]
    simp [hnot.2]
  rw [listing, listing, entriesOf, entriesOf, hfiles, hdirectories, hcontains, h.unreadable]

/-! ## Mutations -/

/-- A change to a tree. -/
inductive Mutation
  | addFile (path : String)
  | addDirectory (path : String)
  | remove (path : String)
deriving Repr, DecidableEq

namespace Mutation

/-- The tree after a change. -/
def apply (t : Tree) : Mutation → Tree
  | addFile path => t.addFile path
  | addDirectory path => t.addDirectory path
  | remove path => t.remove path

/-- A change that adds no relative path. -/
def AddsAbsolute : Mutation → Prop
  | addFile path => Path.isAbsolute path = true
  | addDirectory path => Path.isAbsolute path = true
  | remove _ => True

end Mutation

/-- Directories are added behind those that are there, up to the first one that is there. -/
theorem addUntilKnown_eq (directories above : List String) :
    ∃ more, addUntilKnown directories above = directories ++ more ∧ (∀ p ∈ more, p ∉ directories) ∧
    ∀ p ∈ more, p ∈ above := by
  induction above generalizing directories with
  | nil => exact ⟨[], by simp [addUntilKnown], by simp, by simp⟩
  | cons p above ih =>
    rw [addUntilKnown]
    split
    · exact ⟨[], by simp, by simp, by simp⟩
    · rename_i hp
      obtain ⟨more, hmore, hnew, hin⟩ := ih (directories ++ [p])
      refine ⟨p :: more, by rw [hmore, List.append_assoc, List.singleton_append], ?_, ?_⟩
      · intro q hq
        rcases List.mem_cons.1 hq with rfl | hq
        · simpa using hp
        · exact fun h => hnew q hq (List.mem_append_left _ h)
      · intro q hq
        rcases List.mem_cons.1 hq with rfl | hq
        · exact List.mem_cons_self
        · exact List.mem_cons_of_mem _ (hin q hq)

/-- What is added once is there once. -/
theorem nodup_addUntilKnown {directories : List String} (h : directories.Nodup) (above : List String) :
    (addUntilKnown directories above).Nodup := by
  induction above generalizing directories with
  | nil => exact h
  | cons p above ih =>
    rw [addUntilKnown]
    split
    · exact h
    · rename_i hnew
      refine ih (List.nodup_append.2 ⟨h, List.pairwise_singleton _ p, ?_⟩)
      rintro d hd e he rfl
      exact hnew (List.contains_iff_mem.2 (List.mem_singleton.1 he ▸ hd))

/-- A path that is added is there besides the others. -/
theorem mem_withMember {p q : String} {paths : List String} : q ∈ withMember p paths ↔ q = p ∨ q ∈ paths := by
  rw [withMember]
  split
  · rename_i hknown
    constructor
    · exact .inr
    · rintro (rfl | hq)
      · exact List.contains_iff_mem.1 hknown
      · exact hq
  · rw [List.mem_append, List.mem_singleton, or_comm]

/-- A path that is added is not there twice. -/
theorem nodup_withMember {paths : List String} (h : paths.Nodup) (p : String) : (withMember p paths).Nodup :=
  nodup_addUntilKnown h [p]

/-- Adding a directory edits the lists of paths. -/
theorem edits_addDirectory (t : Tree) (path : String) : Edits t (t.addDirectory path) := by
  obtain ⟨more, hmore, hnew, -⟩ := addUntilKnown_eq t.directories (Path.ancestors (Path.normalize path))
  refine ⟨.refl _, ?_, rfl⟩
  rw [addDirectory, hmore]
  exact .extended _ hnew

/-- Adding a file edits the lists of paths. -/
theorem edits_addFile (t : Tree) (path : String) : Edits t (t.addFile path) := by
  have hdirectory := edits_addDirectory t (Path.dirname (Path.normalize path))
  refine ⟨?_, hdirectory.directories, rfl⟩
  change Edited t.files (withMember (Path.normalize path) t.files)
  rw [withMember]
  split
  · exact .refl _
  · rename_i hnew
    refine .extended _ fun p hp => ?_
    rw [List.mem_singleton.1 hp]
    simpa using hnew

/-- A mutation edits the lists of paths and nothing else. -/
theorem Mutation.edits (m : Mutation) (t : Tree) : Edits t (m.apply t) := by
  cases m with
  | addFile path => exact edits_addFile t path
  | addDirectory path => exact edits_addDirectory t path
  | remove path => exact ⟨.reduced _, .reduced _, rfl⟩

/-- The paths of a tree stay clean when a directory with an absolute path is added. -/
theorem AllClean.addDirectory {t : Tree} (h : t.AllClean) {path : String} (hpath : Path.isAbsolute path = true) :
    (t.addDirectory path).AllClean := by
  obtain ⟨more, hmore, -, hin⟩ := addUntilKnown_eq t.directories (Path.ancestors (Path.normalize path))
  intro p hp
  rw [Tree.addDirectory, hmore] at hp
  simp only [List.mem_append] at hp
  rcases hp with hp | hp | hp
  · exact h p (.inl hp)
  · exact h p (.inr hp)
  · exact (Path.clean_normalize hpath).of_mem_ancestors (hin p hp)

/-- The paths of a tree stay clean when a file with an absolute path is added. -/
theorem AllClean.addFile {t : Tree} (h : t.AllClean) {path : String} (hpath : Path.isAbsolute path = true) :
    (t.addFile path).AllClean := by
  have hclean := Path.clean_normalize hpath
  have hdirectory := h.addDirectory hclean.dirname.absolute
  intro p hp
  rcases hp with hp | hp
  · rcases mem_withMember.1 hp with rfl | hp
    · exact hclean
    · exact h p (.inl hp)
  · exact hdirectory p (.inr hp)

/-- A clean tree stays clean while absolute paths are added. -/
theorem AllClean.apply {t : Tree} (h : t.AllClean) {m : Mutation} (hm : m.AddsAbsolute) : (m.apply t).AllClean := by
  cases m with
  | addFile path => exact h.addFile hm
  | addDirectory path => exact h.addDirectory hm
  | remove path =>
    intro p hp
    refine h p ?_
    simp only [Mutation.apply, Tree.remove, List.mem_filter] at hp
    exact hp.imp And.left And.left

theorem allClean_empty : Tree.empty.AllClean := by
  intro p hp
  simp only [Tree.empty, List.not_mem_nil, List.mem_singleton, false_or] at hp
  subst hp
  exact ⟨rfl, by cbv⟩

/-- A tree that is built of absolute paths is clean, whichever directories may not be listed. -/
theorem allClean_build {directories files : List String} (unreadable : List String)
    (hdirectories : ∀ p ∈ directories, Path.isAbsolute p = true) (hfiles : ∀ p ∈ files, Path.isAbsolute p = true) :
    (build directories files unreadable).AllClean := by
  have hdirs : (directories.foldl Tree.addDirectory Tree.empty).AllClean :=
    List.foldlRecOn directories _ allClean_empty fun t ht p hp => ht.addDirectory (hdirectories p hp)
  have hall : (files.foldl Tree.addFile (directories.foldl Tree.addDirectory Tree.empty)).AllClean :=
    List.foldlRecOn files _ hdirs fun t ht p hp => ht.addFile (hfiles p hp)
  exact List.foldlRecOn unreadable _ hall fun t ht p _ => ht

end Tree

end DocRefs
