import DocRefs.Proofs.Assoc
import DocRefs.Proofs.Files.Unchanged
import DocRefs.Roots

/-!
# The nearest root

Over files that nobody changes a directory has one root: the nearest directory upwards that the marker is in
(`Path.nearestMarked`). A search finds it if every remembered root is right (`Roots.Right.find`), as it is found for
every directory that the search probes; so what is remembered of the search is right again, and however often it is
asked the memory makes no difference to an answer.
-/

namespace DocRefs

/-- The nearest directory, from a given one upwards, that the marker is in. -/
def Path.nearestMarked (there : String → Bool) (marker start : String) : Option String :=
  (Path.ancestors start).find? fun directory => there (Path.join directory marker)

/-- The marker is in the root that is found. -/
theorem Path.marked_of_nearestMarked {there : String → Bool} {marker start root : String}
    (h : Path.nearestMarked there marker start = some root) : there (Path.join root marker) = true := by
  unfold Path.nearestMarked at h
  simpa using List.find?_some h

/-- The root that is found is the directory itself or above it. -/
theorem Path.mem_ancestors_of_nearestMarked {there : String → Bool} {marker start root : String}
    (h : Path.nearestMarked there marker start = some root) : root ∈ Path.ancestors start :=
  List.mem_of_find?_eq_some h

/-- The root of a directory is the directory itself, or else that of the one above it. -/
theorem Path.nearestMarked_eq (there : String → Bool) (marker start : String) :
    Path.nearestMarked there marker start =
      if there (Path.join start marker) then some start
      else if Path.dirname start = start then none else Path.nearestMarked there marker (Path.dirname start) := by
  unfold nearestMarked
  rw [Path.ancestors]
  by_cases htop : Path.dirname start = start
  · rw [dif_pos htop, if_pos htop, List.find?_cons]
    cases there (Path.join start marker) <;> rfl
  · rw [dif_neg htop, if_neg htop, List.find?_cons]
    cases there (Path.join start marker) <;> rfl

namespace Roots

variable {σ : Type} [FileSystem σ] {r : Roots}

/-! ## A search -/

/-- What a search probes are some of the directories that it was given, whatever holds the files. -/
theorem mem_of_mem_probed (r : Roots) (fs : σ) {directories : List String} {d : String}
    (h : d ∈ (r.walk fs directories).1.probed) : d ∈ directories := by
  induction directories generalizing fs with
  | nil => simp [walk] at h
  | cons first above ih =>
    rw [walk] at h
    split at h
    · simp at h
    · simp only at h
      split at h
      · exact List.mem_cons.2 (.inl (List.mem_singleton.1 h))
      · rcases List.mem_cons.1 h with rfl | h
        · exact List.mem_cons_self
        · exact List.mem_cons_of_mem _ (ih _ h)

/-- Nothing was known of what a search probes. -/
theorem unknown_of_mem_probed (r : Roots) (fs : σ) {directories : List String} {d : String}
    (h : d ∈ (r.walk fs directories).1.probed) : r.known.get? d = none := by
  induction directories generalizing fs with
  | nil => simp [walk] at h
  | cons first above ih =>
    rw [walk] at h
    split at h
    · simp at h
    · rename_i hunknown
      simp only at h
      split at h
      · exact List.mem_singleton.1 h ▸ hunknown
      · rcases List.mem_cons.1 h with rfl | h
        · exact hunknown
        · exact ih _ h

/-- A search that meets a known directory stops there. -/
theorem walk_known {fs : σ} {d : String} {root : Option String} (h : r.known.get? d = some root)
    (above : List String) : r.walk fs (d :: above) = (⟨root, []⟩, fs) := by
  rw [walk, h]

/-- A directory of which nothing is known is probed, and the search goes on above it unless the marker is there. -/
theorem walk_unknown {fs : σ} {d : String} (h : r.known.get? d = none) (above : List String) :
    r.walk fs (d :: above) =
      if (FileSystem.pathExists fs (Path.join d r.marker)).1 then
        (⟨some d, [d]⟩, (FileSystem.pathExists fs (Path.join d r.marker)).2)
      else
        (⟨(r.walk (FileSystem.pathExists fs (Path.join d r.marker)).2 above).1.root,
          d :: (r.walk (FileSystem.pathExists fs (Path.join d r.marker)).2 above).1.probed⟩,
          (r.walk (FileSystem.pathExists fs (Path.join d r.marker)).2 above).2) := by
  rw [walk, h]

/-- What is known of a directory is answered without a look at the files, and nothing more is remembered. -/
theorem find_known {d : String} {root : Option String} (h : r.known.get? d = some root) (fs : σ) :
    r.find fs d = (⟨root, []⟩, r, fs) := by
  obtain ⟨above, habove⟩ := Path.exists_ancestors_eq_cons d
  rw [find, habove, walk_known h]
  rfl

/-- A search is remembered for the directories that it probed. -/
theorem get?_remember (r : Roots) (search : RootSearch) (directory : String) :
    (r.remember search).known.get? directory = if directory ∈ search.probed then some search.root
      else r.known.get? directory :=
  Assoc.get?_foldl_insert _ _ _ _

/-- What a search from a directory finds is remembered of that directory. -/
theorem known_find (r : Roots) (fs : σ) (start : String) :
    (r.find fs start).2.1.known.get? start = some (r.find fs start).1.root := by
  obtain ⟨above, habove⟩ := Path.exists_ancestors_eq_cons start
  rw [find, habove]
  simp only
  rw [get?_remember]
  cases hknown : r.known.get? start with
  | some root =>
    rw [walk_known hknown]
    simp
  | none =>
    rw [walk_unknown hknown]
    split <;> simp

/-- What is known stays known as it is when a search is remembered that probed nothing known. -/
theorem get?_remember_of_known {search : RootSearch} (hprobed : ∀ d ∈ search.probed, r.known.get? d = none) {d : String}
    {root : Option String} (h : r.known.get? d = some root) : (r.remember search).known.get? d = some root := by
  rw [get?_remember, if_neg, h]
  intro hd
  rw [hprobed d hd] at h
  simp at h

/-- What is known of a directory stays known when another one is looked up. -/
theorem known_find_of_known {d : String} {root : Option String} (h : r.known.get? d = some root)
    (fs : σ) (start : String) : (r.find fs start).2.1.known.get? d = some root :=
  get?_remember_of_known (fun _ hprobed => r.unknown_of_mem_probed fs hprobed) h

/-! ## Right memories -/

open FileSystem (Unchanged)

variable {place : σ} {there : String → Bool}

/-- Every remembered root is the nearest one. -/
def Right (r : Roots) (there : String → Bool) : Prop :=
  ∀ directory root, r.known.get? directory = some root → root = Path.nearestMarked there r.marker directory

/-- Nothing is remembered wrongly where nothing is remembered. -/
theorem right_empty (marker : String) (there : String → Bool) : Right ⟨marker, .empty⟩ there := by
  intro directory root h
  simp [Assoc.get?_empty] at h

/-- A memory stays right where no root becomes another one. -/
theorem Right.congr (h : r.Right there) {there' : String → Bool}
    (hsame : ∀ start, Path.nearestMarked there' r.marker start = Path.nearestMarked there r.marker start) :
    r.Right there' := by
  intro directory root hknown
  rw [hsame]
  exact h directory root hknown

/-- A search from a directory found its root, which is the root of every directory that it probed, and left the files as
they are. -/
structure FindsNearest (r : Roots) (there : String → Bool) (start : String) (found : RootSearch × σ) : Prop where
  root : found.1.root = Path.nearestMarked there r.marker start
  probed : ∀ d ∈ found.1.probed, Path.nearestMarked there r.marker d = Path.nearestMarked there r.marker start
  unchanged : Unchanged found.2 there

/-- A search finds the root if, where the first directory does not hold the marker, going on from the next one finds
it. -/
theorem Right.walk_cons (h : r.Right there) (hplace : Unchanged place there) {start : String} {above : List String}
    (hon : there (Path.join start r.marker) = false → ∀ place' : σ, Unchanged place' there →
      r.FindsNearest there start (r.walk place' above)) : r.FindsNearest there start (r.walk place
        (start :: above)) := by
  cases hknown : r.known.get? start with
  | some root =>
    rw [walk_known hknown]
    exact ⟨h start root hknown, by simp, hplace⟩
  | none =>
    have hnext := hplace.presence (Path.join start r.marker)
    rw [walk_unknown hknown, hplace.pathExists_eq]
    cases hmark : there (Path.join start r.marker) with
    | true =>
      rw [if_pos rfl]
      refine ⟨?_, ?_, hnext⟩
      · rw [Path.nearestMarked_eq, if_pos hmark]
      · intro d hd
        rw [List.mem_singleton.1 hd]
    | false =>
      obtain ⟨hroot, hprobed, hunchanged⟩ := hon hmark _ hnext
      rw [if_neg Bool.false_ne_true]
      refine ⟨hroot, ?_, hunchanged⟩
      intro d hd
      rcases List.mem_cons.1 hd with rfl | hd
      · rfl
      · exact hprobed d hd

/-- A search from a directory upwards finds its root. -/
theorem Right.walk (h : r.Right there) (hplace : Unchanged place there) (start : String) :
    r.FindsNearest there start (r.walk place (Path.ancestors start)) := by
  fun_induction Path.ancestors start generalizing place with
  | case1 start htop =>
    refine h.walk_cons hplace fun hmark place' hplace' => ⟨?_, by simp [Roots.walk], hplace'⟩
    rw [Path.nearestMarked_eq, hmark, if_neg Bool.false_ne_true, if_pos htop]
    rfl
  | case2 start htop _ ih =>
    refine h.walk_cons hplace fun hmark place' hplace' => ?_
    have hroot : Path.nearestMarked there r.marker start = Path.nearestMarked there r.marker (Path.dirname start) := by
      rw [Path.nearestMarked_eq, hmark, if_neg Bool.false_ne_true, if_neg htop]
    obtain ⟨hfound, hprobed, hunchanged⟩ := ih hplace'
    exact ⟨hfound.trans hroot.symm, hroot ▸ hprobed, hunchanged⟩

/-- What is remembered of a search is right. -/
theorem Right.remember (h : r.Right there) {start : String} {found : RootSearch × σ}
    (hfound : r.FindsNearest there start found) : (r.remember found.1).Right there := by
  intro directory root hknown
  rw [get?_remember] at hknown
  split at hknown
  · rename_i hd
    rw [← Option.some.inj hknown, hfound.root]
    exact (hfound.probed directory hd).symm
  · exact h directory root hknown

/-- Looking up a root answers the nearest one, leaves a memory that is right, and leaves the files as they are. -/
theorem Right.find (h : r.Right there) (hplace : Unchanged place there) (start : String) :
    (r.find place start).1.root = Path.nearestMarked there r.marker start ∧ (r.find place start).2.1.Right there ∧
      Unchanged (r.find place start).2.2 there := by
  have hfound := h.walk hplace start
  exact ⟨hfound.root, h.remember hfound, hfound.unchanged⟩

/-- A report forgets everything if it names the marker, and else nothing. -/
theorem invalidate_eq (r : Roots) (changed : List String) :
    (r.invalidate changed).2 = if ∃ p ∈ changed, Path.basename p = r.marker then r.clear else r := by
  have hnamed : changed.any r.isMarker = true ↔ ∃ p ∈ changed, Path.basename p = r.marker := by
    simp [isMarker]
  simp only [invalidate, hnamed]
  split <;> rfl

@[simp]
theorem invalidate_marker (r : Roots) (changed : List String) : (r.invalidate changed).2.marker = r.marker := by
  rw [invalidate]
  split <;> rfl

/-- A memory that was right is right after a report, and so is any memory after a report that names the marker: nothing
is remembered then. -/
theorem right_invalidate {changed : List String} (h : r.Right there ∨ ∃ p ∈ changed, Path.basename p = r.marker) :
    (r.invalidate changed).2.Right there := by
  rw [invalidate_eq]
  split
  · exact right_empty r.marker there
  · rename_i hnone
    exact h.resolve_right hnone

end Roots

end DocRefs
