import DocRefs.Proofs.Files.Tree
import DocRefs.Proofs.Roots.Nearest

/-!
# Roots of a tree

What a tree says about roots stays while nothing with the marker's name comes or goes in it
(`Tree.nearestMarked_eq_of_changed`). A search changes nothing in the tree but its counts, so that over a tree a right
memory answers right and stays right (`Roots.Right.find_tree`).
-/

namespace DocRefs

namespace Tree

/-- Roots stay what they are while nothing with the marker's name comes or goes. -/
theorem nearestMarked_eq_of_changed {t t' : Tree} {marker : String} (hmarker : Path.IsName marker.toList)
    (h : ∀ p, Changed t t' p → Path.basename p ≠ marker) (start : String) :
    Path.nearestMarked t'.presence marker start = Path.nearestMarked t.presence marker start := by
  have hmarks : ∀ directory, t'.presence (Path.join directory marker) = t.presence (Path.join directory marker) := by
    intro directory
    exact holds_of_not_changed fun hc => h _ hc (Path.basename_normalize_join directory hmarker)
  simp only [Path.nearestMarked, hmarks]

/-- A directory that the marker is in is absolute. -/
theorem isAbsolute_of_marked {t : Tree} (hclean : t.AllClean) {marker : String} (hmarker : Path.IsName marker.toList)
    {directory : String} (h : t.presence (Path.join directory marker) = true) : Path.isAbsolute directory = true := by
  have hthere : Path.normalize (Path.join directory marker) ∈ t.files ∨
      Path.normalize (Path.join directory marker) ∈ t.directories := by
    simpa [presence, holds] using h
  have hhead := Path.head?_of_isAbsolute (hclean _ hthere).absolute
  rw [Path.normalize, String.toList_ofList] at hhead
  have hjoined := Path.head?_of_normalChars hhead
  have hname : marker.toList.head? ≠ some '/' := fun hslash => hmarker.noSlash (List.mem_of_head? hslash)
  rw [Path.join, String.toList_ofList, Path.joinChars, if_neg hname] at hjoined
  rw [Path.isAbsolute, decide_eq_true_eq]
  cases hchars : directory.toList with
  | nil =>
    rw [hchars] at hjoined
    exact absurd (by simpa using hjoined) hname
  | cons c rest =>
    rw [hchars] at hjoined
    split at hjoined <;> simpa using hjoined

end Tree

namespace Roots

variable {r : Roots}

/-- A search changes nothing in the tree but its counts, whatever is remembered. -/
theorem agrees_walk (r : Roots) (t : Tree) (directories : List String) : t.Agrees (r.walk t directories).2 := by
  induction directories generalizing t with
  | nil => exact .rfl
  | cons d ds ih =>
    have hagrees := t.agrees_pathExists (Path.join d r.marker)
    rw [walk]
    split
    · exact .rfl
    · simp only [FileSystem.pathExists]
      split
      · exact hagrees
      · exact hagrees.trans (ih _)

/-- Looking up a root of a tree answers the nearest one and leaves a memory that is right, and the same paths. -/
theorem Right.find_tree {t : Tree} (h : r.Right t.presence) (start : String) :
    (r.find t start).1.root = Path.nearestMarked t.presence r.marker start ∧
      (r.find t start).2.1.Right (r.find t start).2.2.presence ∧ t.Agrees (r.find t start).2.2 := by
  obtain ⟨hroot, hright, -⟩ := h.find t.unchanged start
  have hagrees : t.Agrees (r.find t start).2.2 := r.agrees_walk t _
  refine ⟨hroot, ?_, hagrees⟩
  rw [hagrees.presence_eq]
  exact hright

/-- A report without the marker's name leaves everything as it is remembered. -/
theorem invalidate_of_unmarked {changed : List String} (h : ∀ p ∈ changed, Path.basename p ≠ r.marker) :
    (r.invalidate changed).2 = r := by
  rw [invalidate_eq, if_neg]
  rintro ⟨p, hp, hname⟩
  exact h p hp hname

end Roots

end DocRefs
