import DocRefs.Listings
import DocRefs.Proofs.Assoc
import DocRefs.Proofs.Files.Tree
import Mathlib.Data.Set.Basic

/-!
# Remembered listings

A remembered listing is that of its directory now, or something right there has come or gone that was not reported yet
(`Listings.Current`). A report of a path drops the listings of the path itself and of the directory that it lies in,
which are all that its coming or going can have altered (`Listings.current_invalidate`).
-/

namespace DocRefs

namespace Tree

/-- The entries of a directory, none where it cannot be listed. -/
def entriesAt (t : Tree) (directory : String) : List DirectoryEntry :=
  match t.listing (Path.normalize directory) with
  | .ok entries => entries
  | .error _ => []

/-- In trees with the same paths the same entries are in a directory. -/
theorem Agrees.entriesAt_eq {t t' : Tree} (h : Agrees t t') (directory : String) :
    t'.entriesAt directory = t.entriesAt directory := by
  rw [entriesAt, entriesAt, h.listing_eq]

end Tree

namespace Listings

/-- Every remembered listing is that of a normalised path, and is what the tree lists there unless a path that was not
reported lies there. -/
def Current (l : Listings) (t : Tree) (unreported : Set String) : Prop :=
  ∀ directory entries, l.known.get? directory = some entries →
    Path.normalize directory = directory ∧
      (t.listing directory = .ok entries ∨ ∃ p ∈ unreported, p = directory ∨ Path.dirname p = directory)

variable {l : Listings} {t t' : Tree} {unreported : Set String}

/-- Nothing is remembered wrongly where nothing is remembered. -/
theorem current_empty (t : Tree) (unreported : Set String) : Current {} t unreported := by
  intro directory entries h
  simp [Assoc.get?_empty] at h

/-- What is remembered of a tree is as right for one with the same paths. -/
theorem Current.agrees (h : l.Current t unreported) (hagrees : t.Agrees t') : l.Current t' unreported := by
  intro directory entries hknown
  rw [hagrees.listing_eq]
  exact h directory entries hknown

/-- A listing that is read is remembered as it is. -/
theorem Current.store (h : l.Current t unreported) {directory : String} {entries : List DirectoryEntry}
    (hread : t.listing (Path.normalize directory) = .ok entries) :
    (l.store directory entries).Current t unreported := by
  intro other otherEntries hknown
  rw [Listings.store, Assoc.get?_insert] at hknown
  split at hknown
  · rename_i hother
    subst hother
    rw [← Option.some.inj hknown]
    exact ⟨Path.normalize_normalize _, .inl hread⟩
  · exact h other otherEntries hknown

/-- A request for a listing answers what is remembered, or it reads the directory and remembers what it read there. -/
theorem get_cases (l : Listings) (t : Tree) (directory : String) :
    t.Agrees (l.get t directory).2.2 ∧
      ((∃ entries, l.known.get? (Path.normalize directory) = some entries ∧ (l.get t directory).1.entries = entries ∧
          (l.get t directory).2.1 = l) ∨
        (l.get t directory).1.entries = t.entriesAt directory ∧
          ((l.get t directory).2.1 = l ∨
            ∃ entries, t.listing (Path.normalize directory) = .ok entries ∧
            (l.get t directory).2.1 = l.store directory entries)) := by
  unfold get
  split
  · rename_i entries hknown
    exact ⟨.rfl, .inl ⟨entries, hknown, rfl, rfl⟩⟩
  · have hagrees := t.agrees_listDirectory (Path.normalize directory)
    have hlisting : (t.listDirectory (Path.normalize directory)).1 = t.listing (Path.normalize directory) := by
      rw [Tree.listDirectory, Path.normalize_normalize]
    split
    · rename_i entries after hread
      obtain ⟨hentries, rfl⟩ := Prod.mk.injEq _ _ _ _ ▸ hread
      have hnow : t.listing (Path.normalize directory) = .ok entries := hlisting.symm.trans hentries
      exact ⟨hagrees, .inr ⟨by rw [Tree.entriesAt, hnow], .inr ⟨entries, hnow, rfl⟩⟩⟩
    · rename_i e after hread
      obtain ⟨hentries, rfl⟩ := Prod.mk.injEq _ _ _ _ ▸ hread
      have hnow : t.listing (Path.normalize directory) = .error e := hlisting.symm.trans hentries
      exact ⟨hagrees, .inr ⟨by rw [Tree.entriesAt, hnow], .inl rfl⟩⟩

/-- A listing that is answered is remembered, unless the directory cannot be read. -/
theorem known_get (l : Listings) {t : Tree} {directory : String} {entries : List DirectoryEntry}
    (hread : t.listing (Path.normalize directory) = .ok entries) :
    (l.get t directory).2.1.known.get? (Path.normalize directory) = some (l.get t directory).1.entries := by
  have hnow : (t.listDirectory (Path.normalize directory)).1 = .ok entries := by
    rw [Tree.listDirectory, Path.normalize_normalize]
    exact hread
  unfold get
  split
  · assumption
  · split
    · rw [store, Assoc.get?_insert, if_pos rfl]
    · rename_i e after herror
      exact absurd (hnow.symm.trans (congrArg Prod.fst herror)) (by simp)

/-- While everything is reported a listing is answered as the tree lists it, and what is remembered after it is current
too. -/
theorem get_spec (h : l.Current t ∅) (directory : String) :
    (l.get t directory).1.entries = t.entriesAt directory ∧ (l.get t directory).2.1.Current (l.get t directory).2.2 ∅ ∧
      t.Agrees (l.get t directory).2.2 := by
  obtain ⟨hagrees, ⟨entries, hknown, hentries, hafter⟩ | ⟨hentries, hafter | ⟨entries, hread, hafter⟩⟩⟩ :=
    l.get_cases t directory
  · have hnow : t.listing (Path.normalize directory) = .ok entries := by
      rcases (h _ _ hknown).2 with hnow | ⟨p, hp, -⟩
      · exact hnow
      · exact absurd hp (Set.notMem_empty p)
    exact ⟨by rw [hentries, Tree.entriesAt, hnow], by rw [hafter]; exact h.agrees hagrees, hagrees⟩
  · exact ⟨hentries, by rw [hafter]; exact h.agrees hagrees, hagrees⟩
  · exact ⟨hentries, by rw [hafter]; exact (h.store hread).agrees hagrees, hagrees⟩

/-- After an edit the listings are current but for the directories of what has come or gone. -/
theorem Current.edits (h : l.Current t unreported) (hedits : t.Edits t') :
    l.Current t' (unreported ∪ {p | t.Changed t' p}) := by
  intro directory entries hknown
  obtain ⟨hnormal, hnow⟩ := h directory entries hknown
  refine ⟨hnormal, ?_⟩
  by_cases hsame : ∀ p, t.Changed t' p → p ≠ directory ∧ Path.dirname p ≠ directory
  · rw [hedits.listing_eq hsame]
    exact hnow.imp_right fun ⟨p, hp, hplace⟩ => ⟨p, .inl hp, hplace⟩
  · rw [not_forall] at hsame
    obtain ⟨p, hp⟩ := hsame
    rw [Classical.not_imp, not_and_or, Classical.not_not, Classical.not_not] at hp
    exact .inr ⟨p, .inr hp.1, hp.2⟩

/-- A reported path leaves no outdated listing behind. -/
theorem current_invalidate (h : l.Current t unreported) (hclean : ∀ p ∈ unreported, Path.Clean p)
    (changed : List String) : (l.invalidate changed).2.Current t (unreported \ {p | p ∈ changed}) := by
  intro directory entries hknown
  have hkept : (if !(changed.flatMap touchedBy).contains directory then l.known.get? directory
      else none) = some entries := by
    rw [← hknown]
    exact (Assoc.get?_filter l.known (fun d => !(changed.flatMap touchedBy).contains d) directory).symm
  split at hkept
  · rename_i hstale
    obtain ⟨hnormal, hnow⟩ := h directory entries hkept
    refine ⟨hnormal, hnow.imp_right ?_⟩
    rintro ⟨p, hp, hplace⟩
    refine ⟨p, ⟨hp, ?_⟩, hplace⟩
    intro hreported
    have htouched : directory ∈ touchedBy p := by
      rw [touchedBy, (hclean p hp).normal]
      rcases hplace with rfl | rfl <;> simp
    have hmem : directory ∈ changed.flatMap touchedBy := List.mem_flatMap.2 ⟨p, hreported, htouched⟩
    rw [List.contains_iff_mem.2 hmem] at hstale
    exact absurd hstale (by simp)
  · exact absurd hkept (by simp)

end Listings

end DocRefs
