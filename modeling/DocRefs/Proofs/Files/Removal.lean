import DocRefs.Proofs.Files.Entries
import DocRefs.Proofs.Roots

/-!
# What goes with a directory

A path that is taken out of a tree takes with it what lies below it and nothing else (`Tree.mem_remove`). For a path
that is no root what lies at it or below it by its text is what has it above, directory by directory
(`Tree.AllClean.mem_remove_iff`). Afterwards what went cannot be listed (`Tree.entriesAt_remove`), every directory that
stayed and did not hold the path lists as before (`Tree.entriesAt_remove_eq`), and a root whose marker stayed is the
root of the same directories (`Tree.nearestMarked_remove`).
-/

namespace DocRefs.Tree

variable {t : Tree} {path p : String}

/-- What goes with a path: the path itself and what lies below it. -/
def GoesWith (path p : String) : Prop :=
  p = Path.normalize path ∨ isBelow (Path.normalize path) p = true

/-- What a removal keeps is what does not go with the path. -/
theorem goesWith_eq_false_iff :
    (p ≠ Path.normalize path && !isBelow (Path.normalize path) p) = true ↔ ¬ GoesWith path p := by
  rw [GoesWith, not_or]
  simp

/-- What is left is what does not go with the path. -/
theorem mem_remove :
    (p ∈ (t.remove path).files ↔ p ∈ t.files ∧ ¬ GoesWith path p) ∧
      (p ∈ (t.remove path).directories ↔ p ∈ t.directories ∧ ¬ GoesWith path p) := by
  rw [← goesWith_eq_false_iff]
  simp only [Tree.remove, List.mem_filter, decide_not, and_self]

/-- What has gone is what was there and goes with the path. -/
theorem changed_remove : t.Changed (t.remove path) p ↔ (p ∈ t.files ∨ p ∈ t.directories) ∧ GoesWith path p := by
  rw [Changed, mem_remove.1, mem_remove.2]
  by_cases hgoes : GoesWith path p <;> simp [hgoes]

/-- What is still there was there and does not go with the path. -/
theorem holds_remove : (t.remove path).holds p = true ↔ t.holds p = true ∧ ¬ GoesWith path p := by
  rw [holds, holds]
  simp only [Bool.or_eq_true, List.contains_iff_mem, mem_remove.1, mem_remove.2]
  rw [or_and_right]

/-- What lies below a path is longer. -/
theorem length_lt_of_isBelow {above below : String} (h : isBelow above below = true) :
    above.toList.length < below.toList.length := by
  rw [isBelow, List.isPrefixOf_iff_prefix] at h
  have hlength := h.length_le
  rw [List.length_append, List.length_singleton] at hlength
  exact hlength

/-- A front part that ends in a slash ends before a name. -/
theorem prefix_of_slash {above front name : List Char} (hname : '/' ∉ name) (h : above ++ ['/'] <+: front ++ name) :
    above ++ ['/'] <+: front := by
  rcases List.prefix_or_prefix_of_prefix h (List.prefix_append front name) with hfront | ⟨rest, hrest⟩
  · exact hfront
  · cases rest with
    | nil =>
      rw [List.append_nil] at hrest
      exact hrest ▸ List.prefix_rfl
    | cons c rest =>
      obtain ⟨more, hmore⟩ := h
      rw [← hrest, List.append_assoc, List.append_cancel_left_eq] at hmore
      have hlast : (front ++ c :: rest).getLast? = some '/' := by
        rw [hrest]
        simp
      rw [List.getLast?_append, List.getLast?_eq_some_getLast (List.cons_ne_nil c rest), Option.some_or] at hlast
      have hslash : '/' ∈ c :: rest := Option.some.inj hlast ▸ List.getLast_mem _
      exact absurd (hmore ▸ List.mem_append_left _ hslash) hname

/-- What lies below a path lies right in it, or in a directory below it. -/
theorem dirname_of_isBelow {above below : String} (hbelow : Path.Clean below) (h : isBelow above below = true) :
    Path.dirname below = above ∨ isBelow above (Path.dirname below) = true := by
  rcases hbelow.root_or_name with ⟨-, hroot, -⟩ | ⟨slashes, names, name, -, -, hname, hchars, hdirname, -⟩
  · exact .inr (hroot.symm ▸ h)
  · rw [isBelow, List.isPrefixOf_iff_prefix] at h
    rw [isBelow, List.isPrefixOf_iff_prefix]
    rw [hchars, Path.ofComponents_concat, ← hdirname, ← List.append_assoc] at h
    have hfront := prefix_of_slash hname.noSlash h
    split at hfront
    · exact .inr (by rwa [List.append_nil] at hfront)
    · rcases List.prefix_concat_iff.1 hfront with heq | hfront
      · exact .inl (String.toList_inj.1 (List.append_cancel_right heq).symm)
      · exact .inr hfront

/-- Nothing is above a root but, by its text, the root of one slash above that of two. -/
theorem not_isBelow_root (hpath : Path.normalize path ≠ "/") (hp : p = "/" ∨ p = "//") :
    isBelow (Path.normalize path) p = false := by
  rw [Bool.eq_false_iff]
  intro hbelow
  have hfilled : (Path.normalize path).toList ≠ [] := by
    rw [Path.normalize, String.toList_ofList]
    exact Path.normalChars_ne_nil _
  obtain ⟨c, rest, hchars⟩ := List.exists_cons_of_ne_nil hfilled
  rw [isBelow, List.isPrefixOf_iff_prefix, hchars] at hbelow
  rcases hp with rfl | rfl
  · simp at hbelow
  · obtain ⟨rfl, hrest⟩ : c = '/' ∧ rest ++ ['/'] <+: ['/'] := by simpa using hbelow
    obtain rfl : rest = [] := List.eq_nil_of_length_eq_zero (by simpa using hrest.length_le)
    exact hpath (String.toList_injective hchars)

/-- What goes with a path that is no root has it among the directories above. -/
theorem goesWith_iff_mem_ancestors (hroots : Path.normalize path ≠ "/" ∧ Path.normalize path ≠ "//")
    (hp : Path.Clean p) : GoesWith path p ↔ Path.normalize path ∈ Path.ancestors p := by
  -- One directory up at a time, until a root is reached, above which nothing is.
  fun_induction Path.ancestors p with
  | case1 p hroot =>
    rw [GoesWith, not_isBelow_root hroots.1 (hp.root_of_dirname_eq hroot), List.mem_singleton, eq_comm]
    simp
  | case2 p hroot _ ih =>
    rw [List.mem_cons, ← ih hp.dirname]
    constructor
    · rintro (hsame | hbelow)
      · exact .inl hsame.symm
      · exact .inr (dirname_of_isBelow hp hbelow)
    · rintro (hsame | hgoes)
      · exact .inl hsame.symm
      · exact isBelow_of_dirname hp hroots hgoes

/-- A path that is no root takes with it exactly what lies at it or below it. -/
theorem AllClean.mem_remove_iff (h : t.AllClean) (hroots : Path.normalize path ≠ "/" ∧ Path.normalize path ≠ "//")
    (p : String) :
    (p ∈ (t.remove path).files ↔ p ∈ t.files ∧ Path.normalize path ∉ Path.ancestors p) ∧
      (p ∈ (t.remove path).directories ↔ p ∈ t.directories ∧ Path.normalize path ∉ Path.ancestors p) := by
  rw [mem_remove.1, mem_remove.2]
  constructor
  · exact and_congr_right fun hp => not_congr (goesWith_iff_mem_ancestors hroots (h p (.inl hp)))
  · exact and_congr_right fun hp => not_congr (goesWith_iff_mem_ancestors hroots (h p (.inr hp)))

/-- A directory that holds something which goes goes itself, or is the one that the path lies in. -/
theorem goesWith_dirname (hp : Path.Clean p) (h : GoesWith path p) :
    GoesWith path (Path.dirname p) ∨ Path.dirname p = Path.dirname (Path.normalize path) := by
  rcases h with rfl | h
  · exact .inr rfl
  · exact .inl (dirname_of_isBelow hp h)

/-- What went has no entries. -/
theorem entriesAt_remove (hnormal : Path.normalize p = p) (h : GoesWith path p) : (t.remove path).entriesAt p = [] := by
  refine List.eq_nil_iff_forall_not_mem.2 fun e he => ?_
  obtain ⟨-, hthere, -⟩ := mem_entriesAt.1 he
  rw [hnormal] at hthere
  exact (mem_remove.2.1 hthere).2 h

/-- A directory that stayed, and that the path did not lie right in, has the entries that it had. -/
theorem entriesAt_remove_eq (hclean : t.AllClean) (hnormal : Path.normalize p = p) (h : ¬ GoesWith path p)
    (hparent : Path.dirname (Path.normalize path) ≠ p) : (t.remove path).entriesAt p = t.entriesAt p := by
  have hsame : (t.remove path).listing p = t.listing p := by
    refine (Mutation.edits (.remove path) t).listing_eq fun q hq => ⟨?_, ?_⟩
    · rintro rfl
      exact h (changed_remove.1 hq).2
    · rintro rfl
      have hcleanq := hq.clean hclean (hclean.apply (m := .remove path) trivial)
      rcases goesWith_dirname hcleanq (changed_remove.1 hq).2 with hgone | heq
      · exact h hgone
      · exact hparent heq.symm
  rw [entriesAt, entriesAt, hnormal, hsame]

/-- The first member of a kind is the first one of a narrower kind if it is of that kind. -/
theorem find?_eq_of_imp {α : Type} {wide narrow : α → Bool} {xs : List α} (himp : ∀ x, narrow x = true → wide x = true)
    (hfirst : ∀ x, xs.find? wide = some x → narrow x = true) : xs.find? narrow = xs.find? wide := by
  induction xs with
  | nil => rfl
  | cons x xs ih =>
    rw [List.find?_cons, List.find?_cons] at *
    cases hwide : wide x with
    | true =>
      rw [hwide] at hfirst
      rw [hfirst x rfl]
    | false =>
      rw [hwide] at hfirst
      have hnarrow : narrow x = false := Bool.eq_false_iff.2 fun h => by simp [himp x h] at hwide
      rw [hnarrow]
      exact ih hfirst

/-- The root of a directory stays what it is if there was none, or its marker stays. -/
theorem nearestMarked_remove {marker start : String}
    (h : ∀ root, Path.nearestMarked t.presence marker start = some root →
      (t.remove path).presence (Path.join root marker) = true) :
    Path.nearestMarked (t.remove path).presence marker start = Path.nearestMarked t.presence marker start :=
  find?_eq_of_imp (fun _ hd => (holds_remove.1 hd).1) h

end DocRefs.Tree
