import DocRefs.Diagnostic
import DocRefs.Proofs.Reference.Places
import Mathlib.Data.List.Nodup

/-!
# What diagnostics tell

No two references of a document are at one range (`Reference.nodup_ranges`), so its diagnostics tell which references
have a target and which have none (`Diagnostic.ofReferences_eq_iff`).
-/

namespace DocRefs

/-- The references of a text are at different ranges. -/
theorem Reference.nodup_ranges {text : String} {refs : List Reference} (h : Reference.scan text = .ok refs) :
    (refs.map fun r => rangeOf text.toList r.span).Nodup := by
  refine List.pairwise_map.2 ((Reference.pairwise_starts h).imp fun {r r'} hbefore heq => ?_)
  rw [heq] at hbefore
  exact Position.Before.irrefl _ hbefore

/-- Two choices among elements that a function tells apart have the same images only if they are one choice. -/
theorem map_filter_eq_iff {α β : Type} {f : α → β} {xs : List α} (h : (xs.map f).Nodup) {p q : α → Bool} :
    (xs.filter p).map f = (xs.filter q).map f ↔ ∀ x ∈ xs, p x = q x := by
  constructor
  · intro heq x hx
    have hmem : ∀ choice : α → Bool, f x ∈ (xs.filter choice).map f ↔ choice x = true := by
      intro choice
      constructor
      · intro himage
        obtain ⟨y, hy, hyx⟩ := List.mem_map.1 himage
        obtain ⟨hyin, hchoice⟩ := List.mem_filter.1 hy
        rwa [← List.inj_on_of_nodup_map h hyin hx hyx]
      · exact fun hchoice => List.mem_map_of_mem (List.mem_filter.2 ⟨hx, hchoice⟩)
    rw [Bool.eq_iff_iff, ← hmem p, ← hmem q, heq]
  · intro hall
    rw [List.filter_congr hall]

/-- The references of a document have the same diagnostics under two resolutions exactly when each has a target under
both or under neither. -/
theorem Diagnostic.ofReferences_eq_iff {d : Document} {refs : List Reference} (h : Reference.scan d.text = .ok refs)
    (path path' : Reference → String) (present present' : Reference → Bool) :
    Diagnostic.ofReferences d (refs.map fun r => ⟨r, path r, present r⟩) =
      Diagnostic.ofReferences d (refs.map fun r => ⟨r, path' r, present' r⟩) ↔ ∀ r ∈ refs, present r = present' r := by
  have himage : ∀ (p : Reference → String) (choice : Reference → Bool),
      Diagnostic.ofReferences d (refs.map fun r => ⟨r, p r, choice r⟩) =
        (refs.filter fun r => !choice r).map fun r =>
          ⟨rangeOf d.text.toList r.span, Diagnostic.missingFile r.filePath⟩ := by
    intro p choice
    simp only [Diagnostic.ofReferences, List.filter_map, List.map_map, Function.comp_def]
  have hnodup : (refs.map fun r =>
      (⟨rangeOf d.text.toList r.span, Diagnostic.missingFile r.filePath⟩ : Diagnostic)).Nodup := by
    refine List.Nodup.of_map Diagnostic.range ?_
    rw [List.map_map]
    exact Reference.nodup_ranges h
  rw [himage, himage, map_filter_eq_iff hnodup]
  simp

end DocRefs
