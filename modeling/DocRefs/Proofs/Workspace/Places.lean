import DocRefs.Proofs.Reference.Places
import DocRefs.Proofs.Workspace.Requests

/-!
# What is reported about a document selects its references

A diagnostic and a link stand at the range of the reference that they are about, and this range selects the reference:
it leads back to its two offsets, whatever ends the lines before them and inside it
(`Workspace.ranges_select_references`).
-/

namespace DocRefs

namespace Workspace

variable {σ : Type} [FileSystem σ] {w : Workspace σ} {d : Document} {refs : List Reference}

/-- The diagnostics of a document stand at the ranges of some of its references, in order. -/
theorem lint_ranges_sublist (h : Reference.scan d.text = .ok refs) {a : Answer σ (List Diagnostic)}
    (hlint : w.lint d = .ok a) : (a.value.map (·.range)).Sublist (refs.map fun r => rangeOf d.text.toList r.span) := by
  obtain ⟨resolved, hresolved, ha⟩ := bind_eq_ok_iff.1 hlint
  obtain rfl := Except.ok.inj ha
  obtain rfl := Except.ok.inj (h.symm.trans (scan_of_resolve hresolved))
  rw [Diagnostic.ofReferences, List.map_map, List.map_map]
  exact List.filter_sublist.map _

/-- The links of a document stand at the ranges and the spans of some of its references, in order. -/
theorem links_ranges_sublist (h : Reference.scan d.text = .ok refs) {a : Answer σ (List Link)}
    (hlinks : w.links d = .ok a) :
    (a.value.map fun l => (l.range, l.span)).Sublist (refs.map fun r => (rangeOf d.text.toList r.span, r.span)) := by
  obtain ⟨resolved, hresolved, ha⟩ := bind_eq_ok_iff.1 hlinks
  obtain rfl := Except.ok.inj ha
  obtain rfl := Except.ok.inj (h.symm.trans (scan_of_resolve hresolved))
  rw [Link.ofReferences, List.map_map, List.map_map]
  exact List.filter_sublist.map _

/-- The range of every reference of a document selects it, and the ranges follow one another. The diagnostics of the
document and its links stand at such ranges, each at that of a reference of its own. -/
theorem ranges_select_references (w : Workspace σ) (d : Document) (h : Reference.scan d.text = .ok refs) :
    (∀ r ∈ refs, (rangeOf d.text.toList r.span).Selects d.text.toList r) ∧
    (refs.Pairwise fun r r' => (rangeOf d.text.toList r.span).stop = (rangeOf d.text.toList r'.span).start ∨
      (rangeOf d.text.toList r.span).stop.Before (rangeOf d.text.toList r'.span).start) ∧
    (∀ a, w.lint d = .ok a → (a.value.map (·.range)).Sublist (refs.map fun r => rangeOf d.text.toList r.span)) ∧
    ∀ a, w.links d = .ok a →
      (a.value.map fun l => (l.range, l.span)).Sublist (refs.map fun r => (rangeOf d.text.toList r.span, r.span)) :=
  ⟨fun _ hr => Reference.selects_rangeOf h hr, Reference.pairwise_ranges h, fun _ ha => lint_ranges_sublist h ha,
    fun _ ha => links_ranges_sublist h ha⟩

/-- A reference that is broken by a line end of two characters, behind another one, and right behind it a second
reference. -/
theorem ranges_select_references_broken :
    let text := "a\r\n\x7b*\r\nb ln[2] *\x7d\x7b! c !\x7d"
    Reference.scan text = .ok [⟨"b", some [.lines 2 2], none, ⟨3, 17⟩⟩, ⟨"c", none, none, ⟨17, 24⟩⟩] ∧
      rangeOf text.toList ⟨3, 17⟩ = ⟨⟨1, 0⟩, ⟨2, 10⟩⟩ ∧ rangeOf text.toList ⟨17, 24⟩ = ⟨⟨2, 10⟩, ⟨2, 17⟩⟩ ∧
      TextRange.Selects text.toList ⟨⟨1, 0⟩, ⟨2, 10⟩⟩ ⟨"b", some [.lines 2 2], none, ⟨3, 17⟩⟩ ∧
      TextRange.Selects text.toList ⟨⟨2, 10⟩, ⟨2, 17⟩⟩ ⟨"c", none, none, ⟨17, 24⟩⟩ := by
  intro text
  have hscan : Reference.scan text = .ok [⟨"b", some [.lines 2 2], none, ⟨3, 17⟩⟩, ⟨"c", none, none, ⟨17, 24⟩⟩] := by
    cbv
  have hfirst : rangeOf text.toList ⟨3, 17⟩ = ⟨⟨1, 0⟩, ⟨2, 10⟩⟩ := by cbv
  have hsecond : rangeOf text.toList ⟨17, 24⟩ = ⟨⟨2, 10⟩, ⟨2, 17⟩⟩ := by cbv
  obtain ⟨hselects, -⟩ := ranges_select_references (Workspace.new Tree.empty {} {}) ⟨"/p.md", text⟩ hscan
  have hb := hselects _ List.mem_cons_self
  have hc := hselects _ (List.mem_cons_of_mem _ List.mem_cons_self)
  rw [hfirst] at hb
  rw [hsecond] at hc
  exact ⟨hscan, hfirst, hsecond, hb, hc⟩

end Workspace

end DocRefs
