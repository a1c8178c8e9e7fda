import DocRefs.Proofs.Reference.Occurrences
import DocRefs.Proofs.Text.Offsets

/-!
# The range of a reference selects it

A reference begins with a brace and ends with one, so neither of its ends tears a line end apart (`Form.untorn_start`,
`Form.untorn_stop`). Its range therefore leads back to its two offsets, and what stands between them is by itself a text
with this one reference (`Reference.selects_rangeOf`). The ranges of the references of a text follow one another
(`Reference.pairwise_ranges`).
-/

namespace DocRefs

/-! ## Where a line end may be torn apart -/

namespace Form

variable {text rest : List Char} {i : Nat} {f : Form}

theorem length_text (f : Form) : f.text.length = f.text.tail.length + 1 :=
  congrArg List.length f.text_eq_cons

/-- A reference ends with the closing brace. -/
theorem exists_text_eq_concat (f : Form) : ∃ front, f.text = front ++ ['}'] :=
  ⟨f.opener ++ (f.path ++ (f.blocks.flatMap Block.text ++ (f.tail ++ [f.family.mark]))), by simp [text]⟩

/-- A reference that stands in a text ends in it. -/
theorem stop_le (hdrop : text.drop i = f.text ++ rest) : i + f.text.length ≤ text.length := by
  have hlength := congrArg List.length hdrop
  have hpos := f.length_text
  rw [List.length_drop, List.length_append] at hlength
  omega

/-- What stands before the end of a reference is what stands before its beginning, and the reference. -/
theorem take_stop (hdrop : text.drop i = f.text ++ rest) : text.take (i + f.text.length) = text.take i ++ f.text := by
  rw [List.take_add, hdrop, List.take_left]

/-- No line end is torn apart by the place at which a reference begins. -/
theorem untorn_start (hdrop : text.drop i = f.text ++ rest) : Untorn text i :=
  untorn_of_drop (by rw [hdrop, f.text_eq_cons, List.cons_append]) (by decide)

/-- Nor by the place at which it ends. -/
theorem untorn_stop (hdrop : text.drop i = f.text ++ rest) : Untorn text (i + f.text.length) := by
  obtain ⟨front, hfront⟩ := f.exists_text_eq_concat
  intro more _
  rw [take_stop hdrop, hfront, ← List.append_assoc, List.getLast?_concat]
  decide

/-- In the line of its beginning the opening brace of a reference stands at the column of its beginning. -/
theorem brace_at_start (hdrop : text.drop i = f.text ++ rest) :
    0 ≤ (positionAt text i).character ∧
      (lineText text (positionAt text i).line)[(positionAt text i).character.toNat]? = some '{' := by
  have hstop := stop_le hdrop
  obtain ⟨l, ls, hrest, hline, hcolumn⟩ := lineText_positionAt (by omega) (untorn_start hdrop)
  rw [hdrop, f.text_eq_cons, List.cons_append] at hrest
  obtain ⟨m, ms, -, hcons⟩ := splitLines_cons '{' (f.text.tail ++ rest) (by decide) (by decide)
  obtain ⟨rfl, -⟩ := List.cons.inj (hrest.symm.trans hcons)
  rw [hline, hcolumn]
  simp

/-- In the line of its end the closing brace of a reference stands right before the column of its end. -/
theorem brace_at_stop (hdrop : text.drop i = f.text ++ rest) {j : Nat} (hj : j = i + f.text.length) :
    1 ≤ (positionAt text j).character ∧
      (lineText text (positionAt text j).line)[(positionAt text j).character.toNat - 1]? = some '}' := by
  subst hj
  obtain ⟨l, ls, -, hline, hcolumn⟩ := lineText_positionAt (stop_le hdrop) (untorn_stop hdrop)
  obtain ⟨front, htext⟩ := f.exists_text_eq_concat
  have hrun : lastRun isInLine (text.take (i + f.text.length)) = lastRun isInLine (text.take i ++ front) ++ ['}'] := by
    rw [take_stop hdrop, htext, ← List.append_assoc]
    refine lastRun_append _ fun c hc => ?_
    rw [List.mem_singleton.1 hc]
    decide
  rw [hrun] at hline hcolumn
  rw [hline, hcolumn]
  simp

/-! ## A reference by itself -/

/-- A written reference is the only one in its own text. -/
theorem findAll_text (hf : f.WellFormed) : findAll f.text = [(0, f)] := by
  refine (eq_findAll (List.pairwise_singleton _ _) ?_).symm
  rintro ⟨i, g⟩
  rw [List.mem_singleton]
  constructor
  · intro heq
    obtain ⟨rfl, rfl⟩ := Prod.mk.inj heq
    exact ⟨hf, [], by simp⟩
  · rintro ⟨hg, rest, hdrop⟩
    have hopens : f.text[i]? = some '{' := by
      rw [← List.head?_drop, hdrop, text_eq_cons]
      rfl
    cases i with
    | zero =>
      rw [List.drop_zero, ← List.append_nil f.text] at hdrop
      rw [(text_append_inj hf hg hdrop).1]
    | succ i =>
      rw [text_eq_cons, List.getElem?_cons_succ] at hopens
      exact absurd rfl (ne_brace_of_mem_tail hf _ (List.mem_of_getElem? hopens))

/-- The reference that a form writes does not depend on its offset but for the span. -/
theorem toReference_of_labelled {f g : Form} (hpath : g.path = f.path)
    (hlabelled : g.labelled = f.labelled) (offset other : Nat) :
    g.toReference other = (f.toReference offset).map fun r => { r with span := ⟨other, other + g.text.length⟩ } := by
  unfold toReference
  rw [hpath, hlabelled]
  cases f.labelled.mapM fun x =>
    (do return (x.1, ← Range.ofSegments (fields ',' x.2)) : Except NumeralTooLong (Label × List Range)) <;> rfl

end Form

/-- A range of a text leads back to the two ends of a reference, from its opening brace to behind its closing one, and
what it selects is by itself a text with this one reference. -/
structure TextRange.Selects (text : List Char) (range : TextRange) (r : Reference) : Prop where
  start : offsetOf? text range.start = some r.span.start
  stop : offsetOf? text range.stop = some r.span.stop
  opens : 0 ≤ range.start.character ∧ range.start.character < (lineText text range.start.line).length ∧
    (lineText text range.start.line)[range.start.character.toNat]? = some '{'
  closes : 1 ≤ range.stop.character ∧ (lineText text range.stop.line)[range.stop.character.toNat - 1]? = some '}'
  ordered : range.start.Before range.stop
  alone : Reference.scan (String.ofList (stretch text r.span.start.toNat r.span.stop.toNat)) =
    .ok [{ r with span := ⟨0, r.span.stop - r.span.start⟩ }]

namespace Reference

variable {text : String} {refs : List Reference}

/-- A reported reference stands at its place as a form. -/
theorem exists_drop_of_mem_scan (h : scan text = .ok refs) {r : Reference} (hr : r ∈ refs) :
    ∃ (i : Nat) (f : Form) (rest : List Char), f.WellFormed ∧ text.toList.drop i = f.text ++ rest ∧
      f.toReference i = .ok r ∧
      r.span = ⟨i, (i + f.text.length : Nat)⟩ := by
  obtain ⟨⟨i, f⟩, hmem, href⟩ := exists_form_of_mem_scan h hr
  obtain ⟨hf, rest, hdrop⟩ := Form.mem_findAll.1 hmem
  exact ⟨i, f, rest, hf, hdrop, href, by rw [(Form.of_toReference href).2, Nat.cast_add]⟩

/-- A reference by itself is reported as it is inside a text. -/
theorem scan_stretch {r : Reference} {i : Nat} {f : Form} {rest : List Char} (hf : f.WellFormed)
    (hdrop : text.toList.drop i = f.text ++ rest) (href : f.toReference i = .ok r) :
    scan (String.ofList (stretch text.toList i (i + f.text.length))) = .ok [{ r with span := ⟨0, f.text.length⟩ }] := by
  have halone := Form.toReference_of_labelled (rfl : f.path = f.path) rfl i 0
  rw [href] at halone
  rw [stretch, hdrop, Nat.add_sub_cancel_left, List.take_left, scan, String.toList_ofList,
    Form.findAll_text hf, List.mapM_cons]
  simp [halone, Except.map, bind, Except.bind, pure, Except.pure]

/-- The range of a reported reference selects it. -/
theorem selects_rangeOf (h : scan text = .ok refs) {r : Reference} (hr : r ∈ refs) :
    (rangeOf text.toList r.span).Selects text.toList r := by
  obtain ⟨i, f, rest, hf, hdrop, href, hspan⟩ := exists_drop_of_mem_scan h hr
  have hstop := Form.stop_le hdrop
  have hlength := f.length_text
  obtain ⟨hcolumn, hopens⟩ := Form.brace_at_start hdrop
  have halone := scan_stretch hf hdrop href
  rw [rangeOf, hspan]
  refine ⟨?_, ?_, ⟨hcolumn, ?_, hopens⟩, Form.brace_at_stop hdrop rfl, ?_, ?_⟩
  · rw [hspan]
    exact offsetOf?_positionAt (by omega) (Form.untorn_start hdrop)
  · rw [hspan]
    exact offsetOf?_positionAt hstop (Form.untorn_stop hdrop)
  · have hin := (List.getElem?_eq_some_iff.1 hopens).1
    dsimp only
    omega
  · exact positionAt_before (by omega) hstop (Form.untorn_start hdrop)
  · rw [hspan, Int.toNat_natCast, Int.toNat_natCast, halone]
    simp

/-- The ranges of the references of a text follow one another, none beginning before the one in front of it has
ended. -/
theorem pairwise_ranges (h : scan text = .ok refs) :
    refs.Pairwise fun r r' => (rangeOf text.toList r.span).stop = (rangeOf text.toList r'.span).start ∨
      (rangeOf text.toList r.span).stop.Before (rangeOf text.toList r'.span).start := by
  have hspans : (refs.map (·.span)).Pairwise fun s s' : Span => s.stop ≤ s'.start := by
    rw [spans_eq h, List.pairwise_map]
    refine (Form.pairwise_findFrom 0 0 text.toList).imp fun {p q} hle => ?_
    dsimp only
    omega
  refine (List.pairwise_map.1 hspans).imp_of_mem fun {r r'} hr hr' hle => ?_
  obtain ⟨i, f, rest, -, hdrop, -, hspan⟩ := exists_drop_of_mem_scan h hr
  obtain ⟨i', f', rest', -, hdrop', -, hspan'⟩ := exists_drop_of_mem_scan h hr'
  have hstop' := Form.stop_le hdrop'
  simp only [rangeOf, hspan, hspan'] at hle ⊢
  rcases (Int.ofNat_le.1 hle).eq_or_lt with heq | hlt
  · exact .inl (by rw [heq])
  · exact .inr (positionAt_before hlt (by omega) (Form.untorn_stop hdrop))

/-- The ranges of the references of a text begin one behind the other. -/
theorem pairwise_starts (h : scan text = .ok refs) :
    refs.Pairwise fun r r' => (rangeOf text.toList r.span).start.Before (rangeOf text.toList r'.span).start := by
  refine (pairwise_ranges h).imp_of_mem fun {r r'} hr _ hnext => ?_
  have hordered := (selects_rangeOf h hr).ordered
  rcases hnext with heq | hbefore
  · rwa [heq] at hordered
  · exact hordered.trans hbefore

end Reference

end DocRefs
