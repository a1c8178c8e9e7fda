import DocRefs.Proofs.Attempts
import DocRefs.Proofs.Reference.Reading
import Mathlib

/-!
# The references of a text are all its occurrences

The scan tries the offsets of a text from left to right and goes on behind each reference that it finds, so in principle
it could pass over one that begins inside another. It never does: the brace that opens a reference stands nowhere else
in it (`Form.ne_brace_of_mem_tail`), so the scan finds a reference at every offset at which one stands
(`Form.mem_findFrom`), and no two of them overlap (`Form.pairwise_findFrom`).
-/

namespace DocRefs

/-! ## Occurrences -/

/-- The stretch of a text from one offset to another. -/
def stretch (text : List Char) (i j : Nat) : List Char :=
  (text.drop i).take (j - i)

/-- A text that is a reference as it is written, with its path. -/
def IsReference (text path : List Char) : Prop :=
  ∃ f : Form, f.WellFormed ∧ f.text = text ∧ f.path = path

/-- Between two offsets of a text stands a reference. -/
def OccursAt (text : List Char) (i j : Nat) : Prop :=
  i ≤ j ∧ j ≤ text.length ∧ ∃ path, IsReference (stretch text i j) path

/-- What stands between two offsets is in front of what stands behind them. -/
theorem stretch_append_drop (text : List Char) {i j : Nat} (h : i ≤ j) :
    stretch text i j ++ text.drop j = text.drop i := by
  have hdrop : (text.drop i).drop (j - i) = text.drop j := by
    rw [List.drop_drop]
    congr 1
    omega
  rw [stretch, ← hdrop, List.take_append_drop]

/-- A stretch of a text is as long as its ends are apart. -/
theorem length_stretch (text : List Char) {i j : Nat} (h : j ≤ text.length) : (stretch text i j).length = j - i := by
  simp only [stretch, List.length_take, List.length_drop]
  omega

namespace Form

/-! ## The opening brace -/

/-- A block holds no opening brace. -/
theorem brace_notMem_block {b : Block} (h : b.WellFormed) : '{' ∉ b.text := by
  have hgap : '{' ∉ b.gap := fun hc => absurd (h.gap.2 _ hc) (by decide)
  have hbody : '{' ∉ b.body := fun hc => absurd (h.body.2 _ hc) (by decide)
  have hlabel : '{' ∉ b.label.elim [] Label.text := by
    cases b.label with
    | none => decide
    | some label => cases label <;> decide
  simp [Block.text, hgap, hbody, hlabel]

/-- The opening brace stands only at the beginning of a reference. -/
theorem ne_brace_of_mem_tail {f : Form} (h : f.WellFormed) : ∀ c ∈ f.text.tail, c ≠ '{' := by
  have hmark : '{' ≠ f.family.mark := by cases f.family <;> decide
  have hmodifier : '{' ∉ f.modifier.toList := fun hc => absurd (h.modifier _ (by simpa using hc)) (by decide)
  have hgap : '{' ∉ f.gap := fun hc => absurd (h.gap.2 _ hc) (by decide)
  have hpath : '{' ∉ f.path := fun hc => absurd (h.path.2 _ hc) (by decide)
  have hblocks : '{' ∉ f.blocks.flatMap Block.text := fun hc => by
    obtain ⟨b, hb, hc⟩ := List.mem_flatMap.1 hc
    exact brace_notMem_block (h.blocks b hb) hc
  have htail : '{' ∉ f.tail := fun hc => absurd (h.tail _ hc) (by decide)
  rintro c hc rfl
  simp [text, opener, hmark, hmodifier, hgap, hpath, hblocks, htail] at hc

theorem text_eq_cons (f : Form) : f.text = '{' :: f.text.tail := rfl

/-- What does not begin with the opening brace does not begin with a reference. -/
theorem read?_eq_none {c : Char} {rest : List Char} (h : c ≠ '{') : read? (c :: rest) = none := by
  cases hr : read? (c :: rest) with
  | none => rfl
  | some fr =>
    obtain ⟨f, after⟩ := fr
    obtain ⟨-, htext⟩ := eq_text_of_read? hr
    rw [text_eq_cons] at htext
    exact absurd (List.cons.inj htext).1 h

/-! ## The scan -/

/-- The offsets of a text that is left from an offset on: that offset itself, and those of the text without its first
character. -/
theorem exists_offset_cons {P : Nat → List Char → Prop} {c : Char} {rest : List Char} :
    (∃ k, P k ((c :: rest).drop k)) ↔ P 0 (c :: rest) ∨ ∃ k, P (k + 1) (rest.drop k) := by
  constructor
  · rintro ⟨k, hk⟩
    cases k with
    | zero => exact .inl hk
    | succ k => exact .inr ⟨k, hk⟩
  · rintro (h | ⟨k, hk⟩)
    · exact ⟨0, h⟩
    · exact ⟨k + 1, hk⟩

/-- The scan finds a form at an offset exactly when that form is read there. Characters are passed over only where none
of them opens a reference. -/
theorem mem_findFrom {offset skip : Nat} {text : List Char} (hskip : ∀ c ∈ text.take skip, c ≠ '{') {i : Nat}
    {f : Form} :
    (i, f) ∈ findFrom offset skip text ↔ ∃ k, i = offset + k ∧ ∃ rest, read? (text.drop k) = some (f, rest) := by
  fun_induction findFrom offset skip text with
  | case1 offset skip =>
    have hnil : read? [] = none := rfl
    simp [hnil]
  | case2 offset c rest skip ih =>
    have hc : c ≠ '{' := hskip c (by simp)
    rw [ih fun d hd => hskip d (by simp [hd]),
      exists_offset_cons (P := fun k l => i = offset + k ∧ ∃ rest, read? l = some (f, rest))]
    simp [read?_eq_none hc, Nat.add_assoc, Nat.add_comm 1]
  | case3 offset c rest hread ih =>
    rw [ih (by simp), exists_offset_cons (P := fun k l => i = offset + k ∧ ∃ rest, read? l = some (f, rest))]
    simp [hread, Nat.add_assoc, Nat.add_comm 1]
  | case4 offset c rest form after hread ih =>
    obtain ⟨hform, htext⟩ := eq_text_of_read? hread
    have hrest : rest = form.text.tail ++ after := by
      rw [text_eq_cons, List.cons_append] at htext
      exact (List.cons.inj htext).2
    have htake : rest.take (form.text.length - 1) = form.text.tail := by
      rw [hrest, ← List.length_tail, List.take_left]
    rw [List.mem_cons, ih (by rw [htake]; exact ne_brace_of_mem_tail hform),
      exists_offset_cons (P := fun k l => i = offset + k ∧ ∃ rest, read? l = some (f, rest))]
    simp [hread, eq_comm, Nat.add_assoc, Nat.add_comm 1]

/-- The scan finds nothing before its offset, nor among the characters that it passes over. -/
theorem le_of_mem_findFrom {offset skip : Nat} {text : List Char} {p : Nat × Form} (h : p ∈ findFrom offset skip text) :
    offset + skip ≤ p.1 := by
  fun_induction findFrom offset skip text with
  | case1 => simp at h
  | case2 offset c rest skip ih =>
    have := ih h
    omega
  | case3 offset c rest hread ih =>
    have := ih h
    omega
  | case4 offset c rest form after hread ih =>
    rcases List.mem_cons.1 h with rfl | h
    · simp
    · have := ih h
      omega

/-- Each reference that the scan finds ends before the next one begins. -/
theorem pairwise_findFrom (offset skip : Nat) (text : List Char) :
    (findFrom offset skip text).Pairwise fun p q => p.1 + p.2.text.length ≤ q.1 := by
  fun_induction findFrom offset skip text with
  | case1 => exact List.Pairwise.nil
  | case2 offset c rest skip ih => exact ih
  | case3 offset c rest hread ih => exact ih
  | case4 offset c rest form after hread ih =>
    refine List.pairwise_cons.2 ⟨?_, ih⟩
    intro q hq
    have hle := le_of_mem_findFrom hq
    have hlen : form.text.length = form.text.tail.length + 1 := congrArg List.length form.text_eq_cons
    simp only at hle ⊢
    omega

/-- The scan finds a reference at an offset exactly when it stands there in the text. -/
theorem mem_findAll {text : List Char} {i : Nat} {f : Form} :
    (i, f) ∈ findAll text ↔ f.WellFormed ∧ ∃ rest, text.drop i = f.text ++ rest := by
  rw [findAll, mem_findFrom (by simp)]
  simp [read?_eq_some_iff]

/-- Each reference that the scan finds begins before the next one. -/
theorem pairwise_findAll (text : List Char) : (findAll text).Pairwise fun p q => p.1 < q.1 := by
  refine (pairwise_findFrom 0 0 text).imp fun {p q} hle => ?_
  have hlen : p.2.text.length = p.2.text.tail.length + 1 := congrArg List.length p.2.text_eq_cons
  omega

/-- What the scan finds is the one list, from left to right, of the references that stand in the text. -/
theorem eq_findAll {text : List Char} {places : List (Nat × Form)} (hsorted : places.Pairwise fun p q => p.1 < q.1)
    (hmem : ∀ p, p ∈ places ↔ p.2.WellFormed ∧ ∃ rest, text.drop p.1 = p.2.text ++ rest) : places = findAll text := by
  have hirrefl : Std.Irrefl fun p q : Nat × Form => p.1 < q.1 := ⟨fun p => Nat.lt_irrefl p.1⟩
  have hantisymm : Std.Antisymm fun p q : Nat × Form => p.1 < q.1 :=
    ⟨fun p q hpq hqp => absurd (Nat.lt_trans hpq hqp) (Nat.lt_irrefl p.1)⟩
  exact hsorted.eq_of_mem_iff (pairwise_findAll text) fun p => (hmem p).trans mem_findAll.symm

/-- The scan finds a reference between two offsets exactly when one occurs there. -/
theorem occursAt_iff {text : List Char} {i j : Nat} :
    OccursAt text i j ↔ ∃ f, (i, f) ∈ findAll text ∧ j = i + f.text.length := by
  constructor
  · rintro ⟨hij, hj, path, f, hf, htext, -⟩
    have hlen := length_stretch text (i := i) hj
    refine ⟨f, mem_findAll.2 ⟨hf, text.drop j, ?_⟩, ?_⟩
    · rw [htext, stretch_append_drop text hij]
    · rw [htext]
      omega
  · rintro ⟨f, hmem, rfl⟩
    obtain ⟨hf, rest, hdrop⟩ := mem_findAll.1 hmem
    have hlen := congrArg List.length hdrop
    have hlen' : f.text.length = f.text.tail.length + 1 := congrArg List.length f.text_eq_cons
    simp only [List.length_drop, List.length_append] at hlen
    refine ⟨by omega, by omega, f.path, f, hf, ?_, rfl⟩
    rw [stretch, hdrop, Nat.add_sub_cancel_left, List.take_left]

/-- Where the scan finds a reference, that one and no other is written. -/
theorem isReference_iff {text : List Char} {i : Nat} {f : Form} (h : (i, f) ∈ findAll text) (path : List Char) :
    IsReference (stretch text i (i + f.text.length)) path ↔ path = f.path := by
  obtain ⟨hf, rest, hdrop⟩ := mem_findAll.1 h
  have htext : stretch text i (i + f.text.length) = f.text := by
    rw [stretch, hdrop, Nat.add_sub_cancel_left, List.take_left]
  rw [htext]
  constructor
  · rintro ⟨g, hg, hgf, rfl⟩
    rw [text_inj hg hf hgf]
  · rintro rfl
    exact ⟨f, hf, rfl, rfl⟩

/-- The parts of a reference that do not depend on its ranges are taken from its form. -/
theorem of_toReference {offset : Nat} {f : Form} {r : Reference} (h : f.toReference offset = .ok r) :
    r.filePath = String.ofList f.path ∧ r.span = ⟨offset, offset + f.text.length⟩ := by
  obtain ⟨blocks, -, hr⟩ := bind_eq_ok_iff.1 h
  rw [← Except.ok.inj hr]
  exact ⟨rfl, rfl⟩

end Form

/-- Every reported reference is that of a form which the scan finds. -/
theorem Reference.exists_form_of_mem_scan {text : String} {refs : List Reference} (h : Reference.scan text = .ok refs)
    {r : Reference} (hr : r ∈ refs) : ∃ p ∈ Form.findAll text.toList, Form.toReference p.1 p.2 = .ok r :=
  exists_of_mem_mapM h hr

/-- The spans that are reported are the places of the forms which the scan finds, in order. -/
theorem Reference.spans_eq {text : String} {refs : List Reference} (h : Reference.scan text = .ok refs) :
    refs.map (·.span) = (Form.findAll text.toList).map fun p => ⟨p.1, p.1 + p.2.text.length⟩ :=
  map_eq_of_mapM h fun _ _ hr => (Form.of_toReference hr).2

/-- A reference is reported at a place exactly when one is written there. -/
theorem Reference.exists_span_iff {text : String} {refs : List Reference}
    (h : Reference.scan text = .ok refs) {i j : Nat} : (∃ r ∈ refs, r.span = ⟨i, j⟩) ↔ OccursAt text.toList i j := by
  have hmem : (∃ r ∈ refs, r.span = ⟨i, j⟩) ↔ (⟨i, j⟩ : Span) ∈ refs.map (·.span) := by simp
  rw [hmem, Reference.spans_eq h, Form.occursAt_iff, List.mem_map]
  constructor
  · rintro ⟨⟨k, f⟩, hf, heq⟩
    simp only [Span.mk.injEq] at heq
    obtain rfl : k = i := by omega
    exact ⟨f, hf, by omega⟩
  · rintro ⟨f, hf, rfl⟩
    exact ⟨(i, f), hf, by simp⟩

/-- At the place of a reference stands the form that the scan found. -/
theorem Form.stretch_span {text : List Char} {i : Nat} {f : Form} {r : Reference} (hmem : (i, f) ∈ findAll text)
    (h : f.toReference i = .ok r) : stretch text r.span.start.toNat r.span.stop.toNat = f.text := by
  obtain ⟨-, rest, hdrop⟩ := mem_findAll.1 hmem
  have hstop : ((i : Int) + (f.text.length : Int)).toNat = i + f.text.length := by omega
  rw [(of_toReference h).2]
  simp only [Int.toNat_natCast, hstop]
  rw [stretch, hdrop, Nat.add_sub_cancel_left, List.take_left]

/-- The form of a reported reference is the one that is written at its place. -/
theorem Reference.toReference_of_text_eq {text : String} {refs : List Reference} (h : Reference.scan text = .ok refs)
    {r : Reference} (hr : r ∈ refs) {f : Form} (hf : f.WellFormed)
    (htext : f.text = stretch text.toList r.span.start.toNat r.span.stop.toNat) :
    f.toReference r.span.start.toNat = .ok r := by
  obtain ⟨⟨i, g⟩, hmem, href⟩ := Reference.exists_form_of_mem_scan h hr
  rw [Form.stretch_span hmem href] at htext
  rw [Form.text_inj hf (Form.mem_findAll.1 hmem).1 htext, (Form.of_toReference href).2, Int.toNat_natCast]
  exact href

/-- The scan finds exactly the references of a text. The spans that it reports are all the pairs of offsets between
which a reference is written, each once, from left to right and none overlapping another, and the path that it reports
of each is the one path that is written there. -/
theorem Reference.scan_finds_occurrences {text : String} {refs : List Reference} (h : Reference.scan text = .ok refs) :
    (∃ places : List (Nat × Nat),
      refs.map (·.span) = places.map (fun p => ⟨p.1, p.2⟩) ∧
      (∀ i j, (i, j) ∈ places ↔ OccursAt text.toList i j) ∧
      places.Pairwise (fun p q => p.1 < q.1 ∧ p.2 ≤ q.1)) ∧
    ∀ r ∈ refs, ∀ path,
      IsReference (stretch text.toList r.span.start.toNat r.span.stop.toNat) path ↔ path = r.filePath.toList := by
  refine ⟨⟨(Form.findAll text.toList).map fun p => (p.1, p.1 + p.2.text.length), ?_, ?_, ?_⟩, ?_⟩
  · rw [Reference.spans_eq h, List.map_map]
    rfl
  · intro i j
    rw [Form.occursAt_iff, List.mem_map]
    constructor
    · rintro ⟨⟨k, f⟩, hf, heq⟩
      obtain ⟨rfl, rfl⟩ := Prod.mk.inj heq
      exact ⟨f, hf, rfl⟩
    · rintro ⟨f, hf, rfl⟩
      exact ⟨(i, f), hf, rfl⟩
  · rw [List.pairwise_map]
    refine (Form.pairwise_findFrom 0 0 text.toList).imp fun {p q} hle => ⟨?_, hle⟩
    have hlen : p.2.text.length = p.2.text.tail.length + 1 := congrArg List.length p.2.text_eq_cons
    omega
  · intro r hr path
    obtain ⟨⟨i, f⟩, hf, href⟩ := Reference.exists_form_of_mem_scan h hr
    obtain ⟨hpath, hspan⟩ := Form.of_toReference href
    have hstop : ((i : Int) + (f.text.length : Int)).toNat = i + f.text.length := by omega
    rw [hspan, hpath, String.toList_ofList]
    simp only [Int.toNat_natCast, hstop]
    exact Form.isReference_iff hf path

/-- A reference that stands behind an unclosed opener, with a stray brace behind it. -/
theorem Reference.scan_finds_occurrences_unclosed :
    Reference.scan "{* a {!> b.md [1] !} }" = .ok [⟨"b.md", none, none, ⟨5, 20⟩⟩] ∧
    ∀ i j, OccursAt "{* a {!> b.md [1] !} }".toList i j ↔ i = 5 ∧ j = 20 := by
  have hscan : Reference.scan "{* a {!> b.md [1] !} }" = .ok [⟨"b.md", none, none, ⟨5, 20⟩⟩] := by cbv
  refine ⟨hscan, ?_⟩
  intro i j
  obtain ⟨⟨places, hspans, hoccurs, -⟩, -⟩ := Reference.scan_finds_occurrences hscan
  obtain ⟨p, rfl, hp⟩ := List.map_eq_singleton_iff.1 hspans.symm
  obtain ⟨hstart, hstop⟩ := Span.mk.inj hp
  rw [← hoccurs, List.mem_singleton, Prod.ext_iff]
  dsimp only
  omega

end DocRefs
