import DocRefs.Proofs.Range.Segments
import DocRefs.Proofs.Reference.Occurrences

/-!
# The ranges of a reference

A scan reads the ranges of every reference that it finds, and fails when one of them is oversized. Here: the scan of a
text succeeds exactly when no reference that is written in it has an oversized segment in a labelled block
(`Reference.scan_isOk_iff`), and then each range field holds what the segments of the last block with its label mean
(`Form.rel_rangesFor`).
-/

namespace DocRefs

/-- The ranges that a reference has under a label. -/
def Reference.rangesFor (r : Reference) : Label → Option (List Range)
  | .lines => r.lineRanges
  | .highlight => r.highlightRanges

namespace Form

/-- Labels are regarded in a reference where a single space stands right before one of them. -/
def LabelsCount (f : Form) : Prop :=
  ∃ b ∈ f.blocks, b.label.isSome ∧ b.gap.getLast? = some ' '

/-- The body of the last block with a label. -/
def lastBody? (f : Form) (label : Label) : Option (List Char) :=
  (f.blocks.reverse.find? (·.label = some label)).map (·.body)

/-- A reference with an oversized segment in a block whose label is regarded. -/
def Oversized (f : Form) : Prop :=
  f.LabelsCount ∧ ∃ b ∈ f.blocks, b.label.isSome ∧ ∃ segment ∈ fields ',' b.body, Range.Oversized segment

/-- Where labels count, the blocks with a label are labelled. -/
theorem labelled_of_labelsCount {f : Form} (h : f.LabelsCount) :
    f.labelled = f.blocks.filterMap fun b => b.label.map (·, b.body) := by
  obtain ⟨b, hb, hlabel, hgap⟩ := h
  rw [labelled, if_pos]
  exact List.any_eq_true.2 ⟨b, hb, by simp [hlabel, hgap]⟩

/-- Where labels do not count, no block is labelled. -/
theorem labelled_of_not_labelsCount {f : Form} (h : ¬ f.LabelsCount) : f.labelled = [] := by
  rw [labelled, if_neg]
  intro hany
  obtain ⟨b, hb, hc⟩ := List.any_eq_true.1 hany
  simp only [Bool.and_eq_true, beq_iff_eq] at hc
  exact h ⟨b, hb, hc⟩

/-- The labelled blocks that are read are those of the reference, if labels are regarded in it. -/
theorem mem_labelled_iff {f : Form} {label : Label} {body : List Char} :
    (label, body) ∈ f.labelled ↔ f.LabelsCount ∧ ∃ b ∈ f.blocks, b.label = some label ∧ b.body = body := by
  by_cases h : f.LabelsCount
  · rw [labelled_of_labelsCount h, List.mem_filterMap]
    simp [h]
  · rw [labelled_of_not_labelsCount h]
    simp [h]

/-- The reference `{* a .. *}` with a given block. -/
def withBlock (b : Block) : Form where
  family := .star
  modifier := none
  gap := [' ']
  path := ['a']
  blocks := [b]
  tail := [' ']

theorem wellFormed_withBlock {b : Block} (h : b.WellFormed) : (withBlock b).WellFormed := by
  have hspace : ∀ c ∈ [' '], isBlank c = true := List.forall_mem_singleton.2 (by decide)
  have hpath : ∀ c ∈ ['a'], isPathChar c = true := List.forall_mem_singleton.2 (by decide)
  exact ⟨by simp [withBlock], ⟨by simp [withBlock], hspace⟩,
    ⟨by simp [withBlock], hpath⟩, List.forall_mem_singleton.2 h, hspace⟩

/-! ## When reading fails -/

/-- A reference is not made exactly when one of its regarded blocks has an oversized segment. -/
theorem toReference_isError_iff {offset : Nat} {f : Form} : (∃ e, f.toReference offset = .error e) ↔ f.Oversized := by
  rw [toReference, bind_isError_iff]
  simp only [pure, Except.pure, reduceCtorEq, exists_false, and_false, or_false]
  rw [mapM_isError_iff]
  constructor
  · rintro ⟨⟨label, body⟩, hmem, e, he⟩
    obtain ⟨hcount, b, hb, hlabel, rfl⟩ := mem_labelled_iff.1 hmem
    have hsegments : ∃ e, Range.ofSegments (fields ',' b.body) = .error e := by
      cases hs : Range.ofSegments (fields ',' b.body) with
      | error e => exact ⟨e, rfl⟩
      | ok ranges => simp [hs, bind, Except.bind] at he
    obtain ⟨segment, hseg, hover⟩ := mapM_isError_iff.1 hsegments
    exact ⟨hcount, b, hb, by simp [hlabel], segment, hseg, Range.ofSegment_isError_iff.1 hover⟩
  · rintro ⟨hcount, b, hb, hlabel, segment, hseg, hover⟩
    obtain ⟨label, hlabel⟩ := Option.isSome_iff_exists.1 hlabel
    obtain ⟨e, he⟩ : ∃ e, Range.ofSegments (fields ',' b.body) = .error e :=
      mapM_isError_iff.2 ⟨segment, hseg, Range.ofSegment_of_oversized hover⟩
    exact ⟨(label, b.body), mem_labelled_iff.2 ⟨hcount, b, hb, hlabel, rfl⟩, e, by simp [he, bind, Except.bind]⟩

/-! ## What is read -/

/-- The first members that two related lists have of a kind are related, if the relation keeps to the kind. -/
theorem rel_find? {α β : Type} {R : α → β → Prop} {p : α → Bool} {q : β → Bool} {xs : List α} {ys : List β}
    (h : List.Forall₂ R xs ys) (hpq : ∀ x y, R x y → p x = q y) : Option.Rel R (xs.find? p) (ys.find? q) := by
  induction h with
  | nil => exact .none
  | @cons x y xs ys hxy _ ih =>
    rw [List.find?_cons, List.find?_cons, hpq x y hxy]
    cases q y with
    | true => exact .some hxy
    | false => exact ih

/-- The last labelled block that is read is the last one of the reference. -/
theorem find?_labelled {f : Form} (h : f.LabelsCount) (label : Label) :
    (f.labelled.reverse.find? (·.1 = label)).map (·.2) = f.lastBody? label := by
  rw [labelled_of_labelsCount h, ← List.filterMap_reverse, List.find?_filterMap, lastBody?]
  have hsame : (fun b : Block => (b.label.map (·, b.body)).any fun p => decide (p.1 = label)) =
      fun b => decide (b.label = some label) := by
    funext b
    cases b.label <;> simp
  rw [hsame]
  cases hfind : f.blocks.reverse.find? fun b => decide (b.label = some label) with
  | none => rfl
  | some b =>
    have hb := List.find?_some hfind
    simp only [decide_eq_true_eq] at hb
    simp [hb]

/-- The ranges that a reference has under a label are those read from the last block with that label, and it has none
where there is no such block or labels are not regarded. -/
theorem rel_parseList {offset : Nat} {f : Form} {r : Reference} (h : f.toReference offset = .ok r) (label : Label) :
    Option.Rel (fun body ranges => Range.parseList (String.ofList body) = .ok ranges)
      ((f.labelled.reverse.find? (·.1 = label)).map (·.2)) (r.rangesFor label) := by
  obtain ⟨blocks, hblocks, hr⟩ := bind_eq_ok_iff.1 h
  have hfield : r.rangesFor label = lastOf label blocks := by
    rw [← Except.ok.inj hr]
    cases label <;> rfl
  have hrel : List.Forall₂ (fun x y => x.1 = y.1 ∧
      Range.parseList (String.ofList x.2) = .ok y.2) f.labelled blocks := by
    refine (mapM_eq_ok_iff.1 hblocks).imp fun x y hxy => ?_
    obtain ⟨ranges, hranges, hy⟩ := bind_eq_ok_iff.1 hxy
    obtain rfl := Except.ok.inj hy
    exact ⟨rfl, by rw [Range.parseList, String.toList_ofList, hranges]⟩
  have hlast := rel_find? (List.forall₂_reverse_iff.2 hrel) (p := (·.1 = label)) (q := (·.1 = label))
    fun x y hxy => by rw [hxy.1]
  rw [hfield, lastOf]
  generalize (f.labelled.reverse.find? fun p => decide (p.1 = label)) = x,
    (blocks.reverse.find? fun p => decide (p.1 = label)) = y
    at hlast ⊢
  cases hlast with
  | none => exact .none
  | some hxy => exact .some hxy.2

/-- The ranges that a reference has under a label are what the segments of the last block with that label mean. -/
theorem rel_rangesFor {offset : Nat} {f : Form} {r : Reference} (h : f.toReference offset = .ok r) (label : Label) :
    Option.Rel (fun body ranges => List.Forall₂ Range.Denotes (fields ',' body) ranges)
      ((f.labelled.reverse.find? (·.1 = label)).map (·.2)) (r.rangesFor label) := by
  have hrel := rel_parseList h label
  generalize (f.labelled.reverse.find? (·.1 = label)).map (·.2) = body, r.rangesFor label = ranges at hrel ⊢
  cases hrel with
  | none => exact .none
  | some hparse =>
    have hmeans := Range.forall₂_denotes_of_parseList hparse
    rw [String.toList_ofList] at hmeans
    exact .some hmeans

end Form

/-- The scan of a text succeeds exactly when no reference that is written in it is oversized. -/
theorem Reference.scan_isOk_iff {text : String} :
    (∃ refs, Reference.scan text = .ok refs) ↔ ∀ f : Form, f.WellFormed → f.text <:+: text.toList → ¬ f.Oversized := by
  have herror : (∃ e, Reference.scan text = .error e) ↔ ∃ f : Form, f.WellFormed ∧
      f.text <:+: text.toList ∧ f.Oversized := by
    rw [Reference.scan, mapM_isError_iff]
    constructor
    · rintro ⟨⟨i, f⟩, hmem, herr⟩
      obtain ⟨hf, rest, hdrop⟩ := Form.mem_findAll.1 hmem
      refine ⟨f, hf, ⟨text.toList.take i, rest, ?_⟩, Form.toReference_isError_iff.1 herr⟩
      rw [List.append_assoc, ← hdrop, List.take_append_drop]
    · rintro ⟨f, hf, ⟨before, after, htext⟩, hover⟩
      refine ⟨(before.length, f), Form.mem_findAll.2 ⟨hf, after, ?_⟩, Form.toReference_isError_iff.2 hover⟩
      rw [← htext, List.append_assoc, List.drop_left]
  constructor
  · rintro ⟨refs, hrefs⟩ f hf hin hover
    obtain ⟨e, he⟩ := herror.2 ⟨f, hf, hin, hover⟩
    simp [he] at hrefs
  · intro hnone
    cases hscan : Reference.scan text with
    | ok refs => exact ⟨refs, rfl⟩
    | error e =>
      obtain ⟨f, hf, hin, hover⟩ := herror.1 ⟨e, hscan⟩
      exact absurd hover (hnone f hf hin)

end DocRefs
