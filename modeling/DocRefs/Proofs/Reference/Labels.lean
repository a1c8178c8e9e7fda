import DocRefs.Proofs.Reference.Ranges
import Mathlib

/-!
# When labels count

Two recognisers read a reference: one takes it from the text with all its blocks, whatever blanks part them, and one
takes the labelled blocks from it once more, to set the range fields. Before the second stands a test of the reference's
text: a single space has to stand right before some keyword and its bracket. The test sees the blanks of the blocks
(`Form.labelsCount_iff`), so a reference whose labelled blocks all follow a tab or a line break has no ranges
(`Reference.tab_hides_label`). Once it is passed, every labelled block sets its field, and a change of blanks alone
changes the ranges exactly when it changes the outcome of the test (`Reference.labelled_blocks_set_ranges`).
-/

namespace DocRefs

/-- Somewhere in a text a single space stands right before a keyword and its bracket. -/
def HasSpacedLabel (text : List Char) : Prop :=
  ∃ label : Label, ' ' :: (label.text ++ ['[']) <:+: text

/-- Where a text is cut at a character that its first part does not hold, the cut lies in the second part. -/
theorem exists_of_append_eq_append_cons {c : Char} {u v before after : List Char} (hc : c ∉ u)
    (h : u ++ v = before ++ c :: after) : ∃ k, before = u ++ k ∧ v = k ++ c :: after := by
  induction u generalizing before with
  | nil => exact ⟨before, rfl, h⟩
  | cons x u ih =>
    rw [List.mem_cons, not_or] at hc
    cases before with
    | nil => exact absurd (List.cons.inj h).1.symm hc.1
    | cons y before =>
      obtain ⟨rfl, hrest⟩ := List.cons.inj h
      obtain ⟨k, rfl, hv⟩ := ih hc.2 hrest
      exact ⟨k, rfl, hv⟩

/-! ## The brackets of a reference -/

/-- The keyword of a block, if it has one, as it is written. -/
def Block.keyword (b : Block) : List Char :=
  b.label.elim [] Label.text

/-- A block is what stands before its bracket, the bracket, its body and the end. -/
theorem Block.text_eq (b : Block) : b.text = (b.gap ++ b.keyword) ++ '[' :: (b.body ++ [']']) := by
  rw [Block.text, List.append_assoc, Block.keyword]

/-- The opening bracket of a block stands behind its keyword. -/
theorem Block.bracket_notMem {b : Block} (h : b.WellFormed) : '[' ∉ b.gap ++ b.keyword ∧ '[' ∉ b.body ++ [']'] := by
  have hgap : '[' ∉ b.gap := fun hc => absurd (h.gap.2 _ hc) (by decide)
  have hbody : '[' ∉ b.body := fun hc => absurd (h.body.2 _ hc) (by decide)
  have hkeyword : '[' ∉ b.keyword := by
    rw [Block.keyword]
    cases b.label with
    | none => decide
    | some label => cases label <;> decide
  exact ⟨by simp [hgap, hkeyword], by simp [hbody]⟩

/-- Every opening bracket among blocks is that of one of them: right before it stand the blanks and the keyword of that
block. -/
theorem Block.exists_of_bracket {bs : List Block} (h : ∀ b ∈ bs, b.WellFormed) {closer before after : List Char}
    (hcloser : '[' ∉ closer) (htext : bs.flatMap Block.text ++ closer = before ++ '[' :: after) :
    ∃ b ∈ bs, b.gap ++ b.keyword <:+ before := by
  induction bs generalizing before with
  | nil =>
    rw [List.flatMap_nil, List.nil_append] at htext
    exact absurd (htext ▸ List.mem_append_right before List.mem_cons_self) hcloser
  | cons b bs ih =>
    obtain ⟨hfront, hbody⟩ := Block.bracket_notMem (h b List.mem_cons_self)
    rw [List.flatMap_cons, Block.text_eq, List.append_assoc, List.append_assoc] at htext
    obtain ⟨k, rfl, hk⟩ := exists_of_append_eq_append_cons hfront htext
    cases k with
    | nil => exact ⟨b, List.mem_cons_self, by simp⟩
    | cons x k =>
      rw [List.cons_append, List.cons_append] at hk
      obtain ⟨k', rfl, hk'⟩ := exists_of_append_eq_append_cons hbody (List.cons.inj hk).2
      obtain ⟨b', hb', hsuffix⟩ := ih (fun b' hb' => h b' (List.mem_cons_of_mem b hb')) hk'
      refine ⟨b', List.mem_cons_of_mem b hb', hsuffix.trans ?_⟩
      exact ⟨b.gap ++ b.keyword ++ x :: (b.body ++ [']']), by simp⟩

/-- Where blanks with a keyword or none behind them end in a space and a keyword, the keyword is that one and the space
their last blank. -/
theorem Block.spaced_of_suffix {b : Block} (h : b.WellFormed) {label : Label} {before : List Char}
    (hsuffix : b.gap ++ b.keyword <:+ before ++ [' '] ++ label.text) :
    b.label = some label ∧ b.gap.getLast? = some ' ' := by
  obtain ⟨front, hfront⟩ := hsuffix
  rw [← List.append_assoc] at hfront
  cases hb : b.label with
  | none =>
    -- a keyword ends in no blank, so it does not stand among those of an unlabelled block
    have hlast := congrArg List.getLast? hfront
    rw [Block.keyword, hb, Option.elim_none, List.append_nil, List.getLast?_append_of_ne_nil _ h.gap.1,
      List.getLast?_append_of_ne_nil _ (by cases label <;> simp [Label.text])] at hlast
    cases label with
    | lines => exact absurd (h.gap.2 'n' (List.mem_of_getLast? hlast)) (by decide)
    | highlight => exact absurd (h.gap.2 'l' (List.mem_of_getLast? hlast)) (by decide)
  | some label' =>
    rw [Block.keyword, hb, Option.elim_some] at hfront
    obtain ⟨hgap, hlabel⟩ := List.append_inj' hfront (by cases label <;> cases label' <;> rfl)
    have hlast := congrArg List.getLast? hgap
    rw [List.getLast?_append_of_ne_nil _ h.gap.1, List.getLast?_append_of_ne_nil _ (by simp)] at hlast
    refine ⟨?_, hlast⟩
    cases label <;> cases label' <;> simp_all [Label.text]

namespace Form

/-- Every opening bracket of a reference is that of one of its blocks. -/
theorem exists_block_of_bracket {f : Form} (h : f.WellFormed) {before after : List Char}
    (htext : f.text = before ++ '[' :: after) : ∃ b ∈ f.blocks, b.gap ++ b.keyword <:+ before := by
  have hopener : '[' ∉ f.opener := by
    have hmark : '[' ≠ f.family.mark := by cases f.family <;> decide
    have hmodifier : '[' ∉ f.modifier.toList := fun hc => absurd (h.modifier _ (by simpa using hc)) (by decide)
    have hgap : '[' ∉ f.gap := fun hc => absurd (h.gap.2 _ hc) (by decide)
    simp [opener, hmark, hmodifier, hgap]
  have hpath : '[' ∉ f.path := fun hc => absurd (h.path.2 _ hc) (by decide)
  have hcloser : '[' ∉ f.tail ++ [f.family.mark, '}'] := by
    have hmark : '[' ≠ f.family.mark := by cases f.family <;> decide
    have htail : '[' ∉ f.tail := fun hc => absurd (h.tail _ hc) (by decide)
    simp [hmark, htail]
  obtain ⟨k, rfl, hk⟩ := exists_of_append_eq_append_cons hopener htext
  obtain ⟨k', rfl, hk'⟩ := exists_of_append_eq_append_cons hpath hk
  obtain ⟨b, hb, hsuffix⟩ := Block.exists_of_bracket h.blocks hcloser hk'
  exact ⟨b, hb, hsuffix.trans ⟨f.opener ++ f.path, by simp⟩⟩

/-- The test of a reference's text sees a block whose keyword follows a space. -/
theorem hasSpacedLabel_of_mem {f : Form} {b : Block} (hb : b ∈ f.blocks) {label : Label} (hlabel : b.label = some label)
    (hgap : b.gap.getLast? = some ' ') : HasSpacedLabel f.text := by
  have hblock : ' ' :: (label.text ++ ['[']) <:+: b.text := by
    refine ⟨b.gap.dropLast, b.body ++ [']'], ?_⟩
    rw [Block.text_eq, Block.keyword, hlabel]
    nth_rewrite 2 [← List.dropLast_append_getLast? ' ' hgap]
    simp
  obtain ⟨bs, bs', hbs⟩ := List.append_of_mem hb
  have hmem : b.text <:+: f.text :=
    ⟨f.opener ++ (f.path ++ bs.flatMap Block.text),
      bs'.flatMap Block.text ++ (f.tail ++ [f.family.mark, '}']), by simp [text, hbs]⟩
  exact ⟨label, hblock.trans hmem⟩

/-- Labels count in a reference exactly when a single space stands right before some keyword and its bracket. -/
theorem labelsCount_iff {f : Form} (h : f.WellFormed) : f.LabelsCount ↔ HasSpacedLabel f.text := by
  constructor
  · rintro ⟨b, hb, hlabel, hgap⟩
    obtain ⟨label, hlabel⟩ := Option.isSome_iff_exists.1 hlabel
    exact hasSpacedLabel_of_mem hb hlabel hgap
  · rintro ⟨label, before, after, htext⟩
    have hcut : f.text = (before ++ [' '] ++ label.text) ++ '[' :: after := by
      rw [← htext]
      simp
    obtain ⟨b, hb, hsuffix⟩ := exists_block_of_bracket h hcut
    obtain ⟨hlabel, hgap⟩ := Block.spaced_of_suffix (h.blocks b hb) hsuffix
    exact ⟨b, hb, by rw [hlabel, Option.isSome_some], hgap⟩

/-! ## Blocks but for their blanks -/

/-- Two references have the same blocks, but for the blanks that stand before them. -/
def SameBlocks (f g : Form) : Prop :=
  f.blocks.map (fun b => (b.label, b.body)) = g.blocks.map (fun b => (b.label, b.body))

/-- The last body of a label is that of the last block with the label. -/
theorem lastBody?_eq (f : Form) (label : Label) :
    f.lastBody? label =
      ((f.blocks.map fun b => (b.label, b.body)).reverse.find? (·.1 = some label)).map (·.2) := by
  rw [lastBody?, ← List.map_reverse, List.find?_map, Option.map_map]
  rfl

/-- The last block with a label does not depend on blanks. -/
theorem SameBlocks.lastBody?_eq {f g : Form} (h : f.SameBlocks g) (label : Label) :
    f.lastBody? label = g.lastBody? label := by
  rw [Form.lastBody?_eq, Form.lastBody?_eq, h]

/-- Where labels count, there is a block with some label. -/
theorem exists_lastBody?_of_labelsCount {f : Form} (h : f.LabelsCount) :
    ∃ label body, f.lastBody? label = some body := by
  obtain ⟨b, hb, hlabel, -⟩ := h
  obtain ⟨label, hlabel⟩ := Option.isSome_iff_exists.1 hlabel
  refine ⟨label, Option.isSome_iff_exists.1 ?_⟩
  rw [lastBody?, Option.isSome_map, List.find?_isSome]
  exact ⟨b, List.mem_reverse.2 hb, decide_eq_true hlabel⟩

variable {i j : Nat} {f g : Form} {r r' : Reference}

/-- Where labels count, each field holds what is read from the last block with its label. -/
theorem rel_of_labelsCount (hr : f.toReference i = .ok r) (h : f.LabelsCount) (label : Label) :
    Option.Rel (fun body ranges => Range.parseList (String.ofList body) =
      .ok ranges) (f.lastBody? label) (r.rangesFor label) := by
  rw [← find?_labelled h]
  exact rel_parseList hr label

/-- Where labels do not count, both fields are empty. -/
theorem rangesFor_of_not_labelsCount (hr : f.toReference i = .ok r) (h : ¬ f.LabelsCount) (label : Label) :
    r.rangesFor label = none := by
  have hrel := rel_parseList hr label
  rw [labelled_of_not_labelsCount h] at hrel
  generalize r.rangesFor label = ranges at hrel
  cases hrel
  rfl

/-- Labels count in a reference exactly when it has ranges. -/
theorem labelsCount_iff_exists_ranges (hr : f.toReference i = .ok r) :
    f.LabelsCount ↔ ∃ label ranges, r.rangesFor label = some ranges := by
  constructor
  · intro h
    obtain ⟨label, body, hbody⟩ := exists_lastBody?_of_labelsCount h
    have hrel := rel_of_labelsCount hr h label
    rw [hbody] at hrel
    generalize hfield : r.rangesFor label = field at hrel
    cases hrel with
    | some _ => exact ⟨label, _, hfield⟩
  · rintro ⟨label, ranges, hranges⟩
    by_contra h
    rw [rangesFor_of_not_labelsCount hr h] at hranges
    cases hranges

/-- From one block only one list of ranges is read. -/
theorem eq_of_rel_parseList {body : Option (List Char)} {ranges ranges' : Option (List Range)}
    (h : Option.Rel (fun body ranges => Range.parseList (String.ofList body) = .ok ranges) body ranges)
    (h' : Option.Rel (fun body ranges => Range.parseList (String.ofList body) = .ok ranges) body ranges') :
    ranges = ranges' := by
  cases h with
  | none =>
    cases h'
    rfl
  | some hparse =>
    cases h' with
    | some hparse' => rw [Except.ok.inj (hparse.symm.trans hparse')]

/-- Two references that have the same blocks have the same ranges exactly when labels count in both or in neither. -/
theorem rangesFor_eq_iff (hr : f.toReference i = .ok r) (hr' : g.toReference j = .ok r') (hsame : f.SameBlocks g) :
    (∀ label, r.rangesFor label = r'.rangesFor label) ↔ (f.LabelsCount ↔ g.LabelsCount) := by
  constructor
  · intro heq
    rw [labelsCount_iff_exists_ranges hr, labelsCount_iff_exists_ranges hr']
    simp only [heq]
  · intro hcount label
    by_cases h : f.LabelsCount
    · have hrel := rel_of_labelsCount hr h label
      rw [hsame.lastBody?_eq] at hrel
      exact eq_of_rel_parseList hrel (rel_of_labelsCount hr' (hcount.1 h) label)
    · rw [rangesFor_of_not_labelsCount hr h, rangesFor_of_not_labelsCount hr' (mt hcount.2 h)]

end Form

namespace Reference

/-- In a text, a reference is written as a form. -/
def WrittenAs (r : Reference) (text : String) (f : Form) : Prop :=
  f.WellFormed ∧ f.text = stretch text.toList r.span.start.toNat r.span.stop.toNat

variable {text : String} {refs : List Reference} {r : Reference}

/-- A reference that a scan reports is written as one form and no other. -/
theorem exists_writtenAs (h : scan text = .ok refs) (hr : r ∈ refs) : ∃ f, ∀ g, r.WrittenAs text g ↔ g = f := by
  obtain ⟨⟨i, f⟩, hmem, href⟩ := exists_form_of_mem_scan h hr
  have hf := (Form.mem_findAll.1 hmem).1
  have htext := Form.stretch_span hmem href
  refine ⟨f, fun g => ⟨?_, ?_⟩⟩
  · rintro ⟨hg, hgtext⟩
    exact Form.text_inj hg hf (hgtext.trans htext)
  · rintro rfl
    exact ⟨hf, htext.symm⟩

/-- Which fields the labelled blocks of a reference set. Where a single space stands right before some keyword and its
bracket, each field holds the ranges of the last block with its label, and is empty where there is no such block; where
none does, both fields are empty. So a reference that is written with other blanks, in the same text or another one,
keeps its ranges exactly when both or neither have such a space. -/
theorem labelled_blocks_set_ranges (h : scan text = .ok refs) (hr : r ∈ refs) :
    ∃ f, (∀ g, r.WrittenAs text g ↔ g = f) ∧
      (HasSpacedLabel f.text → ∀ label,
        Option.Rel (fun body ranges => Range.parseList (String.ofList body) =
          .ok ranges) (f.lastBody? label) (r.rangesFor label)) ∧
      (¬ HasSpacedLabel f.text → ∀ label, r.rangesFor label = none) ∧
      ∀ text' refs' r' g, scan text' = .ok refs' → r' ∈ refs' → r'.WrittenAs text' g → f.SameBlocks g →
        ((∀ label, r.rangesFor label = r'.rangesFor label) ↔ (HasSpacedLabel f.text ↔ HasSpacedLabel g.text)) := by
  obtain ⟨f, hwritten⟩ := exists_writtenAs h hr
  obtain ⟨hf, htext⟩ := (hwritten f).2 rfl
  have href := toReference_of_text_eq h hr hf htext
  refine ⟨f, hwritten, ?_⟩
  rw [← Form.labelsCount_iff hf]
  refine ⟨Form.rel_of_labelsCount href, Form.rangesFor_of_not_labelsCount href, ?_⟩
  intro text' refs' r' g h' hr' ⟨hg, htext'⟩ hsame
  rw [← Form.labelsCount_iff hg]
  exact Form.rangesFor_eq_iff href (toReference_of_text_eq h' hr' hg htext') hsame

/-- The reference `{* a ln[1] *}` with given blanks before its block. -/
def lineOne (gap : List Char) : Form :=
  .withBlock ⟨gap, some .lines, ['1']⟩

theorem wellFormed_lineOne {gap : List Char} (h : IsGap gap) : (lineOne gap).WellFormed :=
  Form.wellFormed_withBlock ⟨h, by simp, List.forall_mem_singleton.2 (by decide)⟩

/-- A space or a line break with a space: the block sets its field alike. -/
theorem labelled_blocks_set_ranges_wrapped :
    ∃ r r', scan "\x7b* a ln[1] *\x7d" = .ok [r] ∧ scan "\x7b* a\n ln[1] *\x7d" = .ok [r'] ∧
      r.lineRanges = some [.lines 1 1] ∧ ∀ label, r.rangesFor label = r'.rangesFor label := by
  have hscan : scan "\x7b* a ln[1] *\x7d" = .ok [⟨"a", some [.lines 1 1], none, ⟨0, 13⟩⟩] := by cbv
  have hscan' : scan "\x7b* a\n ln[1] *\x7d" = .ok [⟨"a", some [.lines 1 1], none, ⟨0, 14⟩⟩] := by cbv
  refine ⟨_, _, hscan, hscan', rfl, ?_⟩
  have hwritten : WrittenAs ⟨"a", some [.lines 1 1], none, ⟨0, 13⟩⟩ "\x7b* a ln[1] *\x7d" (lineOne [' ']) :=
    ⟨wellFormed_lineOne (by simp [IsGap, isBlank]), rfl⟩
  have hwritten' : WrittenAs ⟨"a", some [.lines 1 1], none, ⟨0, 14⟩⟩ "\x7b* a\n ln[1] *\x7d" (lineOne ['\n', ' ']) :=
    ⟨wellFormed_lineOne (by simp [IsGap, isBlank]), rfl⟩
  obtain ⟨f, hform, -, -, hother⟩ := labelled_blocks_set_ranges hscan (List.mem_singleton.2 rfl)
  obtain rfl := (hform _).1 hwritten
  refine (hother _ _ _ _ hscan' (List.mem_singleton.2 rfl) hwritten' rfl).2 (iff_of_true ?_ ?_)
  · exact Form.hasSpacedLabel_of_mem List.mem_cons_self rfl rfl
  · exact Form.hasSpacedLabel_of_mem List.mem_cons_self rfl rfl

/-- A tab instead of the space: the reference is read with its block, but the block sets no field. -/
theorem tab_hides_label :
    scan "\x7b* a\tln[1] *\x7d" = .ok [⟨"a", none, none, ⟨0, 13⟩⟩] ∧
    WrittenAs ⟨"a", none, none, ⟨0, 13⟩⟩ "\x7b* a\tln[1] *\x7d" (lineOne ['\t']) ∧
    (lineOne ['\t']).lastBody? .lines = some ['1'] ∧ Range.parseList "1" = .ok [.lines 1 1] ∧
    scan "\x7b* a ln[1] *\x7d" = .ok [⟨"a", some [.lines 1 1], none, ⟨0, 13⟩⟩] := by
  exact ⟨by cbv, ⟨wellFormed_lineOne (by simp [IsGap, isBlank]), rfl⟩, rfl, rfl, by cbv⟩

end Reference

end DocRefs
