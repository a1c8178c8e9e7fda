import DocRefs.Proofs.Text.Runs
import DocRefs.Reference.Scan

/-!
# Reading accepts exactly the written forms

`Form.read?` reads a reference from the front of a text without ever taking anything back. Here: what it reads is a
well-formed reference as it is written (`Form.eq_text_of_read?`), and it reads every well-formed reference, whatever
follows it (`Form.read?_text`). So a text has at most one reference at its front, and no reference is the beginning of
another.
-/

namespace DocRefs

/-! ## The classes of characters do not meet -/

/-- Six characters are blank. -/
theorem isBlank_iff (c : Char) :
    isBlank c = true ↔ c = ' ' ∨ c = '\t' ∨ c = '\n' ∨ c = '\r' ∨ c = '\x0b' ∨ c = '\x0c' := by
  simp [isBlank, or_assoc]

/-- No blank is part of a path. -/
theorem isPathChar_of_isBlank {c : Char} (h : isBlank c = true) : isPathChar c = false := by
  rcases (isBlank_iff c).1 h with rfl | rfl | rfl | rfl | rfl | rfl <;> decide

/-- No blank is a modifier. -/
theorem isModifier_of_isBlank {c : Char} (h : isBlank c = true) : isModifier c = false := by
  rcases (isBlank_iff c).1 h with rfl | rfl | rfl | rfl | rfl | rfl <;> decide

theorem isBlank_of_isPathChar {c : Char} (h : isPathChar c = true) : isBlank c = false := by
  cases hb : isBlank c with
  | false => rfl
  | true => exact absurd h (by simp [isPathChar_of_isBlank hb])

/-- No mark is blank. -/
theorem Family.isBlank_mark (family : Family) : isBlank family.mark = false := by
  cases family <;> decide

/-- No mark is part of a path. -/
theorem Family.isPathChar_mark (family : Family) : isPathChar family.mark = false := by
  cases family <;> decide

/-- A family is read from its mark. -/
theorem Family.ofMark?_mark (family : Family) : Family.ofMark? family.mark = some family := by
  cases family <;> decide

theorem Family.mark_of_ofMark? {c : Char} {family : Family} (h : Family.ofMark? c = some family) : family.mark = c := by
  unfold Family.ofMark? at h
  split at h
  · rename_i hc
    rw [← Option.some.inj h, hc]
    rfl
  · split at h
    · rename_i hc
      rw [← Option.some.inj h, hc]
      rfl
    · simp at h

/-! ## Blocks -/

/-- The keyword of a block is read back in front of its bracket. -/
theorem Label.split_text (label : Option Label) (rest : List Char) :
    Label.split (label.elim [] Label.text ++ '[' :: rest) = (label, '[' :: rest) := by
  cases label with
  | none => rfl
  | some label => cases label <;> rfl

/-- What a keyword is read from is the keyword as it is written and the rest. -/
theorem Label.eq_text_of_split {text rest : List Char} {label : Option Label} (h : Label.split text = (label, rest)) :
    text = label.elim [] Label.text ++ rest := by
  unfold Label.split at h
  split at h <;> obtain ⟨rfl, rfl⟩ := Prod.mk.inj h <;> rfl

/-- The blanks in front of a block end at its keyword or its bracket. -/
theorem Label.endsRun_text (label : Option Label) (rest : List Char) :
    EndsRun isBlank (label.elim [] Label.text ++ '[' :: rest) := by
  cases label with
  | none => exact endsRun_cons (by decide)
  | some label => cases label <;> exact endsRun_cons (by decide)

theorem Block.text_append (b : Block) (rest : List Char) :
    b.text ++ rest = b.gap ++ (b.label.elim [] Label.text ++ '[' :: (b.body ++ ']' :: rest)) := by
  simp [Block.text]

/-- A well-formed block is read back, whatever follows it. -/
theorem Block.read?_text {b : Block} (h : b.WellFormed) (rest : List Char) :
    Block.read? (b.text ++ rest) = some (b, rest) := by
  have hgap := Label.endsRun_text b.label (b.body ++ ']' :: rest)
  have hbody : EndsRun isBodyChar (']' :: rest) := endsRun_cons (by decide)
  have hg : b.gap.isEmpty = false := by simpa using h.gap.1
  have hb : b.body.isEmpty = false := by simpa using h.body.1
  rw [Block.text_append]
  simp only [Block.read?, takeWhile_run h.gap.2 hgap, dropWhile_run h.gap.2 hgap, Label.split_text,
    takeWhile_run h.body.2 hbody, dropWhile_run h.body.2 hbody, hg, hb, Bool.or_self, Bool.false_eq_true, ↓reduceIte]

/-- A block that is read is well-formed, and is what stands in front of the rest. -/
theorem Block.eq_text_of_read? {text rest : List Char} {b : Block} (h : Block.read? text = some (b, rest)) :
    b.WellFormed ∧ text = b.text ++ rest := by
  unfold Block.read? at h
  generalize hs : Label.split (text.dropWhile isBlank) = s at h
  obtain ⟨label, after⟩ := s
  have htext := Label.eq_text_of_split hs
  simp only at h
  split at h
  · rename_i inner
    split at h
    · rename_i behind hbehind
      split at h
      · simp at h
      · rename_i hne
        simp only [Bool.or_eq_true, List.isEmpty_iff, not_or] at hne
        obtain ⟨rfl, rfl⟩ := Prod.mk.inj (Option.some.inj h)
        refine ⟨⟨⟨hne.1, fun c hc => of_mem_takeWhile hc⟩, hne.2, fun c hc => of_mem_takeWhile hc⟩, ?_⟩
        rw [Block.text_append, ← hbehind, List.takeWhile_append_dropWhile, ← htext, List.takeWhile_append_dropWhile]
    · simp at h
  · simp at h

/-- Well-formed blocks are read back, if no block follows them. -/
theorem Block.readAll_text {bs : List Block} (h : ∀ b ∈ bs, b.WellFormed) {rest : List Char}
    (hrest : Block.read? rest = none) : Block.readAll (bs.flatMap Block.text ++ rest) = (bs, rest) := by
  induction bs with
  | nil =>
    rw [List.flatMap_nil, List.nil_append, Block.readAll]
    split
    · rfl
    · rename_i hsome
      simp [hrest] at hsome
  | cons b bs ih =>
    have hread := Block.read?_text (h b (by simp)) (bs.flatMap Block.text ++ rest)
    rw [List.flatMap_cons, List.append_assoc, Block.readAll]
    split
    · rename_i hnone
      simp [hread] at hnone
    · rename_i b' rest' hsome
      obtain ⟨rfl, rfl⟩ := Prod.mk.inj (Option.some.inj (hread.symm.trans hsome))
      rw [ih fun c hc => h c (by simp [hc])]

/-- Blocks that are read are well-formed, and are what stands in front of the rest. -/
theorem Block.eq_text_of_readAll (text : List Char) :
    (∀ b ∈ (Block.readAll text).1, b.WellFormed) ∧
      text = (Block.readAll text).1.flatMap Block.text ++ (Block.readAll text).2 := by
  fun_induction Block.readAll text with
  | case1 text h => simp
  | case2 text b rest h hlt bs others hrec ih =>
    obtain ⟨hb, rfl⟩ := Block.eq_text_of_read? h
    rw [hrec] at ih
    refine ⟨?_, ?_⟩
    · intro c hc
      rcases List.mem_cons.1 hc with rfl | hc
      · exact hb
      · exact ih.1 c hc
    · rw [List.flatMap_cons, List.append_assoc, ← ih.2]

/-! ## References -/

namespace Form

/-- A modifier is read back in front of a character that is none. -/
theorem splitModifier_append {modifier : Option Char} (hm : ∀ c ∈ modifier, isModifier c) {rest : List Char}
    (hrest : EndsRun isModifier rest) : splitModifier (modifier.toList ++ rest) = (modifier, rest) := by
  cases modifier with
  | none =>
    cases rest with
    | nil => rfl
    | cons c rest => simp [splitModifier, hrest c rfl]
  | some c => simp [splitModifier, hm c rfl]

/-- What a modifier is read from is the modifier and the rest. -/
theorem eq_of_splitModifier {text rest : List Char} {modifier : Option Char}
    (h : splitModifier text = (modifier, rest)) : (∀ c ∈ modifier, isModifier c) ∧ text = modifier.toList ++ rest := by
  unfold splitModifier at h
  split at h
  · split at h
    · rename_i c rest' hc
      obtain ⟨rfl, rfl⟩ := Prod.mk.inj h
      exact ⟨fun d hd => Option.some.inj hd ▸ hc, rfl⟩
    · obtain ⟨rfl, rfl⟩ := Prod.mk.inj h
      exact ⟨by simp, rfl⟩
  · obtain ⟨rfl, rfl⟩ := Prod.mk.inj h
    exact ⟨by simp, rfl⟩

/-- A gap begins with a blank, which is no modifier. -/
theorem endsRun_gap {gap : List Char} (h : IsGap gap) (rest : List Char) : EndsRun isModifier (gap ++ rest) := by
  obtain ⟨hne, hall⟩ := h
  cases gap with
  | nil => exact absurd rfl hne
  | cons c gap => exact endsRun_cons (isModifier_of_isBlank (hall c (by simp)))

/-- An opener is read back in front of a character that is no blank. -/
theorem readOpener?_append {family : Family} {modifier : Option Char} {gap rest : List Char}
    (hm : ∀ c ∈ modifier, isModifier c) (hgap : IsGap gap) (hrest : EndsRun isBlank rest) :
    readOpener? ('{' :: family.mark :: (modifier.toList ++ gap) ++ rest) = some ((family, modifier, gap), rest) := by
  have hg : gap.isEmpty = false := by simpa using hgap.1
  have hsplit := splitModifier_append hm (endsRun_gap hgap rest)
  simp only [List.cons_append, List.append_assoc, readOpener?, Family.ofMark?_mark, Option.bind_some, hsplit,
    takeWhile_run hgap.2 hrest, dropWhile_run hgap.2 hrest, hg, Bool.false_eq_true, ↓reduceIte]

/-- An opener that is read is what stands in front of the rest, and the rest does not begin with a blank. -/
theorem eq_of_readOpener? {text rest : List Char} {family : Family} {modifier : Option Char} {gap : List Char}
    (h : readOpener? text = some ((family, modifier, gap), rest)) :
    (∀ c ∈ modifier, isModifier c) ∧ IsGap gap ∧ EndsRun isBlank rest ∧
      text = '{' :: family.mark :: (modifier.toList ++ gap) ++ rest := by
  unfold readOpener? at h
  split at h
  · rename_i mark inner
    obtain ⟨family', hfamily, hread⟩ := Option.bind_eq_some_iff.1 h
    split at hread
    rename_i modifier' after hs
    obtain ⟨hm, hinner⟩ := eq_of_splitModifier hs
    simp only at hread
    split at hread
    · simp at hread
    · rename_i hne
      simp only [List.isEmpty_iff] at hne
      simp only [Option.some.injEq, Prod.mk.injEq] at hread
      obtain ⟨⟨rfl, rfl, rfl⟩, rfl⟩ := hread
      refine ⟨hm, ⟨hne, fun c hc => of_mem_takeWhile hc⟩, endsRun_dropWhile, ?_⟩
      rw [Family.mark_of_ofMark? hfamily, List.cons_append, List.cons_append, List.append_assoc,
        List.takeWhile_append_dropWhile, hinner]
  · simp at h

/-- What closes a reference: blanks and its family's mark with a brace. -/
def closer (f : Form) : List Char :=
  f.tail ++ [f.family.mark, '}']

/-- A reference with more behind it, from one part to the next. -/
theorem text_append (f : Form) (rest : List Char) :
    f.text ++ rest =
      '{' :: f.family.mark :: (f.modifier.toList ++ f.gap) ++
        (f.path ++ (f.blocks.flatMap Block.text ++ (f.closer ++ rest))) := by
  simp [text, opener, closer]

/-- No block stands where a reference is closed. -/
theorem read?_closer {f : Form} (h : f.WellFormed) (rest : List Char) : Block.read? (f.closer ++ rest) = none := by
  have hmark : EndsRun isBlank (f.family.mark :: '}' :: rest) := endsRun_cons f.family.isBlank_mark
  have hsplit : Label.split (f.family.mark :: '}' :: rest) = (none, f.family.mark :: '}' :: rest) := by
    cases f.family <;> rfl
  have happ : f.closer ++ rest = f.tail ++ f.family.mark :: '}' :: rest := by simp [closer]
  rw [happ]
  simp only [Block.read?, dropWhile_run h.tail hmark, hsplit]
  cases f.family <;> rfl

/-- What follows a path does not go on with it: a block and a closer begin with a blank or a mark. -/
theorem endsRun_path {f : Form} (h : f.WellFormed) (rest : List Char) :
    EndsRun isPathChar (f.blocks.flatMap Block.text ++ (f.closer ++ rest)) := by
  have hblank : ∀ {gap : List Char}, (∀ c ∈ gap, isBlank c = true) → EndsRun isPathChar gap := by
    intro gap hall c hc
    exact isPathChar_of_isBlank (hall c (List.mem_of_mem_head? hc))
  have hclose : EndsRun isPathChar (f.closer ++ rest) := by
    rw [closer, List.append_assoc]
    exact endsRun_append (hblank h.tail) fun _ => endsRun_cons f.family.isPathChar_mark
  cases hbs : f.blocks with
  | nil => simpa using hclose
  | cons b bs =>
    have hb := h.blocks b (by simp [hbs])
    rw [List.flatMap_cons, List.append_assoc, Block.text_append]
    exact endsRun_append (hblank hb.gap.2) fun hnil => absurd hnil hb.gap.1

/-- A well-formed reference is read back, whatever follows it. -/
theorem read?_text {f : Form} (h : f.WellFormed) (rest : List Char) : read? (f.text ++ rest) = some (f, rest) := by
  have hpath := endsRun_path h rest
  have hmark : EndsRun isBlank (f.family.mark :: '}' :: rest) := endsRun_cons f.family.isBlank_mark
  have hgap : EndsRun isBlank (f.path ++ (f.blocks.flatMap Block.text ++ (f.closer ++ rest))) :=
    endsRun_append (fun c hc => isBlank_of_isPathChar (h.path.2 c (List.mem_of_mem_head? hc)))
      fun hnil => absurd hnil h.path.1
  have hp : f.path.isEmpty = false := by simpa using h.path.1
  have htail : f.closer ++ rest = f.tail ++ f.family.mark :: '}' :: rest := by simp [closer]
  rw [text_append, read?, readOpener?_append h.modifier h.gap hgap, Option.bind_some]
  simp only [takeWhile_run h.path.2 hpath, dropWhile_run h.path.2 hpath,
    Block.readAll_text h.blocks (read?_closer h rest)]
  rw [htail]
  simp [takeWhile_run h.tail hmark, dropWhile_run h.tail hmark, h.path.1]

/-- A reference that is read is well-formed, and is what stands in front of the rest. -/
theorem eq_text_of_read? {text rest : List Char} {f : Form} (h : read? text = some (f, rest)) :
    f.WellFormed ∧ text = f.text ++ rest := by
  unfold read? at h
  obtain ⟨⟨⟨family, modifier, gap⟩, inner⟩, hopen, hread⟩ := Option.bind_eq_some_iff.1 h
  obtain ⟨hm, hgap, -, htext⟩ := eq_of_readOpener? hopen
  obtain ⟨hblocks, hafter⟩ := Block.eq_text_of_readAll (inner.dropWhile isPathChar)
  simp only at hread
  generalize Block.readAll (inner.dropWhile isPathChar) = r at hread hblocks hafter
  obtain ⟨blocks, behind⟩ := r
  simp only at hread hblocks hafter
  split at hread
  · rename_i mark after hclose
    split at hread
    · simp at hread
    · rename_i hne
      simp only [Bool.or_eq_true, List.isEmpty_iff, bne_iff_ne, ne_eq, not_or, Decidable.not_not] at hne
      obtain ⟨hpath, rfl⟩ := hne
      obtain ⟨rfl, rfl⟩ := Prod.mk.inj (Option.some.inj hread)
      refine ⟨⟨hm, hgap, ⟨hpath, fun c hc => of_mem_takeWhile hc⟩, hblocks, fun c hc => of_mem_takeWhile hc⟩, ?_⟩
      have hbehind : behind = behind.takeWhile isBlank ++ family.mark :: '}' :: after := by
        rw [← hclose, List.takeWhile_append_dropWhile]
      have hinner : inner = inner.takeWhile isPathChar ++ (blocks.flatMap Block.text ++ behind) := by
        rw [← hafter, List.takeWhile_append_dropWhile]
      rw [htext, text_append]
      simp only [closer, List.append_assoc, List.cons_append, List.nil_append]
      rw [← hbehind, ← hinner]
  · simp at hread

/-- Reading gives a reference and a rest exactly when the text is that reference as it is written, and the rest. -/
theorem read?_eq_some_iff {text rest : List Char} {f : Form} :
    read? text = some (f, rest) ↔ f.WellFormed ∧ text = f.text ++ rest := by
  constructor
  · exact eq_text_of_read?
  · rintro ⟨h, rfl⟩
    exact read?_text h rest

/-- A text begins with at most one reference. -/
theorem text_append_inj {f g : Form} (hf : f.WellFormed) (hg : g.WellFormed) {r s : List Char}
    (h : f.text ++ r = g.text ++ s) : f = g ∧ r = s := by
  have hr := read?_text hf r
  rw [h, read?_text hg s] at hr
  obtain ⟨rfl, rfl⟩ := Prod.mk.inj (Option.some.inj hr)
  exact ⟨rfl, rfl⟩

/-- A reference is written in one way only. -/
theorem text_inj {f g : Form} (hf : f.WellFormed) (hg : g.WellFormed) (h : f.text = g.text) : f = g :=
  (text_append_inj hf hg (congrArg (· ++ []) h)).1

end Form

end DocRefs
