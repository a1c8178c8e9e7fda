import DocRefs.Proofs.Reference.Places
import DocRefs.Proofs.Text.LineEnds

/-!
# References and line ends

A line end inside a reference stands among its blanks, so writing it as a line feed changes the blanks of the reference
and nothing else (`Form.read?_unifyLineEnds`). The scan of a text whose line ends are written as line feeds therefore
reports the same references, each at the place that its own has become (`Reference.scan_unifyLineEnds`), and that place
has the same lines and columns (`Reference.rangeOf_unified`).
-/

namespace DocRefs

/-! ## Reading -/

/-- A block with the line ends among its blanks written as line feeds. -/
def Block.unified (b : Block) : Block :=
  { b with gap := unifyLineEnds b.gap }

/-- A form with the line ends among its blanks written as line feeds. -/
def Form.unified (f : Form) : Form :=
  { f with gap := unifyLineEnds f.gap, blocks := f.blocks.map Block.unified, tail := unifyLineEnds f.tail }

/-- The blanks at the front of a text. -/
theorem takeWhile_isBlank_unifyLineEnds (text : List Char) :
    (unifyLineEnds text).takeWhile isBlank = unifyLineEnds (text.takeWhile isBlank) :=
  takeWhile_unifyLineEnds rfl text

/-- Leading blanks are taken off before or after line ends are unified. -/
theorem dropWhile_isBlank_unifyLineEnds (text : List Char) :
    (unifyLineEnds text).dropWhile isBlank = unifyLineEnds (text.dropWhile isBlank) :=
  dropWhile_unifyLineEnds rfl text

/-- No blanks are left where there were some. -/
theorem isEmpty_unifyLineEnds (text : List Char) : (unifyLineEnds text).isEmpty = text.isEmpty := by
  induction text using lineEnds_induction with
  | nil => rfl
  | both text => rfl
  | alone text h => simp [unifyLineEnds_return h]
  | other c text hc => simp [unifyLineEnds_cons hc]

/-- A label is split off before or after line ends are unified. -/
theorem Label.split_unifyLineEnds (text : List Char) :
    Label.split (unifyLineEnds text) = ((Label.split text).1, unifyLineEnds (Label.split text).2) := by
  fun_cases Label.split text with
  | case1 rest => rw [unifyLineEnds_cons (by decide), unifyLineEnds_cons (by decide), Label.split]
  | case2 rest => rw [unifyLineEnds_cons (by decide), unifyLineEnds_cons (by decide), Label.split]
  | case3 text hlines hhighlight =>
    generalize hunified : unifyLineEnds text = unified
    fun_cases Label.split unified with
    | case1 rest =>
      obtain ⟨more, rfl, hmore⟩ := (unifyLineEnds_eq_cons_iff (by decide) (by decide)).1 hunified
      obtain ⟨more, rfl, -⟩ := (unifyLineEnds_eq_cons_iff (by decide) (by decide)).1 hmore
      exact absurd rfl (hlines more)
    | case2 rest =>
      obtain ⟨more, rfl, hmore⟩ := (unifyLineEnds_eq_cons_iff (by decide) (by decide)).1 hunified
      obtain ⟨more, rfl, -⟩ := (unifyLineEnds_eq_cons_iff (by decide) (by decide)).1 hmore
      exact absurd rfl (hhighlight more)
    | case3 => rfl

/-- The block at the front of a text. -/
theorem Block.read?_unifyLineEnds (text : List Char) :
    Block.read? (unifyLineEnds text) = (Block.read? text).map fun p => (p.1.unified, unifyLineEnds p.2) := by
  unfold Block.read?
  rw [takeWhile_isBlank_unifyLineEnds, dropWhile_isBlank_unifyLineEnds, Label.split_unifyLineEnds]
  simp only [isEmpty_unifyLineEnds]
  generalize (Label.split (text.dropWhile isBlank)).1 = label, (Label.split (text.dropWhile isBlank)).2 = after
  split
  · rename_i rest hrest
    obtain ⟨inner, rfl, rfl⟩ := (unifyLineEnds_eq_cons_iff (by decide) (by decide)).1 hrest
    rw [takeWhile_unifyLineEnds_eq rfl rfl, dropWhile_unifyLineEnds rfl]
    simp only
    split
    · rename_i rest hrest
      obtain ⟨behind, hbehind, rfl⟩ := (unifyLineEnds_eq_cons_iff (by decide) (by decide)).1 hrest
      rw [hbehind]
      simp only
      split <;> rfl
    · rename_i hnot
      split
      · rename_i behind hbehind
        exact absurd (by rw [hbehind, unifyLineEnds_cons (by decide)]) (hnot (unifyLineEnds behind))
      · rfl
  · rename_i hnot
    split
    · rename_i inner
      exact absurd (unifyLineEnds_cons (by decide) inner) (hnot (unifyLineEnds inner))
    · rfl

/-- The blocks at the front of a text. -/
theorem Block.readAll_unifyLineEnds (text : List Char) :
    Block.readAll (unifyLineEnds text) = ((Block.readAll text).1.map Block.unified,
      unifyLineEnds (Block.readAll text).2) := by
  fun_induction Block.readAll text with
  | case1 text h =>
    have hread := Block.read?_unifyLineEnds text
    rw [h, Option.map_none] at hread
    rw [Block.readAll]
    split
    · rfl
    · rename_i hsome
      simp [hread] at hsome
  | case2 text b rest h hlt bs others hrec ih =>
    have hread := Block.read?_unifyLineEnds text
    rw [h, Option.map_some] at hread
    rw [Block.readAll]
    split
    · rename_i hnone
      simp [hread] at hnone
    · rename_i b' rest' hsome
      obtain ⟨rfl, rfl⟩ := Prod.mk.inj (Option.some.inj (hread.symm.trans hsome))
      rw [hrec] at ih
      rw [ih]
      rfl

namespace Form

/-- A modifier is split off before or after line ends are unified. -/
theorem splitModifier_unifyLineEnds (text : List Char) :
    splitModifier (unifyLineEnds text) = ((splitModifier text).1, unifyLineEnds (splitModifier text).2) := by
  induction text using lineEnds_induction with
  | nil => rfl
  | both text => rfl
  | alone text h => simp [splitModifier, isModifier, unifyLineEnds_return h]
  | other c text hc =>
    cases hmodifier : isModifier c with
    | true => simp [splitModifier, hmodifier, unifyLineEnds_cons hc]
    | false => simp [splitModifier, hmodifier, unifyLineEnds_cons hc]

/-- The opener at the front of a text. -/
theorem readOpener?_unifyLineEnds (text : List Char) :
    readOpener? (unifyLineEnds text) =
      (readOpener? text).map fun p => ((p.1.1, p.1.2.1, unifyLineEnds p.1.2.2), unifyLineEnds p.2) := by
  fun_cases readOpener? text with
  | case1 mark rest =>
    rw [unifyLineEnds_cons (by decide)]
    by_cases hreturn : mark = '\r'
    · -- The mark is no mark, in either of the two texts.
      subst hreturn
      obtain ⟨more, hmore⟩ := List.head?_eq_some_iff.1 (head?_unifyLineEnds ('\r' :: rest))
      rw [hmore]
      rfl
    · rw [unifyLineEnds_cons hreturn, readOpener?]
      cases Family.ofMark? mark with
      | none => rfl
      | some family =>
        simp only [Option.bind_some, splitModifier_unifyLineEnds, takeWhile_isBlank_unifyLineEnds,
          dropWhile_isBlank_unifyLineEnds, isEmpty_unifyLineEnds]
        split <;> rfl
  | case2 text hnot =>
    generalize hunified : unifyLineEnds text = unified
    fun_cases readOpener? unified with
    | case1 mark rest =>
      obtain ⟨more, rfl, hmore⟩ := (unifyLineEnds_eq_cons_iff (by decide) (by decide)).1 hunified
      cases more with
      | nil => simp at hmore
      | cons d more => exact absurd rfl (hnot d more)
    | case2 => rfl

/-- The reference at the front of a text. -/
theorem read?_unifyLineEnds (text : List Char) :
    read? (unifyLineEnds text) = (read? text).map fun p => (p.1.unified, unifyLineEnds p.2) := by
  unfold read?
  rw [readOpener?_unifyLineEnds]
  cases readOpener? text with
  | none => rfl
  | some p =>
    obtain ⟨⟨family, modifier, gap⟩, inner⟩ := p
    have hreturn : isPathChar '\r' = false := by decide
    have hfeed : isPathChar '\n' = false := by decide
    simp only [Option.map_some, Option.bind_some, takeWhile_unifyLineEnds_eq hreturn hfeed,
      dropWhile_unifyLineEnds (hreturn.trans hfeed.symm), Block.readAll_unifyLineEnds, takeWhile_isBlank_unifyLineEnds,
      dropWhile_isBlank_unifyLineEnds]
    generalize Block.readAll (inner.dropWhile isPathChar) = r
    obtain ⟨blocks, behind⟩ := r
    cases hclosing : behind.dropWhile isBlank with
    | nil => rfl
    | cons mark closing =>
      have hmark : mark ≠ '\r' := by
        rintro rfl
        have hends : EndsRun isBlank (behind.dropWhile isBlank) := endsRun_dropWhile
        exact absurd (hends '\r' (by rw [hclosing]; rfl)) (by decide)
      simp only
      rw [unifyLineEnds_cons hmark]
      split
      · rename_i rest hclose
        obtain ⟨rfl, hrest⟩ := List.cons.inj hclose
        obtain ⟨after, rfl, rfl⟩ := (unifyLineEnds_eq_cons_iff (by decide) (by decide)).1 hrest
        simp only
        split <;> rfl
      · rename_i hnot
        split
        · rename_i after hclose
          obtain ⟨rfl, rfl⟩ := List.cons.inj hclose
          exact absurd (by rw [unifyLineEnds_cons (by decide)]) (hnot _ (unifyLineEnds after))
        · rfl

/-- A reference is written as before, but for the line ends among its blanks. -/
theorem text_unified {f : Form} (h : f.WellFormed) : f.unified.WellFormed ∧ f.unified.text = unifyLineEnds f.text := by
  have hread := read?_unifyLineEnds (f.text ++ [])
  rw [read?_text h [], List.append_nil, Option.map_some] at hread
  obtain ⟨hunified, htext⟩ := eq_text_of_read? hread
  exact ⟨hunified, by rw [htext, unifyLineEnds_nil, List.append_nil]⟩

end Form

/-! ## Places -/

/-- The offset that an offset becomes when the line ends before it are written as line feeds. -/
def offsetUnified (text : List Char) (offset : Nat) : Nat :=
  (unifyLineEnds (text.take offset)).length

/-- The span that a span becomes when the line ends of the text are written as line feeds. -/
def Span.unified (text : List Char) (span : Span) : Span :=
  ⟨offsetUnified text span.start.toNat, offsetUnified text span.stop.toNat⟩

/-- Where no line end is torn apart, the text before an offset becomes the text before the offset that this one becomes,
and the text behind it the text behind that. -/
theorem take_offsetUnified {text : List Char} {i : Nat} (h : Untorn text i) :
    (unifyLineEnds text).take (offsetUnified text i) = unifyLineEnds (text.take i) ∧
      (unifyLineEnds text).drop (offsetUnified text i) = unifyLineEnds (text.drop i) := by
  rw [unifyLineEnds_of_untorn h, offsetUnified]
  exact ⟨List.take_left, List.drop_left⟩

/-- Such an offset keeps its line and its column. -/
theorem positionAt_offsetUnified {text : List Char} {i : Nat} (hi : i ≤ text.length) (h : Untorn text i) :
    positionAt (unifyLineEnds text) (offsetUnified text i) = positionAt text i := by
  have hlength : offsetUnified text i ≤ (unifyLineEnds text).length := by
    rw [unifyLineEnds_of_untorn h, List.length_append, offsetUnified]
    omega
  rw [positionAt_eq, positionAt_eq, clampOffset_of_le hi, clampOffset_of_le hlength, (take_offsetUnified h).1,
    splitLines_unifyLineEnds]

namespace Form

variable {text rest : List Char} {i : Nat} {f : Form}

/-- A reference that stands in a text stands, with its line ends as line feeds, at the place that its own becomes. -/
theorem drop_offsetUnified (hf : f.WellFormed) (hdrop : text.drop i = f.text ++ rest) :
    (unifyLineEnds text).drop (offsetUnified text i) = f.unified.text ++ unifyLineEnds rest := by
  have hread := read?_unifyLineEnds (text.drop i)
  rw [hdrop, read?_text hf rest, Option.map_some, ← hdrop] at hread
  rw [(take_offsetUnified (untorn_start hdrop)).2]
  exact (eq_text_of_read? hread).2

/-- An offset behind the beginning of a reference becomes one behind what that beginning becomes. -/
theorem offsetUnified_lt (hdrop : text.drop i = f.text ++ rest) {j : Nat} (hij : i < j) :
    offsetUnified text i < offsetUnified text j := by
  obtain ⟨k, rfl⟩ := Nat.exists_eq_add_of_lt hij
  have htake : text.take (i + k + 1) = text.take i ++ '{' :: (f.text.tail ++ rest).take k := by
    rw [Nat.add_assoc, List.take_add, hdrop, f.text_eq_cons, List.cons_append, List.take_succ_cons]
    rfl
  rw [offsetUnified, offsetUnified, htake, unifyLineEnds_append_cons _ (by decide),
    unifyLineEnds_cons (by decide), List.length_append, List.length_cons]
  omega

/-- The scan finds the same references in a text whose line ends are written as line feeds. -/
theorem findAll_unifyLineEnds (text : List Char) :
    findAll (unifyLineEnds text) = (findAll text).map fun p => (offsetUnified text p.1, p.2.unified) := by
  refine (eq_findAll ?_ ?_).symm
  · refine List.pairwise_map.2 ((pairwise_findAll text).imp_of_mem fun {p q} hp _ hlt => ?_)
    obtain ⟨-, rest, hdrop⟩ := mem_findAll.1 hp
    exact offsetUnified_lt hdrop hlt
  · rintro ⟨j, g⟩
    rw [List.mem_map]
    constructor
    · rintro ⟨⟨i, f⟩, hmem, heq⟩
      obtain ⟨rfl, rfl⟩ := Prod.mk.inj heq
      obtain ⟨hf, rest, hdrop⟩ := mem_findAll.1 hmem
      exact ⟨(text_unified hf).1, _, drop_offsetUnified hf hdrop⟩
    · rintro ⟨hg, rest, hdrop⟩
      obtain ⟨i, htake, hcut⟩ := exists_cut_of_unifyLineEnds text j
      have hread := read?_text hg rest
      rw [← hdrop, ← hcut, read?_unifyLineEnds] at hread
      obtain ⟨⟨f, after⟩, hfound, heq⟩ := Option.map_eq_some_iff.1 hread
      obtain ⟨rfl, -⟩ := Prod.mk.inj heq
      obtain ⟨hf, hstands⟩ := eq_text_of_read? hfound
      have hlength := congrArg List.length hdrop
      rw [List.length_drop, List.length_append, f.unified.text_eq_cons, List.length_cons] at hlength
      refine ⟨(i, f), mem_findAll.2 ⟨hf, after, hstands⟩, ?_⟩
      simp only [Prod.mk.injEq, and_true]
      rw [offsetUnified, htake, List.length_take]
      omega

/-- Which labels are regarded does not depend on the line ends. -/
theorem labelled_unified (f : Form) : f.unified.labelled = f.labelled := by
  have hspace : ∀ gap : List Char, ((unifyLineEnds gap).getLast? == some ' ') = (gap.getLast? == some ' ') := by
    intro gap
    rw [getLast?_unifyLineEnds]
    cases gap.getLast? with
    | none => rfl
    | some c =>
      by_cases hreturn : c = '\r'
      · rw [hreturn]
        rfl
      · simp [hreturn]
  simp only [labelled, unified, Block.unified, List.any_map, List.filterMap_map, Function.comp_def, hspace]

/-- A reference ends, with its line ends as line feeds, at the place that its end becomes. -/
theorem offsetUnified_stop (hf : f.WellFormed) (hdrop : text.drop i = f.text ++ rest) :
    offsetUnified text (i + f.text.length) = offsetUnified text i + f.unified.text.length := by
  have htake : text.take (i + f.text.length) = text.take i ++ '{' :: f.text.tail := by
    rw [List.take_add, hdrop, List.take_left, ← f.text_eq_cons]
  rw [offsetUnified, offsetUnified, htake, unifyLineEnds_append_cons _ (by decide),
    ← f.text_eq_cons, ← (text_unified hf).2, List.length_append]

end Form

namespace Reference

/-- A reference with its span at the place that its own becomes when the line ends of the text are written as line
feeds. -/
def unified (text : List Char) (r : Reference) : Reference :=
  { r with span := r.span.unified text }

/-- The scan of a text whose line ends are written as line feeds reports the same references, at the places that their
own become. -/
theorem scan_unifyLineEnds (text : String) :
    scan (String.ofList (unifyLineEnds text.toList)) = (scan text).map (List.map (unified text.toList)) := by
  rw [scan, scan, String.toList_ofList, Form.findAll_unifyLineEnds]
  refine mapM_map_eq ?_
  rintro ⟨i, f⟩ hmem
  obtain ⟨hf, rest, hdrop⟩ := Form.mem_findAll.1 hmem
  change f.unified.toReference _ = (f.toReference i).map _
  rw [Form.toReference_of_labelled (f := f) (g := f.unified) rfl f.labelled_unified i]
  cases hr : f.toReference i with
  | error e => rfl
  | ok r =>
    have hspan := (Form.of_toReference hr).2
    have hstop : ((i : Int) + (f.text.length : Int)).toNat = i + f.text.length := by omega
    simp only [Except.map, unified, Span.unified, hspan, Int.toNat_natCast, hstop,
      Form.offsetUnified_stop hf hdrop, Nat.cast_add]

/-- A reported reference stands at the same lines and columns when the line ends of the text are written as line
feeds. -/
theorem rangeOf_unified {text : String} {refs : List Reference} (h : scan text = .ok refs)
    {r : Reference} (hr : r ∈ refs) :
    rangeOf (unifyLineEnds text.toList) (r.span.unified text.toList) = rangeOf text.toList r.span := by
  obtain ⟨i, f, rest, -, hdrop, -, hspan⟩ := exists_drop_of_mem_scan h hr
  have hstop := Form.stop_le hdrop
  rw [rangeOf, rangeOf, Span.unified, hspan]
  simp only [Int.toNat_natCast]
  rw [positionAt_offsetUnified (by omega) (Form.untorn_start hdrop),
    positionAt_offsetUnified hstop (Form.untorn_stop hdrop)]

end Reference

end DocRefs
