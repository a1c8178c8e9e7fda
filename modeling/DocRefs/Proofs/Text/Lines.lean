import DocRefs.Proofs.Text.Runs
import DocRefs.Text.Lines

/-!
# Positions tell offsets apart

The lines of a text that goes on with more are its own lines, of which the last one goes on too (`splitLines_append`).
An offset that does not tear a line end apart parts one line in two (`exists_lines_of_untorn`) and stands before every
later offset (`positionAt_before`). The line of a position, up to its column, is what stands between the last line end
before the offset and the offset (`takeSigned_lineText`).
-/

namespace DocRefs

/-- The lines of a text that goes on, unless a line end would be torn apart: its own, the last one continued, and those
that follow. -/
theorem splitLines_append (front : List Char) {rest l : List Char} {ls : List (List Char)}
    (hrest : splitLines rest = l :: ls) (hwhole : ∀ more, rest = '\n' :: more → front.getLast? ≠ some '\r') :
    ∃ before last, splitLines front = before ++ [last] ∧ splitLines (front ++ rest) = before ++ (last ++ l) :: ls := by
  have hbehind : ∀ {c : Char} {front : List Char}, (∀ more, rest = '\n' :: more → (c :: front).getLast? ≠ some '\r') →
      ∀ more, rest = '\n' :: more → front.getLast? ≠ some '\r' := by
    intro c front h more hmore hlast
    exact h more hmore (by rw [List.getLast?_cons, hlast, Option.getD_some])
  fun_induction splitLines front with
  | case1 => exact ⟨[], [], rfl, by simpa using hrest⟩
  | case2 front ih =>
    obtain ⟨before, last, hfront, hall⟩ := ih (hbehind (hbehind hwhole))
    refine ⟨[] :: before, last, by rw [hfront, List.cons_append], ?_⟩
    rw [List.cons_append, List.cons_append, splitLines, hall, List.cons_append]
  | case3 front hnot ih =>
    obtain ⟨before, last, hfront, hall⟩ := ih (hbehind hwhole)
    refine ⟨[] :: before, last, by rw [hfront, List.cons_append], ?_⟩
    rw [List.cons_append, splitLines_return, hall, List.cons_append]
    intro more hmore
    cases front with
    | nil => exact hwhole more hmore rfl
    | cons c front =>
      rw [List.cons_append, List.cons.injEq] at hmore
      exact hnot front (by rw [hmore.1])
  | case4 front ih =>
    obtain ⟨before, last, hfront, hall⟩ := ih (hbehind hwhole)
    refine ⟨[] :: before, last, by rw [hfront, List.cons_append], ?_⟩
    rw [List.cons_append, splitLines, hall, List.cons_append]
  | case5 c front _ _ _ hnil => exact absurd hnil (splitLines_ne_nil front)
  | case6 c front _ hreturn hfeed m ms hlines ih =>
    obtain ⟨before, last, hfront, hall⟩ := ih (hbehind hwhole)
    obtain ⟨m', ms', hsplit, hcons⟩ := splitLines_cons c (front ++ rest) hreturn hfeed
    rw [hlines] at hfront
    rw [hall] at hsplit
    rw [List.cons_append, hcons]
    cases before with
    | nil =>
      rw [List.nil_append, List.cons.injEq] at hfront hsplit
      obtain ⟨rfl, rfl⟩ := hfront
      obtain ⟨rfl, rfl⟩ := hsplit
      exact ⟨[], c :: m, rfl, rfl⟩
    | cons first before =>
      rw [List.cons_append, List.cons.injEq] at hfront hsplit
      obtain ⟨rfl, rfl⟩ := hfront
      obtain ⟨rfl, rfl⟩ := hsplit
      exact ⟨(c :: m) :: before, last, rfl, rfl⟩

/-- Whether a character neither ends a line nor begins its end. -/
def isInLine (c : Char) : Bool :=
  c != '\r' && c != '\n'

/-- A text without a line end is one line. -/
theorem splitLines_of_isInLine {text : List Char} (h : ∀ c ∈ text, isInLine c = true) : splitLines text = [text] := by
  induction text with
  | nil => rfl
  | cons c text ih =>
    have hc := h c List.mem_cons_self
    simp only [isInLine, bne_iff_ne, ne_eq, Bool.and_eq_true] at hc
    obtain ⟨l, ls, hlines, hcons⟩ := splitLines_cons c text hc.1 hc.2
    rw [ih fun d hd => h d (List.mem_cons_of_mem _ hd)] at hlines
    obtain ⟨rfl, rfl⟩ := List.cons.inj hlines
    exact hcons

/-- A text of one line has no line end. -/
theorem eq_of_splitLines_eq_singleton {text l : List Char} (h : splitLines text = [l]) :
    text = l ∧ ∀ c ∈ text, isInLine c = true := by
  fun_induction splitLines text generalizing l with
  | case1 => exact ⟨(List.cons.inj h).1, by simp⟩
  | case2 front => exact absurd (List.cons.inj h).2 (splitLines_ne_nil front)
  | case3 front => exact absurd (List.cons.inj h).2 (splitLines_ne_nil front)
  | case4 front => exact absurd (List.cons.inj h).2 (splitLines_ne_nil front)
  | case5 c front _ _ _ hnil => exact absurd hnil (splitLines_ne_nil front)
  | case6 c front _ hreturn hfeed m ms hlines ih =>
    obtain ⟨hl, rfl⟩ := List.cons.inj h
    obtain ⟨rfl, hall⟩ := ih hlines
    refine ⟨hl, ?_⟩
    intro d hd
    rcases List.mem_cons.1 hd with rfl | hd
    · simp only [isInLine, bne_iff_ne, ne_eq, Bool.and_eq_true]
      exact ⟨hreturn, hfeed⟩
    · exact hall d hd

/-- An offset that does not stand between the two halves of a line end. -/
def Untorn (text : List Char) (i : Nat) : Prop :=
  ∀ more, text.drop i = '\n' :: more → (text.take i).getLast? ≠ some '\r'

/-- Where a text goes on with a character that is no line feed, no line end is torn apart. -/
theorem untorn_of_drop {text more : List Char} {i : Nat} {c : Char}
    (hdrop : text.drop i = c :: more) (hfeed : c ≠ '\n') : Untorn text i := by
  intro rest hrest
  rw [hdrop] at hrest
  exact absurd (List.cons.inj hrest).1 hfeed

/-- An offset within a text stays as it is. -/
theorem clampOffset_of_le {length i : Nat} (h : i ≤ length) : clampOffset length (i : Int) = i := by
  simp only [clampOffset, Int.toNat_natCast]
  omega

/-- An offset that tears no line end apart parts one line of a text: the lines before this one are counted by the line
of its position, and what stands of this one before the offset by the column. -/
theorem exists_lines_of_untorn {text : List Char} {i : Nat} (hi : i ≤ text.length) (huntorn : Untorn text i) :
    ∃ before last l ls, splitLines (text.take i) = before ++ [last] ∧ splitLines (text.drop i) = l :: ls ∧
      splitLines text = before ++ (last ++ l) :: ls ∧ positionAt text i = ⟨before.length, last.length⟩ := by
  obtain ⟨l, ls, hrest⟩ := List.exists_cons_of_ne_nil (splitLines_ne_nil (text.drop i))
  obtain ⟨before, last, hfront, hall⟩ := splitLines_append (text.take i) hrest huntorn
  rw [List.take_append_drop] at hall
  refine ⟨before, last, l, ls, hfront, hrest, hall, ?_⟩
  rw [positionAt_eq, clampOffset_of_le hi, hfront]
  simp

/-- One position stands before another, in an earlier line or to the left of it in the same line. -/
def Position.Before (p q : Position) : Prop :=
  p.line < q.line ∨ p.line = q.line ∧ p.character < q.character

theorem Position.Before.trans {p q r : Position} (h : p.Before q) (h' : q.Before r) : p.Before r := by
  unfold Before at *
  omega

theorem Position.Before.irrefl (p : Position) : ¬ p.Before p := by
  unfold Before
  omega

/-- An offset that tears no line end apart stands at a position before that of every later offset. -/
theorem positionAt_before {text : List Char} {i j : Nat} (hij : i < j) (hj : j ≤ text.length)
    (huntorn : Untorn text i) : (positionAt text i).Before (positionAt text j) := by
  obtain ⟨k, rfl⟩ := Nat.exists_eq_add_of_lt hij
  obtain ⟨c, hc⟩ : ∃ c, text.drop i = c :: text.drop (i + 1) := ⟨text[i], List.drop_eq_getElem_cons (by omega)⟩
  have htake : text.take (i + k + 1) = text.take i ++ c :: (text.drop (i + 1)).take k := by
    rw [Nat.add_assoc, List.take_add, hc, List.take_succ_cons]
  obtain ⟨l, ls, hrest⟩ := List.exists_cons_of_ne_nil (splitLines_ne_nil (c :: (text.drop (i + 1)).take k))
  obtain ⟨before, last, hfront, hall⟩ := splitLines_append (text.take i) hrest fun more hmore =>
    huntorn (text.drop (i + 1)) (by rw [hc, (List.cons.inj hmore).1])
  rw [positionAt_eq, positionAt_eq, clampOffset_of_le (by omega), clampOffset_of_le hj, htake, hfront, hall]
  unfold Position.Before
  simp only [List.length_append, List.length_cons, List.length_nil]
  cases ls with
  | nil =>
    -- What stands between the two offsets is part of one line, and it is not empty.
    obtain ⟨rfl, -⟩ := eq_of_splitLines_eq_singleton hrest
    refine .inr ⟨rfl, ?_⟩
    simp only [List.getLast?_append, List.getLast?_singleton, Option.some_or, Option.getD_some, List.length_append,
      List.length_cons]
    omega
  | cons m ms =>
    left
    simp only [List.length_cons]
    omega

/-! ## The line of a position, up to its column -/

/-- The last line of a text is what stands behind its last line end. -/
theorem getLast?_splitLines (text : List Char) : (splitLines text).getLast?.getD [] = lastRun isInLine text := by
  have hcons : ∀ (l : List Char) (front : List Char),
      (l :: splitLines front).getLast?.getD [] = (splitLines front).getLast?.getD [] := by
    intro l front
    obtain ⟨m, ms, hlines⟩ := List.exists_cons_of_ne_nil (splitLines_ne_nil front)
    rw [hlines, List.getLast?_cons_cons]
  fun_induction splitLines text with
  | case1 => rfl
  | case2 front ih =>
    rw [hcons, ih]
    exact (lastRun_append_cons ['\r'] (by decide) front).symm
  | case3 front _ ih =>
    rw [hcons, ih]
    exact (lastRun_append_cons [] (by decide) front).symm
  | case4 front ih =>
    rw [hcons, ih]
    exact (lastRun_append_cons [] (by decide) front).symm
  | case5 c front _ _ _ hnil => exact absurd hnil (splitLines_ne_nil front)
  | case6 c front _ hreturn hfeed m ms hlines ih =>
    rw [hlines] at ih
    cases ms with
    | nil =>
      obtain ⟨rfl, hall⟩ := eq_of_splitLines_eq_singleton hlines
      have hrun : ∀ d ∈ c :: front, isInLine d = true := by
        intro d hd
        rcases List.mem_cons.1 hd with rfl | hd
        · simpa [isInLine] using And.intro hreturn hfeed
        · exact hall d hd
      exact (lastRun_append [] hrun).symm
    | cons m' ms =>
      obtain ⟨d, hd, hend⟩ : ∃ d ∈ front, isInLine d = false := by
        refine Classical.byContradiction fun hnone => ?_
        simp only [not_exists, not_and, Bool.not_eq_false] at hnone
        rw [splitLines_of_isInLine hnone] at hlines
        simp at hlines
      obtain ⟨a, b, rfl⟩ := List.append_of_mem hd
      rw [List.getLast?_cons_cons] at ih ⊢
      rw [ih, lastRun_append_cons a hend, ← List.cons_append, lastRun_append_cons (c :: a) hend]

/-- Where no line end is torn apart, the line of a position is what stands between the last line end before the offset
and the offset, as many characters as the column counts, and what stands from there up to the next line end. -/
theorem lineText_positionAt {text : List Char} {i : Nat} (hi : i ≤ text.length) (huntorn : Untorn text i) :
    ∃ l ls, splitLines (text.drop i) = l :: ls ∧
      lineText text (positionAt text i).line = lastRun isInLine (text.take i) ++ l ∧
      (positionAt text i).character = (lastRun isInLine (text.take i)).length := by
  obtain ⟨before, last, l, ls, hfront, hrest, hall, hposition⟩ := exists_lines_of_untorn hi huntorn
  have hlast := getLast?_splitLines (text.take i)
  rw [hfront, List.getLast?_concat, Option.getD_some] at hlast
  refine ⟨l, ls, hrest, ?_, by rw [hposition, hlast]⟩
  rw [hposition, lineText, if_neg (Int.not_lt.2 (Int.natCast_nonneg _)), Int.toNat_natCast, hall, ← hlast]
  simp

/-- A count that is not negative is taken from the front. -/
theorem takeSigned_natCast (count : Nat) (text : List Char) : takeSigned (count : Int) text = text.take count := by
  rw [takeSigned, if_neg (Int.not_lt.2 (Int.natCast_nonneg count)), Int.toNat_natCast]

/-- The line of a position, up to its column, is what stands between the last line end before the offset and the
offset. -/
theorem takeSigned_lineText (text : List Char) {o : Nat} (ho : o ≤ text.length) :
    takeSigned (positionAt text o).character (lineText text (positionAt text o).line) =
      lastRun isInLine (text.take o) := by
  by_cases huntorn : Untorn text o
  · obtain ⟨l, ls, -, hline, hcolumn⟩ := lineText_positionAt ho huntorn
    rw [hline, hcolumn, takeSigned_natCast, List.take_left]
  · -- Between the two halves of a line end the column is zero.
    obtain ⟨more, hmore⟩ := Classical.not_forall.1 huntorn
    obtain ⟨-, hreturn⟩ := Classical.not_imp.1 hmore
    obtain ⟨before, hbefore⟩ := List.getLast?_eq_some_iff.1 (Classical.not_not.1 hreturn)
    have hnone : lastRun isInLine (text.take o) = [] := by
      rw [hbefore, lastRun_append_cons before (by decide)]
      rfl
    rw [positionAt_eq, clampOffset_of_le ho]
    dsimp only
    rw [getLast?_splitLines, hnone]
    rfl

end DocRefs
