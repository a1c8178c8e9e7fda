import DocRefs.Proofs.Text.Offsets
import Mathlib

/-!
# Positions and lines agree

A position counts the line ends of the front of a text, and the line of a position is looked up among those of the whole
text. The two may disagree only where the front ends between the halves of a line end, and there the column is zero and
the position that of the next offset (`positionAt_succ_of_torn`). So positions never go back along a text
(`positionAt_le`), a line up to a column is the text before the offset (`positionAt_inverse`), and where no line end is
torn apart the offset comes back from where the line begins (`splitLines_of_lineStart?`).
-/

namespace DocRefs

variable {text : List Char}

/-! ## Where a line begins -/

/-- The text up to where a line begins has the lines before it and an empty one, and the text from there has the
others. -/
theorem splitLines_of_lineStart? {line start : Nat} (h : lineStart? line text = some start) :
    splitLines (text.take start) = (splitLines text).take line ++ [[]] ∧
      splitLines (text.drop start) = (splitLines text).drop line := by
  fun_induction lineStart? line text generalizing start with
  | case1 text =>
    obtain rfl := Option.some.inj h
    exact ⟨rfl, rfl⟩
  | case2 => simp at h
  | case3 line rest ih =>
    obtain ⟨k, hk, rfl⟩ := Option.map_eq_some_iff.1 h
    obtain ⟨htake, hdrop⟩ := ih hk
    refine ⟨?_, hdrop⟩
    rw [List.take_succ_cons, List.take_succ_cons, splitLines, splitLines, htake]
    rfl
  | case4 line c rest hboth hend ih =>
    obtain ⟨k, hk, rfl⟩ := Option.map_eq_some_iff.1 h
    obtain ⟨htake, hdrop⟩ := ih hk
    rw [List.take_succ_cons, List.drop_succ_cons, hdrop]
    rcases hend with rfl | rfl
    · have hrest : ∀ more, rest ≠ '\n' :: more := fun more hmore => hboth more rfl hmore
      have hfront : ∀ more, rest.take k ≠ '\n' :: more := fun more hmore =>
        hrest (more ++ rest.drop k) (by rw [← List.cons_append, ← hmore, List.take_append_drop])
      rw [splitLines_return _ hfront, splitLines_return _ hrest, htake]
      exact ⟨rfl, rfl⟩
    · rw [splitLines, splitLines, htake]
      exact ⟨rfl, rfl⟩
  | case5 line c rest hboth hend ih =>
    obtain ⟨k, hk, rfl⟩ := Option.map_eq_some_iff.1 h
    obtain ⟨htake, hdrop⟩ := ih hk
    obtain ⟨hreturn, hfeed⟩ := not_or.1 hend
    obtain ⟨l, ls, hlines, hcons⟩ := splitLines_cons c rest hreturn hfeed
    obtain ⟨l', ls', hlines', hcons'⟩ := splitLines_cons c (rest.take k) hreturn hfeed
    rw [hlines, hlines', List.take_succ_cons, List.cons_append] at htake
    obtain ⟨rfl, rfl⟩ := List.cons.inj htake
    rw [hlines, List.drop_succ_cons] at hdrop
    rw [List.take_succ_cons, List.drop_succ_cons, hcons, hcons', hdrop]
    exact ⟨rfl, rfl⟩

/-! ## The order of positions -/

/-- An offset outside a text has the position of the nearer end. -/
theorem positionAt_clampOffset (text : List Char) (o : Int) :
    positionAt text o = positionAt text (clampOffset text.length o) := by
  have hle : clampOffset text.length o ≤ text.length := Nat.min_le_right _ _
  rw [positionAt, positionAt, clampOffset_of_le hle]

/-- An offset is brought between zero and the length. -/
theorem coe_clampOffset (length : Nat) (o : Int) : (clampOffset length o : Int) = max 0 (min o length) := by
  unfold clampOffset
  omega

/-- A greater offset is not brought to a smaller one. -/
theorem clampOffset_mono {length : Nat} {o q : Int} (h : o ≤ q) : clampOffset length o ≤ clampOffset length q := by
  unfold clampOffset
  omega

/-- A line end behind a text, and an empty line behind it. -/
theorem splitLines_append_lineEnd (front : List Char) {ending : List Char} (hending : splitLines ending = [[], []])
    (hfeed : ∀ more, ending ≠ '\n' :: more) : splitLines (front ++ ending) = splitLines front ++ [[]] := by
  obtain ⟨before, last, hfront, hall⟩ := splitLines_append front hending fun more hmore => absurd hmore (hfeed more)
  rw [hall, hfront, List.append_nil, List.append_assoc, List.singleton_append]

/-- Between the two halves of a line end stands the position of the next offset. -/
theorem positionAt_succ_of_torn {i : Nat} (hi : i ≤ text.length) (htorn : ¬ Untorn text i) :
    i + 1 ≤ text.length ∧ Untorn text (i + 1) ∧ positionAt text i = positionAt text (i + 1 : Nat) := by
  obtain ⟨more, hmore⟩ := Classical.not_forall.1 htorn
  obtain ⟨hdrop, hreturn⟩ := Classical.not_imp.1 hmore
  obtain ⟨front, hfront⟩ := List.getLast?_eq_some_iff.1 (Classical.not_not.1 hreturn)
  have htake : text.take (i + 1) = front ++ ['\r', '\n'] := by
    rw [List.take_add, hdrop, hfront]
    simp
  have hlength : i + 1 ≤ text.length := by
    have := congrArg List.length hdrop
    rw [List.length_drop, List.length_cons] at this
    omega
  refine ⟨hlength, ?_, ?_⟩
  · intro more' _
    rw [htake, List.getLast?_append_of_ne_nil _ (by simp)]
    decide
  · rw [positionAt_eq, positionAt_eq, clampOffset_of_le hi, clampOffset_of_le hlength, htake, hfront,
      splitLines_append_lineEnd front rfl (by simp), splitLines_append_lineEnd front rfl (by simp)]

/-- Positions never go back along a text. -/
theorem positionAt_le {i j : Nat} (hij : i ≤ j) (hj : j ≤ text.length) :
    positionAt text i = positionAt text j ∨ (positionAt text i).Before (positionAt text j) := by
  rcases Nat.eq_or_lt_of_le hij with rfl | hlt
  · exact .inl rfl
  by_cases huntorn : Untorn text i
  · exact .inr (positionAt_before hlt hj huntorn)
  · obtain ⟨-, hnext, heq⟩ := positionAt_succ_of_torn (by omega) huntorn
    rw [heq]
    rcases Nat.eq_or_lt_of_le (show i + 1 ≤ j from hlt) with rfl | hlt'
    · exact .inl rfl
    · exact .inr (positionAt_before hlt' hj hnext)

/-! ## From a position to its line -/

/-- The column of an offset is the length of what stands between the last line end before the offset and the offset. -/
theorem character_positionAt {i : Nat} (hi : i ≤ text.length) :
    (positionAt text i).character = (lastRun isInLine (text.take i)).length := by
  rw [positionAt_eq, clampOffset_of_le hi]
  dsimp only
  rw [getLast?_splitLines]

/-- The run at the end of the front of a text is a stretch of that text. -/
theorem lastRun_take {class? : Char → Bool} {i : Nat} (hi : i ≤ text.length) :
    lastRun class? (text.take i) = (text.take i).drop (i - (lastRun class? (text.take i)).length) := by
  have hdrop := List.suffix_iff_eq_drop.1 (lastRun_suffix class? (text.take i))
  rwa [List.length_take, Nat.min_eq_left hi] at hdrop

/-- The line that an offset stands in has at least as many characters as the column of the offset counts. -/
theorem character_le_length_lineText {i : Nat} (hi : i ≤ text.length) :
    (positionAt text i).character ≤ (lineText text (positionAt text i).line).length := by
  have hfront := congrArg List.length (takeSigned_lineText text hi)
  rw [character_positionAt hi, takeSigned_natCast, List.length_take] at hfront
  rw [character_positionAt hi]
  omega

/-- Positions and lines are inverse to each other. The position of an offset is that of the offset brought into the
text; its column stays within its line, and the line up to the column is the text that ends at the offset, without a
line end; positions never go back along the text; and where the offset tears no line end apart, it is where the line
begins and the column on top. -/
theorem positionAt_inverse (text : List Char) (o : Int) :
    let stop := clampOffset text.length o
    let p := positionAt text o
    (stop : Int) = max 0 (min o text.length) ∧ p = positionAt text stop ∧
    (0 ≤ p.character ∧ p.character ≤ (lineText text p.line).length ∧ p.character ≤ stop) ∧
    takeSigned p.character (lineText text p.line) = (text.take stop).drop (stop - p.character.toNat) ∧
    (∀ c ∈ takeSigned p.character (lineText text p.line), isInLine c = true) ∧
    (∀ q, o ≤ q → p = positionAt text q ∨ p.Before (positionAt text q)) ∧
    (Untorn text stop → 0 ≤ p.line ∧ ∃ start, lineStart? p.line.toNat text = some start ∧ start + p.character = stop ∧
      splitLines (text.take start) = (splitLines text).take p.line.toNat ++ [[]] ∧
      splitLines (text.drop start) = (splitLines text).drop p.line.toNat) := by
  have hstop : clampOffset text.length o ≤ text.length := Nat.min_le_right _ _
  have hcolumn := character_positionAt hstop
  dsimp only
  rw [positionAt_clampOffset text o]
  refine ⟨coe_clampOffset _ o, rfl, ⟨?_, character_le_length_lineText hstop, ?_⟩, ?_, ?_, ?_, ?_⟩
  · rw [hcolumn]
    exact Int.natCast_nonneg _
  · have hle := (lastRun_suffix isInLine (text.take (clampOffset text.length o))).length_le
    rw [List.length_take, Nat.min_eq_left hstop] at hle
    rw [hcolumn]
    exact Int.ofNat_le.2 hle
  · rw [takeSigned_lineText text hstop, hcolumn, Int.toNat_natCast]
    exact lastRun_take hstop
  · rw [takeSigned_lineText text hstop]
    exact fun c hc => of_mem_lastRun hc
  · intro q hq
    rw [positionAt_clampOffset text q]
    exact positionAt_le (clampOffset_mono hq) (Nat.min_le_right _ _)
  · intro huntorn
    have hback := offsetOf?_positionAt hstop huntorn
    unfold offsetOf? at hback
    split at hback
    · simp at hback
    · rename_i hline
      obtain ⟨start, hstart, hoffset⟩ := Option.map_eq_some_iff.1 hback
      exact ⟨Int.not_lt.1 hline, start, hstart, hoffset, splitLines_of_lineStart? hstart⟩

/-- In a text of two lines the offset at its end is given back. One between the halves of the line end stands at the
place of the next offset, so it is not behind it. -/
theorem positionAt_inverse_two_lines :
    let text := ['a', '\r', '\n', 'b']
    Untorn text 4 ∧ positionAt text 4 = ⟨1, 1⟩ ∧
      (∃ start : Nat, lineStart? 1 text = some start ∧ (start : Int) + 1 = 4 ∧
        splitLines (text.take start) = [['a'], []] ∧
        splitLines (text.drop start) = [['b']]) ∧
      ¬ Untorn text 2 ∧ (positionAt text 2 = positionAt text 3 ∨ (positionAt text 2).Before (positionAt text 3)) := by
  dsimp only
  have huntorn : Untorn ['a', '\r', '\n', 'b'] 4 := by simp [Untorn]
  have htorn : ¬ Untorn ['a', '\r', '\n', 'b'] 2 := by simp [Untorn]
  obtain ⟨-, start, hstart, hoffset, hbefore, hbehind⟩ :=
    (positionAt_inverse ['a', '\r', '\n', 'b'] 4).2.2.2.2.2.2 huntorn
  refine ⟨huntorn, rfl, ⟨start, hstart, hoffset, hbefore, hbehind⟩, htorn, ?_⟩
  exact (positionAt_inverse ['a', '\r', '\n', 'b'] 2).2.2.2.2.2.1 3 (by decide)

end DocRefs
