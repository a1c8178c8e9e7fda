import DocRefs.Proofs.Text.Lines

/-!
# From a position back to its offset

A position is turned back by the rule that made it: the offset at which its line begins, and the column on top. This
gives back every offset that does not tear a line end apart (`offsetOf?_positionAt`).
-/

namespace DocRefs

/-- The offset at which a line of a text begins. -/
def lineStart? : (line : Nat) → List Char → Option Nat
  | 0, _ => some 0
  | _ + 1, [] => none
  | line + 1, '\r' :: '\n' :: rest => (lineStart? line rest).map (· + 2)
  | line + 1, c :: rest =>
    if c = '\r' ∨ c = '\n' then (lineStart? line rest).map (· + 1) else (lineStart? (line + 1) rest).map (· + 1)

/-- The offset of a position: where its line begins, and the column on top. -/
def offsetOf? (text : List Char) (p : Position) : Option Int :=
  if p.line < 0 then none else (lineStart? p.line.toNat text).map fun start : Nat => (start : Int) + p.character

/-- The first line begins at the beginning. -/
@[simp]
theorem lineStart?_zero (text : List Char) : lineStart? 0 text = some 0 := by
  cases text <;> rfl

theorem lineStart?_both (line : Nat) (rest : List Char) :
    lineStart? (line + 1) ('\r' :: '\n' :: rest) = (lineStart? line rest).map (· + 2) := rfl

/-- A return that no feed follows ends a line. -/
theorem lineStart?_return {line : Nat} {rest : List Char} (h : ∀ more, rest ≠ '\n' :: more) :
    lineStart? (line + 1) ('\r' :: rest) = (lineStart? line rest).map (· + 1) := by
  rw [lineStart?]
  · rw [if_pos (.inl rfl)]
  · exact fun more _ hmore => h more hmore

theorem lineStart?_feed (line : Nat) (rest : List Char) :
    lineStart? (line + 1) ('\n' :: rest) = (lineStart? line rest).map (· + 1) := rfl

/-- A character that ends no line is one more to the beginning of the next. -/
theorem lineStart?_cons {c : Char} (hreturn : c ≠ '\r') (hfeed : c ≠ '\n') (line : Nat) (rest : List Char) :
    lineStart? (line + 1) (c :: rest) = (lineStart? (line + 1) rest).map (· + 1) := by
  rw [lineStart?]
  · rw [if_neg fun h => h.elim hreturn hfeed]
  · exact fun _ hc => absurd hc hreturn

/-- The last line of the front of a text begins as many characters before its end as the line has there, and that is
where the line begins in the whole text, unless a line end would be torn apart. -/
theorem lineStart?_append {front rest last : List Char} {before : List (List Char)}
    (hlines : splitLines front = before ++ [last]) (hwhole : ∀ more, rest = '\n' :: more → front.getLast? ≠ some '\r') :
    ∃ start, lineStart? before.length (front ++ rest) = some start ∧ start + last.length = front.length := by
  have hbehind : ∀ {c : Char} {front : List Char}, (∀ more, rest = '\n' :: more → (c :: front).getLast? ≠ some '\r') →
      ∀ more, rest = '\n' :: more → front.getLast? ≠ some '\r' := by
    intro c front h more hmore hlast
    exact h more hmore (by rw [List.getLast?_cons, hlast, Option.getD_some])
  -- Behind a line end the lines that are still to come are those of the text behind it.
  have hends : ∀ {front : List Char} {before : List (List Char)}, [] :: splitLines front = before ++ [last] →
      ∃ others, before = [] :: others ∧ splitLines front = others ++ [last] := by
    intro front before h
    cases before with
    | nil => exact absurd (List.cons.inj h).2 (splitLines_ne_nil front)
    | cons first others =>
      obtain ⟨rfl, hothers⟩ := List.cons.inj h
      exact ⟨others, rfl, hothers⟩
  fun_induction splitLines front generalizing before with
  | case1 =>
    cases before with
    | nil =>
      obtain ⟨rfl, -⟩ := List.cons.inj hlines
      exact ⟨0, lineStart?_zero _, rfl⟩
    | cons first others => simp at hlines
  | case2 front ih =>
    obtain ⟨others, rfl, hothers⟩ := hends hlines
    obtain ⟨start, hstart, hlength⟩ := ih hothers (hbehind (hbehind hwhole))
    refine ⟨start + 2, ?_, by simp only [List.length_cons]; omega⟩
    rw [List.cons_append, List.cons_append, List.length_cons, lineStart?_both, hstart, Option.map_some]
  | case3 front hnot ih =>
    obtain ⟨others, rfl, hothers⟩ := hends hlines
    obtain ⟨start, hstart, hlength⟩ := ih hothers (hbehind hwhole)
    refine ⟨start + 1, ?_, by simp only [List.length_cons]; omega⟩
    rw [List.cons_append, List.length_cons, lineStart?_return, hstart, Option.map_some]
    intro more hmore
    cases front with
    | nil => exact hwhole more hmore rfl
    | cons c front =>
      rw [List.cons_append, List.cons.injEq] at hmore
      exact hnot front (by rw [hmore.1])
  | case4 front ih =>
    obtain ⟨others, rfl, hothers⟩ := hends hlines
    obtain ⟨start, hstart, hlength⟩ := ih hothers (hbehind hwhole)
    refine ⟨start + 1, ?_, by simp only [List.length_cons]; omega⟩
    rw [List.cons_append, List.length_cons, lineStart?_feed, hstart, Option.map_some]
  | case5 c front _ _ _ hnil => exact absurd hnil (splitLines_ne_nil front)
  | case6 c front _ hreturn hfeed m ms hsplit ih =>
    rw [hsplit] at ih
    cases before with
    | nil =>
      obtain ⟨rfl, rfl⟩ := List.cons.inj hlines
      obtain ⟨rfl, -⟩ := eq_of_splitLines_eq_singleton hsplit
      exact ⟨0, lineStart?_zero _, Nat.zero_add _⟩
    | cons first others =>
      rw [List.cons_append, List.cons.injEq] at hlines
      obtain ⟨rfl, rfl⟩ := hlines
      obtain ⟨start, hstart, hlength⟩ := ih List.cons_append.symm (hbehind hwhole)
      refine ⟨start + 1, ?_, by simp only [List.length_cons]; omega⟩
      rw [List.length_cons] at hstart ⊢
      rw [List.cons_append, lineStart?_cons hreturn hfeed, hstart, Option.map_some]

/-- The offset of the position of an offset is that offset, unless it tears a line end apart. -/
theorem offsetOf?_positionAt {text : List Char} {i : Nat} (hi : i ≤ text.length) (huntorn : Untorn text i) :
    offsetOf? text (positionAt text i) = some (i : Int) := by
  obtain ⟨before, last, l, ls, hfront, -, -, hposition⟩ := exists_lines_of_untorn hi huntorn
  obtain ⟨start, hstart, hlength⟩ := lineStart?_append hfront huntorn
  rw [List.take_append_drop] at hstart
  rw [List.length_take, Nat.min_eq_left hi] at hlength
  rw [hposition, offsetOf?, if_neg (Int.not_lt.2 (Int.natCast_nonneg _)), Int.toNat_natCast, hstart,
    Option.map_some, Option.some.injEq]
  dsimp only
  omega

/-- Between the halves of a line end no offset is given back: the position there is the beginning of the next line. -/
example : positionAt ['\r', '\n'] 1 = ⟨1, 0⟩ ∧ offsetOf? ['\r', '\n'] ⟨1, 0⟩ = some 2 := by decide

end DocRefs
