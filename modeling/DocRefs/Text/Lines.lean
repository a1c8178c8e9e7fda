/-!
# Lines and positions

A line ends at a line feed, at a carriage return, or at the two together. A position is the line and column of an
offset, both counted from zero in code points.
-/

namespace DocRefs

/-- A place in a text by its line and its column. -/
structure Position where
  line : Int
  character : Int
deriving Repr, DecidableEq

/-- The stretch of text from one place to another. -/
structure TextRange where
  start : Position
  stop : Position
deriving Repr, DecidableEq

/-- The stretch of text from one offset to another. -/
structure Span where
  start : Int
  stop : Int
deriving Repr, DecidableEq

/-- The lines of a text without their ends, always at least one. -/
def splitLines : List Char → List (List Char)
  | [] => [[]]
  | '\r' :: '\n' :: rest => [] :: splitLines rest
  | '\r' :: rest => [] :: splitLines rest
  | '\n' :: rest => [] :: splitLines rest
  | c :: rest =>
    match splitLines rest with
    | [] => [[c]]
    | l :: ls => (c :: l) :: ls

/-- Every line end written as a line feed. -/
def unifyLineEnds : List Char → List Char
  | [] => []
  | '\r' :: '\n' :: rest => '\n' :: unifyLineEnds rest
  | '\r' :: rest => '\n' :: unifyLineEnds rest
  | c :: rest => c :: unifyLineEnds rest

/-- The offset itself if it lies in a text of that length, else the nearer end. -/
def clampOffset (length : Nat) (offset : Int) : Nat :=
  min offset.toNat length

/-- The position behind the first `count` characters of a text that begins at a position. -/
def positionFrom (line column : Nat) : (count : Nat) → List Char → Position
  | 0, _ => ⟨line, column⟩
  | _ + 1, [] => ⟨line, column⟩
  | 1, '\r' :: _ => ⟨line + 1, 0⟩
  | count + 2, '\r' :: '\n' :: rest => positionFrom (line + 1) 0 count rest
  | count + 1, c :: rest =>
    if c = '\r' ∨ c = '\n' then positionFrom (line + 1) 0 count rest else positionFrom line (column + 1) count rest

/-- The position of an offset. An offset between the two halves of a line end is at the start of a line. -/
def positionAt (text : List Char) (offset : Int) : Position :=
  positionFrom 0 0 (clampOffset text.length offset) text

/-- The positions of the two ends of a span. -/
def rangeOf (text : List Char) (span : Span) : TextRange :=
  ⟨positionAt text span.start, positionAt text span.stop⟩

/-- The text of a line, empty where there is no such line. -/
def lineText (text : List Char) (line : Int) : List Char :=
  if line < 0 then [] else (splitLines text)[line.toNat]?.getD []

/-- The first `count` characters; a negative count leaves that many off the end. -/
def takeSigned (count : Int) (text : List Char) : List Char :=
  if count < 0 then text.take (text.length - count.natAbs) else text.take count.toNat

/-! ## Positions by lines

`positionAt_eq` says what a position is by the lines of the text before the offset: they are counted, and the last of
them is measured.
-/

/-- The position behind lines, the first of which goes on at a column. -/
def behind (line column : Nat) : List (List Char) → Position
  | [] => ⟨line, column⟩
  | [l] => ⟨line, column + l.length⟩
  | _ :: l :: ls => behind (line + 1) 0 (l :: ls)

/-- Every text has a line. -/
theorem splitLines_ne_nil (text : List Char) : splitLines text ≠ [] := by
  fun_cases splitLines text <;> simp_all

theorem behind_cons_splitLines (line column : Nat) (l : List Char) (text : List Char) :
    behind line column (l :: splitLines text) = behind (line + 1) 0 (splitLines text) := by
  cases h : splitLines text with
  | nil => exact absurd h (splitLines_ne_nil text)
  | cons l ls => simp [behind]

/-- A return that no feed follows ends a line. -/
theorem splitLines_return (text : List Char) (h : ∀ rest, text ≠ '\n' :: rest) :
    splitLines ('\r' :: text) = [] :: splitLines text := by
  rw [splitLines]
  exact h

/-- A character that ends no line is the first one of its line. -/
theorem splitLines_cons (c : Char) (text : List Char) (hr : c ≠ '\r') (hn : c ≠ '\n') :
    ∃ l ls, splitLines text = l :: ls ∧ splitLines (c :: text) = (c :: l) :: ls := by
  cases h : splitLines text with
  | nil => exact absurd h (splitLines_ne_nil text)
  | cons l ls => exact ⟨l, ls, rfl, by simp [splitLines, hr, h]⟩

/-- The position behind some characters is told by the lines that they make. -/
theorem positionFrom_eq_behind (line column count : Nat) (text : List Char) :
    positionFrom line column count text = behind line column (splitLines (text.take count)) := by
  fun_induction positionFrom line column count text with
  | case1 => simp [splitLines, behind]
  | case2 => simp [splitLines, behind]
  | case3 => simp [splitLines, behind]
  | case4 line column count rest ih =>
    rw [ih, List.take_succ_cons, List.take_succ_cons, splitLines, behind_cons_splitLines]
  | case5 line column count c rest h1 h2 h3 ih =>
    rw [ih, List.take_succ_cons]
    rcases h3 with rfl | rfl
    · rw [splitLines_return, behind_cons_splitLines]
      intro others ht
      cases count with
      | zero => exact h1 rfl rfl
      | succ count =>
        cases rest with
        | nil => simp at ht
        | cons d rest =>
          simp only [List.take_succ_cons, List.cons.injEq] at ht
          exact h2 count rest rfl rfl (by rw [ht.1])
    · rw [splitLines, behind_cons_splitLines]
  | case6 line column count c rest h1 h2 h3 ih =>
    rw [ih, List.take_succ_cons]
    obtain ⟨l, ls, ht, hc⟩ := splitLines_cons c (rest.take count) (fun h => h3 (.inl h)) (fun h => h3 (.inr h))
    rw [ht, hc]
    cases ls with
    | nil =>
      simp only [behind, List.length_cons, Position.mk.injEq, true_and]
      omega
    | cons => rfl

theorem behind_cons (line : Nat) (l : List Char) (ls : List (List Char)) :
    behind line 0 (l :: ls) = ⟨line + ls.length, (((l :: ls).getLast?.getD []).length : Nat)⟩ := by
  induction ls generalizing line l with
  | nil => simp [behind]
  | cons m ms ih =>
    rw [behind, ih]
    simp only [List.length_cons, List.getLast?_cons_cons, Position.mk.injEq, and_true]
    omega

/-- The line of an offset is how many lines end before it, its column the length of the last line up to it. -/
theorem positionAt_eq (text : List Char) (offset : Int) :
    positionAt text offset =
      let before := splitLines (text.take (clampOffset text.length offset))
      ⟨before.length - 1, ((before.getLast?.getD []).length : Nat)⟩ := by
  rw [positionAt, positionFrom_eq_behind]
  cases h : splitLines (text.take (clampOffset text.length offset)) with
  | nil => exact absurd h (splitLines_ne_nil _)
  | cons l ls =>
    rw [behind_cons]
    simp

end DocRefs
