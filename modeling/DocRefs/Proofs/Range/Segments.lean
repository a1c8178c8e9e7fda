import DocRefs.Proofs.Attempts
import DocRefs.Proofs.Text.Runs
import DocRefs.Range

/-!
# Segments of a list of ranges

What a segment means is said by its form alone (`Range.Denotes`): a numeral is one line, two numerals with a colon
between them are a range, and everything else stands for itself. Reading gives that meaning unless a numeral has too
many digits to be converted (`Range.Oversized`), and then it fails (`Range.ofSegment_eq_ok_iff`,
`Range.ofSegment_isError_iff`).
-/

namespace DocRefs

/-- A run of one or more decimal digits. -/
def IsNumeral (digits : List Char) : Prop :=
  digits ≠ [] ∧ ∀ c ∈ digits, isDecimal c = true

/-- Two numerals with a colon between them. -/
def IsPair (segment first last : List Char) : Prop :=
  segment = first ++ ':' :: last ∧ IsNumeral first ∧ IsNumeral last

theorem isDecimal_colon : isDecimal ':' = false := by decide

/-- A numeral holds no colon, so it is no pair. -/
theorem IsPair.not_isNumeral {segment first last : List Char} (h : IsPair segment first last) :
    ¬ IsNumeral segment := by
  rintro ⟨-, hall⟩
  have := hall ':' (by simp [h.1])
  simp [isDecimal_colon] at this

/-- A numeral is one digit or more. -/
theorem isNumeral_iff (digits : List Char) : (!digits.isEmpty && digits.all isDecimal) = true ↔ IsNumeral digits := by
  simp [IsNumeral]

/-- Conversion succeeds exactly within the limit. -/
theorem readNatural_eq_ok_iff {digits : List Char} {n : Nat} :
    readNatural digits = .ok n ↔ digits.length ≤ maxDigits ∧ n = decimalOfDigits digits := by
  unfold readNatural
  split
  · simp only [reduceCtorEq, false_iff, not_and]
    omega
  · simp only [Except.ok.injEq, eq_comm]
    constructor
    · rintro rfl
      exact ⟨by omega, rfl⟩
    · rintro ⟨-, rfl⟩
      rfl

namespace Range

/-- A segment is cut at its first colon, and only if a numeral stands on either side. -/
theorem pair?_eq_some_iff {segment first last : List Char} :
    pair? segment = some (first, last) ↔ IsPair segment first last := by
  constructor
  · intro h
    unfold pair? at h
    simp only at h
    split at h
    · rename_i after hafter
      split at h
      · rename_i hc
        obtain ⟨rfl, rfl⟩ := Prod.mk.inj (Option.some.inj h)
        simp only [Bool.and_eq_true, Bool.not_eq_true', List.isEmpty_eq_false_iff, List.all_eq_true] at hc
        refine ⟨?_, ⟨hc.1.1, fun c hmem => of_mem_takeWhile hmem⟩, hc.1.2, hc.2⟩
        rw [← hafter, List.takeWhile_append_dropWhile]
      · simp at h
    · simp at h
  · rintro ⟨rfl, hfirst, hlast⟩
    have hcolon : EndsRun isDecimal (':' :: last) := endsRun_cons isDecimal_colon
    have hf : first.isEmpty = false := by simpa using hfirst.1
    have hl : (!last.isEmpty && last.all isDecimal) = true := (isNumeral_iff last).2 hlast
    simp only [pair?, takeWhile_run hfirst.2 hcolon, dropWhile_run hfirst.2 hcolon, hf,
      Bool.not_false, Bool.true_and, hl, ↓reduceIte]

/-- What a segment means. -/
inductive Denotes : List Char → Range → Prop
  | line {segment : List Char} (h : IsNumeral segment) :
      Denotes segment (.lines (decimalOfDigits segment) (decimalOfDigits segment))
  | pair {segment first last : List Char} (h : IsPair segment first last) :
      Denotes segment (.lines (decimalOfDigits first) (decimalOfDigits last))
  | other {segment : List Char} (hline : ¬ IsNumeral segment) (hpair : ∀ first last, ¬ IsPair segment first last) :
      Denotes segment (.unparseable (String.ofList segment))

/-- A segment with a numeral that is too long to be converted. -/
def Oversized (segment : List Char) : Prop :=
  (IsNumeral segment ∧ maxDigits < segment.length) ∨
    ∃ first last, IsPair segment first last ∧ (maxDigits < first.length ∨ maxDigits < last.length)

/-- A pair is cut in one way only. -/
theorem isPair_unique {segment a b c d : List Char} (h : IsPair segment a b)
    (h' : IsPair segment c d) : a = c ∧ b = d := by
  have := (pair?_eq_some_iff.2 h).symm.trans (pair?_eq_some_iff.2 h')
  exact Prod.mk.inj (Option.some.inj this)

/-- One line is oversized if its numeral is too long. -/
theorem oversized_line_iff {segment : List Char} (h : IsNumeral segment) :
    Oversized segment ↔ maxDigits < segment.length := by
  constructor
  · rintro (⟨-, hlt⟩ | ⟨first, last, hpair, -⟩)
    · exact hlt
    · exact absurd h hpair.not_isNumeral
  · intro hlt
    exact .inl ⟨h, hlt⟩

/-- Two lines are oversized if one of their numerals is too long. -/
theorem oversized_pair_iff {segment first last : List Char} (h : IsPair segment first last) :
    Oversized segment ↔ maxDigits < first.length ∨ maxDigits < last.length := by
  constructor
  · rintro (⟨hline, -⟩ | ⟨a, b, hpair, hlt⟩)
    · exact absurd hline h.not_isNumeral
    · obtain ⟨rfl, rfl⟩ := isPair_unique hpair h
      exact hlt
  · intro hlt
    exact .inr ⟨first, last, h, hlt⟩

/-- Every segment means something. -/
theorem exists_denotes (segment : List Char) : ∃ r, Denotes segment r := by
  by_cases hline : IsNumeral segment
  · exact ⟨_, .line hline⟩
  · by_cases hpair : ∃ first last, IsPair segment first last
    · obtain ⟨first, last, h⟩ := hpair
      exact ⟨_, .pair h⟩
    · exact ⟨_, .other hline fun first last h => hpair ⟨first, last, h⟩⟩

/-- A segment that is a numeral is read as one line. -/
theorem ofSegment_line {segment : List Char} (h : IsNumeral segment) :
    ofSegment segment = do
      let line ← readNatural segment
      return .lines line line := by
  rw [ofSegment, if_pos ((isNumeral_iff segment).2 h)]

/-- A segment that is a pair is read as the range between its halves. -/
theorem ofSegment_pair {segment first last : List Char} (h : IsPair segment first last) :
    ofSegment segment = do return .lines (← readNatural first) (← readNatural last) := by
  rw [ofSegment, if_neg fun hn => h.not_isNumeral ((isNumeral_iff segment).1 hn), pair?_eq_some_iff.2 h]

/-- Within the limit a segment is read as what it means. -/
theorem ofSegment_of_denotes {segment : List Char} {r : Range} (h : Denotes segment r) (hsize : ¬ Oversized segment) :
    ofSegment segment = .ok r := by
  cases h with
  | line h =>
    rw [oversized_line_iff h, Nat.not_lt] at hsize
    rw [ofSegment_line h, readNatural_eq_ok_iff.2 ⟨hsize, rfl⟩]
    rfl
  | @pair first last h =>
    rw [oversized_pair_iff h, not_or, Nat.not_lt, Nat.not_lt] at hsize
    rw [ofSegment_pair h, readNatural_eq_ok_iff.2 ⟨hsize.1, rfl⟩, readNatural_eq_ok_iff.2 ⟨hsize.2, rfl⟩]
    rfl
  | other hline hpair =>
    have hp : pair? segment = none := by
      cases h : pair? segment with
      | none => rfl
      | some p => exact absurd (pair?_eq_some_iff.1 h) (hpair p.1 p.2)
    rw [ofSegment, if_neg fun hn => hline ((isNumeral_iff segment).1 hn), hp]

/-- A numeral that is too long is not converted. -/
theorem readNatural_of_lt {digits : List Char} (h : maxDigits < digits.length) :
    readNatural digits = .error ⟨digits.length⟩ := by
  rw [readNatural, if_pos h]

/-- An oversized segment is not read. -/
theorem ofSegment_of_oversized {segment : List Char} (h : Oversized segment) : ∃ e, ofSegment segment = .error e := by
  obtain ⟨hline, hlt⟩ | ⟨first, last, hpair, hlt⟩ := h
  · rw [ofSegment_line hline, readNatural_of_lt hlt]
    exact ⟨_, rfl⟩
  · rw [ofSegment_pair hpair]
    by_cases hf : maxDigits < first.length
    · rw [readNatural_of_lt hf]
      exact ⟨_, rfl⟩
    · rw [readNatural_eq_ok_iff.2 ⟨Nat.le_of_not_lt hf, rfl⟩, readNatural_of_lt (hlt.resolve_left hf)]
      exact ⟨_, rfl⟩

/-- Reading a segment gives what it means, and only if it is not oversized. -/
theorem ofSegment_eq_ok_iff {segment : List Char} {r : Range} :
    ofSegment segment = .ok r ↔ Denotes segment r ∧ ¬ Oversized segment := by
  constructor
  · intro h
    have hsize : ¬ Oversized segment := fun hover => by
      obtain ⟨e, he⟩ := ofSegment_of_oversized hover
      simp [he] at h
    obtain ⟨r', hr'⟩ := exists_denotes segment
    have heq := (ofSegment_of_denotes hr' hsize).symm.trans h
    exact ⟨Except.ok.inj heq ▸ hr', hsize⟩
  · rintro ⟨h, hsize⟩
    exact ofSegment_of_denotes h hsize

/-- Reading a segment fails exactly when it is oversized. -/
theorem ofSegment_isError_iff {segment : List Char} : (∃ e, ofSegment segment = .error e) ↔ Oversized segment := by
  constructor
  · rintro ⟨e, he⟩
    by_contra hsize
    obtain ⟨r, hr⟩ := exists_denotes segment
    rw [ofSegment_of_denotes hr hsize] at he
    simp at he
  · exact ofSegment_of_oversized

/-- What is read of a list is what its segments mean, in order. -/
theorem forall₂_denotes_of_parseList {text : String} {ranges : List Range} (h : parseList text = .ok ranges) :
    List.Forall₂ Denotes (fields ',' text.toList) ranges :=
  (mapM_eq_ok_iff.1 h).imp fun _ _ hs => (ofSegment_eq_ok_iff.1 hs).1

end Range

end DocRefs
