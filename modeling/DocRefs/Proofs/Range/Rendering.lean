import DocRefs.Proofs.Range.Segments
import DocRefs.Proofs.Text.Fields
import Mathlib

/-!
# Rendered ranges are read back

A list of ranges that was read is rendered with a space behind every comma. Without these spaces it is read back as the
same list (`Range.rendering_lossless`), so the rendering tells lists that were read apart, although a segment that is no
range is copied as it stands and may be any text without a comma. Each range is read back from its own rendering
(`Range.ofSegment_format`): a numeral of any script is rendered in the digits `0` to `9`, and in no more of them than it
was read from (`decimalOfDigits_lt`).
-/

namespace DocRefs

/-! ## Numerals -/

theorem decimalValue?_of_isDigit {c : Char} (h : c.isDigit = true) : decimalValue? c = some (c.toNat - '0'.toNat) := by
  have hlt : c.toNat < 128 := (Char.isDigit_iff_toNat.1 h).2.trans_lt (by decide)
  rw [decimalValue?, if_pos hlt, if_pos h]

/-- The value of a digit, whatever its script, is one of ten. -/
theorem decimalValue?_lt {c : Char} {n : Nat} (h : decimalValue? c = some n) : n < 10 := by
  unfold decimalValue? at h
  split at h
  · split at h
    · rename_i hdigit
      have hbound : c.toNat ≤ 57 := (Char.isDigit_iff_toNat.1 hdigit).2
      have hzero : '0'.toNat = 48 := rfl
      obtain rfl := Option.some.inj h
      omega
    · simp at h
  · obtain ⟨first, hfind, rfl⟩ := Option.map_eq_some_iff.1 h
    have hrow := List.find?_some hfind
    simp only [Bool.and_eq_true, decide_eq_true_eq] at hrow
    omega

/-- A digit more counts once, and those before it ten times as much. -/
theorem decimalOfDigits_concat (digits : List Char) (c : Char) :
    decimalOfDigits (digits ++ [c]) = 10 * decimalOfDigits digits + (decimalValue? c).getD 0 := by
  rw [decimalOfDigits, List.foldl_append]
  rfl

/-- A run of digits has a value below the power of ten for its length. -/
theorem decimalOfDigits_lt (digits : List Char) : decimalOfDigits digits < 10 ^ digits.length := by
  induction digits using List.reverseRecOn with
  | nil => decide
  | append_singleton digits c ih =>
    have hvalue : (decimalValue? c).getD 0 < 10 := by
      cases h : decimalValue? c with
      | none => decide
      | some n => exact decimalValue?_lt h
    rw [decimalOfDigits_concat, List.length_append, List.length_singleton, pow_succ]
    omega

/-- The decimal digits of a number have its value. -/
theorem decimalOfDigits_toDigits (n : Nat) : decimalOfDigits (Nat.toDigits 10 n) = n := by
  have hdigits : ∀ c ∈ Nat.toDigits 10 n, c.isDigit = true :=
    fun c hc => Nat.isDigit_of_mem_toDigits (by decide) (by decide) hc
  have hvalue : ∀ (m : Nat), ∀ c ∈ Nat.toDigits 10 n,
      10 * m + (decimalValue? c).getD 0 = 10 * m + (c.toNat - '0'.toNat) := by
    intro m c hc
    rw [decimalValue?_of_isDigit (hdigits c hc), Option.getD_some]
  rw [decimalOfDigits, List.foldl_ext _ _ _ hvalue, ← Nat.ofDigitChars_eq_foldl, Nat.ofDigitChars_ten_toDigits]

/-- The decimal digits of a number are a numeral. -/
theorem isNumeral_toDigits (n : Nat) : IsNumeral (Nat.toDigits 10 n) := by
  refine ⟨Nat.toDigits_ne_nil, ?_⟩
  intro c hc
  rw [isDecimal, decimalValue?_of_isDigit (Nat.isDigit_of_mem_toDigits (by decide) (by decide) hc), Option.isSome_some]

/-- A number that was read is written in no more digits than may be read. -/
theorem length_toDigits_le {digits : List Char} (h : digits.length ≤ maxDigits) :
    (Nat.toDigits 10 (decimalOfDigits digits)).length ≤ maxDigits := by
  refine (Nat.length_toDigits_le_iff (by decide) (by decide)).2 ?_
  exact (decimalOfDigits_lt digits).trans_le (Nat.pow_le_pow_right (by decide) h)

/-- The decimal digits of a number are read as that number, if they may be read at all. -/
theorem readNatural_toDigits {n : Nat} (h : (Nat.toDigits 10 n).length ≤ maxDigits) :
    readNatural (Nat.toDigits 10 n) = .ok n :=
  readNatural_eq_ok_iff.2 ⟨h, (decimalOfDigits_toDigits n).symm⟩

/-- No digit is a comma. -/
theorem comma_notMem_toDigits (n : Nat) : ',' ∉ Nat.toDigits 10 n :=
  fun hc => absurd ((isNumeral_toDigits n).2 _ hc) (by decide)

/-! ## Writing within the limit -/

/-- Writes a whole number, unless it has too many digits. -/
def writeInteger (n : Int) : Except NumeralTooLong String :=
  let digits := (Nat.toDigits 10 n.natAbs).length
  if maxDigits < digits then .error ⟨digits⟩ else .ok (toString n)

/-- A number whose digits are not too many is written by them. -/
theorem writeInteger_natCast {n : Nat} (h : (Nat.toDigits 10 n).length ≤ maxDigits) :
    writeInteger n = .ok (toString n) := by
  rw [writeInteger, Int.natAbs_natCast, if_neg (Nat.not_lt.2 h)]
  rfl

namespace Range

/-- Writes a range as it is rendered, unless one of its lines has too many digits. -/
def write : Range → Except NumeralTooLong String
  | lines first last =>
    if first = last then writeInteger first
    else do return (← writeInteger first) ++ ":" ++ (← writeInteger last)
  | unparseable raw => .ok raw

/-- Writes a list of ranges as it is rendered. -/
def writeList (ranges : List Range) : Except NumeralTooLong String := do
  return ", ".intercalate (← ranges.mapM write)

/-! ## One range -/

/-- One line is written by its number. -/
theorem toList_format_line (n : Nat) : (format (.lines n n)).toList = Nat.toDigits 10 n := by
  rw [format, if_pos rfl]
  exact Nat.toList_repr

/-- Two lines are written by their numbers with a colon between them. -/
theorem toList_format_pair {m n : Nat} (h : m ≠ n) :
    (format (.lines m n)).toList = Nat.toDigits 10 m ++ ':' :: Nat.toDigits 10 n := by
  have htext : format (.lines m n) = toString m ++ ":" ++ toString n := if_neg (by simpa using h)
  rw [htext]
  simp

/-- Two numbers with a colon between them are a pair. -/
theorem isPair_toDigits (m n : Nat) :
    IsPair (Nat.toDigits 10 m ++ ':' :: Nat.toDigits 10 n) (Nat.toDigits 10 m) (Nat.toDigits 10 n) :=
  ⟨rfl, isNumeral_toDigits m, isNumeral_toDigits n⟩

variable {segment : List Char} {r : Range}

/-- A range that was read has lines that may be written, or it is the segment as it stands. -/
theorem lines_or_unparseable_of_ofSegment (h : ofSegment segment = .ok r) :
    (∃ m n : Nat, r = .lines m n ∧ (Nat.toDigits 10 m).length ≤ maxDigits ∧ (Nat.toDigits 10 n).length ≤ maxDigits) ∨
      r = .unparseable (String.ofList segment) := by
  obtain ⟨hmeans, hsize⟩ := ofSegment_eq_ok_iff.1 h
  cases hmeans with
  | line hline =>
    rw [oversized_line_iff hline, Nat.not_lt] at hsize
    exact .inl ⟨_, _, rfl, length_toDigits_le hsize, length_toDigits_le hsize⟩
  | pair hpair =>
    rw [oversized_pair_iff hpair, not_or, Nat.not_lt, Nat.not_lt] at hsize
    exact .inl ⟨_, _, rfl, length_toDigits_le hsize.1, length_toDigits_le hsize.2⟩
  | other => exact .inr rfl

/-- A range that was read is read back from its rendering. -/
theorem ofSegment_format (h : ofSegment segment = .ok r) : ofSegment (format r).toList = .ok r := by
  obtain ⟨m, n, rfl, hm, hn⟩ | rfl := lines_or_unparseable_of_ofSegment h
  · by_cases heq : m = n
    · -- equal lines are rendered as one, whether or not they were read from a pair
      rw [heq, toList_format_line, ofSegment_line (isNumeral_toDigits n), readNatural_toDigits hn]
      rfl
    · rw [toList_format_pair heq, ofSegment_pair (isPair_toDigits m n), readNatural_toDigits hm,
        readNatural_toDigits hn]
      rfl
  · rw [format, String.toList_ofList]
    exact h

/-- The rendering of a range has a comma only where the segment has one. -/
theorem comma_notMem_format (h : ofSegment segment = .ok r) (hcomma : ',' ∉ segment) : ',' ∉ (format r).toList := by
  obtain ⟨m, n, rfl, -⟩ | rfl := lines_or_unparseable_of_ofSegment h
  · by_cases heq : m = n
    · rw [heq, toList_format_line]
      exact comma_notMem_toDigits n
    · rw [toList_format_pair heq]
      simp [comma_notMem_toDigits]
  · rwa [format, String.toList_ofList]

/-- A range that was read is written as it is rendered. -/
theorem write_of_ofSegment (h : ofSegment segment = .ok r) : write r = .ok (format r) := by
  obtain ⟨m, n, rfl, hm, hn⟩ | rfl := lines_or_unparseable_of_ofSegment h
  · rw [write, format, writeInteger_natCast hm, writeInteger_natCast hn]
    split <;> rfl
  · rfl

/-! ## Lists of ranges -/

/-- A text without the space that stands behind each of its commas, where one does. -/
def withoutCommaSpaces : List Char → List Char
  | [] => []
  | ',' :: ' ' :: rest => ',' :: withoutCommaSpaces rest
  | c :: rest => c :: withoutCommaSpaces rest

/-- A piece without commas stays as it is. -/
theorem withoutCommaSpaces_append {piece : List Char} (h : ',' ∉ piece) (rest : List Char) :
    withoutCommaSpaces (piece ++ rest) = piece ++ withoutCommaSpaces rest := by
  induction piece with
  | nil => rfl
  | cons c piece ih =>
    obtain ⟨hc, hpiece⟩ := not_or.1 (mt List.mem_cons.2 h)
    rw [List.cons_append, withoutCommaSpaces, ih hpiece, List.cons_append]
    exact fun _ hcomma => absurd hcomma.symm hc

/-- The spaces that part pieces without commas are those behind the commas. -/
theorem withoutCommaSpaces_intercalate {pieces : List (List Char)} (h : ∀ piece ∈ pieces, ',' ∉ piece) :
    withoutCommaSpaces (List.intercalate [',', ' '] pieces) = List.intercalate [','] pieces := by
  induction pieces with
  | nil => rfl
  | cons piece pieces ih =>
    have hpiece := h piece List.mem_cons_self
    have hpieces := ih fun p hp => h p (List.mem_cons_of_mem piece hp)
    cases pieces with
    | nil =>
      have hend := withoutCommaSpaces_append hpiece []
      rw [List.append_nil, withoutCommaSpaces, List.append_nil] at hend
      simpa using hend
    | cons next others =>
      rw [List.intercalate_cons_cons, List.intercalate_cons_cons, List.append_assoc, withoutCommaSpaces_append hpiece,
        List.append_assoc, ← hpieces]
      rfl

variable {text : String} {rs : List Range}

/-- Ranges are written one after the other with a comma and a blank between them. -/
theorem toList_formatList (rs : List Range) :
    (formatList rs).toList = List.intercalate [',', ' '] (rs.map fun r => (format r).toList) := by
  rw [formatList, String.toList_intercalate, List.map_map]
  rfl

/-- Every range of a list that was read was read from a segment without a comma. -/
theorem exists_segment_of_mem (h : parseList text = .ok rs) {r : Range} (hr : r ∈ rs) :
    ∃ segment, ',' ∉ segment ∧ ofSegment segment = .ok r := by
  obtain ⟨segment, hmem, hread⟩ := exists_of_mem_mapM h hr
  exact ⟨segment, notMem_of_mem_fields hmem, hread⟩

/-- A list that was read is written as it is rendered. -/
theorem writeList_of_parseList (h : parseList text = .ok rs) : writeList rs = .ok (formatList rs) := by
  have hwritten : rs.mapM write = .ok (rs.map format) := by
    refine mapM_eq_ok_iff.2 (List.forall₂_map_right_iff.2 (List.forall₂_same.2 fun r hr => ?_))
    obtain ⟨segment, -, hread⟩ := exists_segment_of_mem h hr
    exact write_of_ofSegment hread
  rw [writeList, hwritten]
  rfl

/-- A list that was read is read back from its rendering without the spaces. -/
theorem parseList_withoutCommaSpaces (h : parseList text = .ok rs) :
    parseList (String.ofList (withoutCommaSpaces (formatList rs).toList)) = .ok rs := by
  have hcommas : ∀ piece ∈ rs.map fun r => (format r).toList, ',' ∉ piece := by
    intro piece hpiece
    obtain ⟨r, hr, rfl⟩ := List.mem_map.1 hpiece
    obtain ⟨segment, hcomma, hread⟩ := exists_segment_of_mem h hr
    exact comma_notMem_format hread hcomma
  have hne : rs.map (fun r => (format r).toList) ≠ [] := by
    have hlength := (mapM_eq_ok_iff.1 h).length_eq
    have hpos := List.length_pos_iff.2 (fields_ne_nil ',' text.toList)
    rw [ne_eq, List.map_eq_nil_iff, ← List.length_eq_zero_iff]
    omega
  rw [parseList, String.toList_ofList, toList_formatList, withoutCommaSpaces_intercalate hcommas,
    fields_intercalate hne hcommas]
  refine mapM_eq_ok_iff.2 (List.forall₂_map_left_iff.2 (List.forall₂_same.2 fun r hr => ?_))
  obtain ⟨segment, -, hread⟩ := exists_segment_of_mem h hr
  exact ofSegment_format hread

/-- Rendering a list of ranges that was read loses nothing. The list has what each segment of the text means, in order;
it is written without a failure, as it is rendered; without the spaces behind the commas the rendering is read as the
list again; and no other list that was read is rendered in the same way. -/
theorem rendering_lossless (h : parseList text = .ok rs) :
    List.Forall₂ Denotes (fields ',' text.toList) rs ∧
    writeList rs = .ok (formatList rs) ∧
    parseList (String.ofList (withoutCommaSpaces (formatList rs).toList)) = .ok rs ∧
    ∀ text' rs', parseList text' = .ok rs' → formatList rs' = formatList rs → rs' = rs := by
  refine ⟨forall₂_denotes_of_parseList h, writeList_of_parseList h, parseList_withoutCommaSpaces h, ?_⟩
  intro text' rs' h' hsame
  have hback := parseList_withoutCommaSpaces h'
  rw [hsame, parseList_withoutCommaSpaces h] at hback
  exact (Except.ok.inj hback).symm

/-- Arabic digits, leading zeros, a pair of equal lines, and segments with a space, with a sign and with nothing. -/
theorem rendering_lossless_mixed :
    let rs : List Range := [.lines 3 3, .lines 7 7, .lines 5 5, .lines 2 9, .unparseable " 4",
      .unparseable "-1", .unparseable ""]
    parseList "٣,007,5:5,2:9, 4,-1," = .ok rs ∧ writeList rs = .ok "3, 7, 5, 2:9,  4, -1, " ∧
      parseList "3,7,5,2:9, 4,-1," = .ok rs ∧ ∀ text rs', parseList text = .ok rs' →
          formatList rs' = formatList rs → rs' = rs := by
  dsimp only
  have hread : parseList "٣,007,5:5,2:9, 4,-1," =
      .ok [.lines 3 3, .lines 7 7, .lines 5 5, .lines 2 9, .unparseable " 4", .unparseable "-1", .unparseable ""] := rfl
  obtain ⟨-, hwritten, hback, hinjective⟩ := rendering_lossless hread
  exact ⟨hread, hwritten.trans (by cbv), hback, hinjective⟩

end Range

end DocRefs
