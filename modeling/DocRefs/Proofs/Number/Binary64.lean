import DocRefs.Number.Binary64
import Mathlib

/-!
# Instants

A clock that starts at zero and only moves forward shows instants (`Binary64.IsInstant`): numbers of the format that are
not negative. Sums of instants are rounded, so that laws of exact sums do not carry over by themselves. What a clock
needs does hold, because rounding keeps the order of numbers (`Binary64.rounded_mono`) and leaves a number of the format
as it is (`Binary64.rounded_rounded`): no instant is later than itself and some seconds more, and a wait that begins
later does not end earlier.
-/

namespace DocRefs.Binary64

variable {x y z d : Binary64} {a b den num units : Nat} {negative : Bool}

/-! ## Rounding -/

/-- A quotient is not rounded below its whole part. -/
theorem div_le_roundQuotient (num den : Nat) : num / den ≤ roundQuotient num den := by
  unfold roundQuotient
  dsimp only
  split_ifs <;> omega

/-- A quotient is not rounded above the next whole number. -/
theorem roundQuotient_le (num den : Nat) : roundQuotient num den ≤ num / den + 1 := by
  unfold roundQuotient
  dsimp only
  split_ifs <;> omega

/-- A quotient that is whole is left as it is. -/
theorem roundQuotient_mul (q : Nat) (h : 0 < den) : roundQuotient (q * den) den = q := by
  unfold roundQuotient
  dsimp only
  rw [Nat.mul_mod_left, Nat.mul_div_cancel q h, if_pos (by omega)]

/-- Rounding a quotient keeps the order. -/
theorem roundQuotient_mono (h : a ≤ b) : roundQuotient a den ≤ roundQuotient b den := by
  rcases Nat.lt_or_ge (a / den) (b / den) with hlt | hge
  · exact (roundQuotient_le a den).trans (Nat.le_trans hlt (div_le_roundQuotient b den))
  · have hdiv : a / den = b / den := Nat.le_antisymm (Nat.div_le_div_right h) hge
    have hmod : a % den ≤ b % den := by
      have ha := Nat.div_add_mod a den
      have hb := Nat.div_add_mod b den
      rw [hdiv] at ha
      omega
    unfold roundQuotient
    dsimp only
    rw [hdiv]
    split_ifs <;> omega

theorem spacing_pos (units : Nat) : 0 < spacing units :=
  Nat.pos_of_ne_zero (by simp [spacing])

/-- A count of units rounded to a number of the format, if there were no largest one. -/
def rounded (units : Nat) : Nat :=
  roundQuotient units (spacing units) * spacing units

/-- A whole number of units is rounded, and infinite from the overflow on. -/
theorem ofUnits_one (negative : Bool) (units : Nat) :
    ofUnits negative units 1 = if overflow ≤ rounded units then infinite negative
      else finite negative (rounded units) := by
  simp only [ofUnits, rounded, Nat.div_one, Nat.one_mul]
  rfl

/-- What is rounded to the overflow or above is infinite. -/
theorem ofUnits_of_le (h : overflow ≤ rounded units) : ofUnits negative units 1 = infinite negative :=
  (ofUnits_one negative units).trans (if_pos h)

/-- What is rounded below the overflow is finite. -/
theorem ofUnits_of_lt (h : rounded units < overflow) : ofUnits negative units 1 = finite negative (rounded units) :=
  (ofUnits_one negative units).trans (if_neg (Nat.not_le_of_lt h))

/-- What the spacing divides needs no rounding. -/
theorem rounded_of_dvd (h : spacing units ∣ units) : rounded units = units := by
  have hq : units / spacing units * spacing units = units := Nat.div_mul_cancel h
  have hround := roundQuotient_mul (units / spacing units) (spacing_pos units)
  rw [hq] at hround
  rw [rounded, hround, hq]

/-- Below two to the power 53 every count of units is a number of the format. -/
theorem spacing_of_lt (h : units < 2 ^ 53) : spacing units = 1 := by
  have hlog : units.log2 ≤ 52 := by
    rcases Nat.eq_zero_or_pos units with rfl | hpos
    · simp
    · exact Nat.lt_succ_iff.1 ((Nat.log2_lt hpos.ne').2 h)
  rw [spacing, Nat.sub_eq_zero_of_le hlog, Nat.pow_eq, pow_zero]

/-- A number has at most 53 significant bits before it is rounded. -/
theorem div_spacing_lt (units : Nat) : units / spacing units < 2 ^ 53 := by
  rw [Nat.div_lt_iff_lt_mul (spacing_pos units)]
  rcases Nat.lt_or_ge units (2 ^ 53) with hlt | hge
  · exact hlt.trans_le (Nat.le_mul_of_pos_right _ (spacing_pos units))
  · have hne : units ≠ 0 := by omega
    have hlog : 53 ≤ units.log2 := (Nat.le_log2 hne).2 hge
    have hsum : 2 ^ 53 * spacing units = 2 ^ (units.log2 + 1) := by
      rw [spacing, Nat.pow_eq, ← pow_add]
      congr 1
      omega
    rw [hsum]
    exact Nat.lt_log2_self

theorem roundQuotient_spacing_le (units : Nat) : roundQuotient units (spacing units) ≤ 2 ^ 53 :=
  (roundQuotient_le _ _).trans (div_spacing_lt units)

/-- A number is rounded to the next power of two at most. -/
theorem rounded_le (units : Nat) : rounded units ≤ 2 ^ (53 + (units.log2 - 52)) := by
  rw [pow_add]
  exact Nat.mul_le_mul_right _ (roundQuotient_spacing_le units)

/-- A rounded count of units is a multiple of the spacing at the place to which it was rounded. -/
theorem spacing_dvd_rounded (units : Nat) : spacing (rounded units) ∣ rounded units := by
  rcases Nat.lt_or_eq_of_le (rounded_le units) with hlt | heq
  · have hlog : (rounded units).log2 - 52 ≤ units.log2 - 52 := by
      rcases Nat.eq_zero_or_pos (rounded units) with hzero | hpos
      · simp [hzero]
      · have := (Nat.log2_lt hpos.ne').2 hlt
        omega
    exact (Nat.pow_dvd_pow 2 hlog).trans (Nat.dvd_mul_left _ _)
  · -- Rounded up to the next power of two, where the spacing is twice as wide.
    rw [heq, spacing, Nat.log2_two_pow]
    exact Nat.pow_dvd_pow 2 (by omega)

/-- What is rounded once needs no rounding again. -/
theorem rounded_rounded (units : Nat) : rounded (rounded units) = rounded units :=
  rounded_of_dvd (spacing_dvd_rounded units)

/-- What is below a power of two is not rounded above it. -/
theorem rounded_le_two_pow {k : Nat} (h : a < 2 ^ k) : rounded a ≤ 2 ^ k := by
  rcases Nat.lt_or_ge k 53 with hk | hk
  · have hsmall : a < 2 ^ 53 := h.trans_le (Nat.pow_le_pow_right (by omega) (by omega))
    rw [rounded_of_dvd (by rw [spacing_of_lt hsmall]; exact Nat.one_dvd a)]
    exact h.le
  · refine (rounded_le a).trans (Nat.pow_le_pow_right (by omega) ?_)
    rcases Nat.eq_zero_or_pos a with rfl | hpos
    · simpa using hk
    · have := (Nat.log2_lt hpos.ne').2 h
      omega

/-- What is at or above a power of two is not rounded below it. -/
theorem two_pow_log2_le_rounded (h : b ≠ 0) : 2 ^ b.log2 ≤ rounded b := by
  obtain ⟨m, hm⟩ : spacing b ∣ 2 ^ b.log2 := Nat.pow_dvd_pow 2 (Nat.sub_le _ _)
  have hle : m ≤ b / spacing b := by
    rw [Nat.le_div_iff_mul_le (spacing_pos b), Nat.mul_comm, ← hm]
    exact Nat.log2_self_le h
  rw [hm, Nat.mul_comm]
  exact Nat.mul_le_mul_right _ (hle.trans (div_le_roundQuotient _ _))

/-- Rounding keeps the order. Where the spacing grows in between, a power of two does not lie outside the rounded
numbers. -/
theorem rounded_mono (h : a ≤ b) : rounded a ≤ rounded b := by
  rcases Nat.eq_zero_or_pos a with rfl | hpos
  · rw [rounded_of_dvd (Nat.dvd_zero _)]
    exact Nat.zero_le _
  have hb : b ≠ 0 := by omega
  have hlog : a.log2 ≤ b.log2 := (Nat.le_log2 hb).2 ((Nat.log2_self_le hpos.ne').trans h)
  rcases Nat.lt_or_eq_of_le hlog with hlt | heq
  · have ha : a < 2 ^ b.log2 := (Nat.log2_lt hpos.ne').1 hlt
    exact (rounded_le_two_pow ha).trans (two_pow_log2_le_rounded hb)
  · have hspacing : spacing a = spacing b := by rw [spacing, spacing, heq]
    rw [rounded, rounded, hspacing]
    exact Nat.mul_le_mul_right _ (roundQuotient_mono h)

/-! ## Instants -/

/-- What a clock may show that starts at zero and only moves forward. -/
inductive IsInstant : Binary64 → Prop
  | finite {units : Nat} (hrounded : rounded units = units) (hlt : units < overflow) : IsInstant (finite false units)
  | infinite : IsInstant (infinite false)

theorem overflow_pos : 0 < overflow := by
  have hpow : ∀ k, 0 < Nat.pow 2 k := Nat.two_pow_pos
  unfold overflow
  apply hpow

theorem isInstant_zero : IsInstant zero :=
  .finite (rounded_of_dvd (Nat.dvd_zero _)) overflow_pos

/-- Every rounded number without a sign is an instant. -/
theorem isInstant_ofUnits (units : Nat) : IsInstant (ofUnits false units 1) := by
  rcases Nat.lt_or_ge (rounded units) overflow with hlt | hge
  · rw [ofUnits_of_lt hlt]
    exact .finite (rounded_rounded units) hlt
  · rw [ofUnits_of_le hge]
    exact .infinite

/-- A finite instant is left as it is when it is rounded. -/
theorem ofUnits_of_isInstant (h : IsInstant (finite false units)) : ofUnits false units 1 = finite false units := by
  cases h with
  | finite hrounded hlt => rw [ofUnits_of_lt (hrounded.symm ▸ hlt), hrounded]

/-- More units are not a smaller number. -/
theorem ofUnits_mono (h : a ≤ b) : (ofUnits false a 1).le (ofUnits false b 1) = true := by
  have hle := rounded_mono h
  rcases Nat.lt_or_ge (rounded b) overflow with hb | hb
  · rw [ofUnits_of_lt hb, ofUnits_of_lt (hle.trans_lt hb)]
    exact decide_eq_true (Int.ofNat_le.2 hle)
  · rw [ofUnits_of_le hb]
    rcases Nat.lt_or_ge (rounded a) overflow with ha | ha
    · rw [ofUnits_of_lt ha]
      rfl
    · rw [ofUnits_of_le ha]
      rfl

theorem le_trans (hxy : x.le y = true) (hyz : y.le z = true) : x.le z = true := by
  cases x <;> cases y <;> cases z <;>
    simp only [le, decide_eq_true_eq, Bool.or_eq_true, Bool.not_eq_true'] at * <;> grind

theorem IsInstant.le_refl (h : IsInstant x) : x.le x = true := by
  cases h <;> simp [le]

theorem IsInstant.le_total (hx : IsInstant x) (hy : IsInstant y) : x.le y = true ∨ y.le x = true := by
  cases hx <;> cases hy <;> simp [le, signedUnits]
  omega

theorem IsInstant.le_antisymm (hx : IsInstant x) (hy : IsInstant y) (hxy : x.le y = true)
    (hyx : y.le x = true) : x = y := by
  cases hx <;> cases hy <;> simp_all [le, signedUnits]
  omega

theorem IsInstant.le_infinite (h : IsInstant x) : x.le (Binary64.infinite false) = true := by
  cases h <;> rfl

theorem zero_le_of_isPositive (h : d.isPositive = true) : zero.le d = true := by
  cases d with
  | finite negative units =>
    obtain ⟨rfl, -⟩ : negative = false ∧ units ≠ 0 := by simpa [isPositive] using h
    simp [zero, le, signedUnits]
  | infinite negative =>
    obtain rfl : negative = false := by simpa [isPositive] using h
    rfl
  | nan => simp [isPositive] at h

/-- What some seconds add to an instant: everything, or a count of units before the sum is rounded. -/
theorem add_of_zero_le (h : zero.le d = true) :
    infinite false + d = infinite false ∧
      ((d.isPositive = true ∧ ∀ units, finite false units + d = infinite false) ∨
        ∃ more, (d.isPositive = false → more = 0) ∧ ∀ units,
        finite false units + d = ofUnits false (units + more) 1) := by
  have hzero : ofUnits false 0 1 = zero := ofUnits_of_isInstant isInstant_zero
  cases d with
  | finite negative more =>
    have hmore : signedUnits negative more = more := by
      cases negative with
      | false => rfl
      | true =>
        simp only [zero, le, signedUnits, Bool.false_eq_true, ↓reduceIte, decide_eq_true_eq] at h ⊢
        omega
    have hpositive : isPositive (finite negative more) = false → more = 0 := by
      intro hnot
      cases negative with
      | false => simpa [isPositive] using hnot
      | true =>
        simp only [signedUnits, ↓reduceIte] at hmore
        omega
    refine ⟨rfl, .inr ⟨more, hpositive, ?_⟩⟩
    intro units
    have hsum : signedUnits false units + (more : Int) = ((units + more : Nat) : Int) := by simp [signedUnits]
    change Binary64.add _ _ = _
    simp only [Binary64.add, hmore, hsum]
    by_cases hnone : ((units + more : Nat) : Int) = 0
    · rw [if_pos hnone, Int.natCast_eq_zero.1 hnone, hzero]
      rfl
    · rw [if_neg hnone, Int.natAbs_natCast, decide_eq_false (by omega)]
  | infinite negative =>
    obtain rfl : negative = false := by simpa [zero, le] using h
    exact ⟨rfl, .inl ⟨rfl, fun _ => rfl⟩⟩
  | nan => simp [zero, le] at h

/-- A while that is not negative leads from an instant to an instant. -/
theorem IsInstant.add (hx : IsInstant x) (hd : zero.le d = true) : IsInstant (x + d) := by
  obtain ⟨hinfinite, hfinite⟩ := add_of_zero_le hd
  cases hx with
  | infinite =>
    rw [hinfinite]
    exact .infinite
  | finite =>
    rcases hfinite with ⟨-, hsum⟩ | ⟨more, -, hsum⟩
    · rw [hsum]
      exact .infinite
    · rw [hsum]
      exact isInstant_ofUnits _

/-- A number of seconds that is not positive moves no clock. -/
theorem IsInstant.add_of_not_isPositive (hx : IsInstant x) (hd : zero.le d = true)
    (h : d.isPositive = false) : x + d = x := by
  obtain ⟨hinfinite, hfinite⟩ := add_of_zero_le hd
  cases hx with
  | infinite => exact hinfinite
  | finite hrounded hlt =>
    rcases hfinite with ⟨hpositive, -⟩ | ⟨more, hmore, hsum⟩
    · rw [h] at hpositive
      exact Bool.noConfusion hpositive
    · rw [hsum, hmore h, Nat.add_zero, ofUnits_of_isInstant (.finite hrounded hlt)]

/-- What begins later does not end earlier. -/
theorem IsInstant.add_le_add (hx : IsInstant x) (hy : IsInstant y) (h : x.le y = true) (hd : zero.le d = true) :
    (x + d).le (y + d) = true := by
  obtain ⟨hinfinite, hfinite⟩ := add_of_zero_le hd
  cases hy with
  | infinite =>
    rw [hinfinite]
    exact (hx.add hd).le_infinite
  | @finite n _ _ =>
    cases hx with
    | infinite => simp [le] at h
    | @finite m _ _ =>
      rcases hfinite with ⟨-, hsum⟩ | ⟨more, -, hsum⟩
      · rw [hsum, hsum]
        rfl
      · have hle : m ≤ n := by simpa [le, signedUnits] using h
        rw [hsum, hsum]
        exact ofUnits_mono (Nat.add_le_add_right hle more)

/-- Some seconds more are no earlier. -/
theorem IsInstant.le_add (hx : IsInstant x) (hd : zero.le d = true) : x.le (x + d) = true := by
  obtain ⟨hinfinite, hfinite⟩ := add_of_zero_le hd
  cases hx with
  | infinite =>
    rw [hinfinite]
    rfl
  | @finite units hrounded hlt =>
    rcases hfinite with ⟨-, hsum⟩ | ⟨more, -, hsum⟩
    · rw [hsum]
      rfl
    · have hle := ofUnits_mono (Nat.le_add_right units more)
      rwa [ofUnits_of_isInstant (.finite hrounded hlt), ← hsum] at hle

end DocRefs.Binary64
