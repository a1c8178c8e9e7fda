/-!
# Binary64 numbers

The numbers of the IEEE 754 format binary64, which hold delays and instants. A finite number is a sign and a count of
the format's smallest unit, 2 to the power -1074; results are rounded to the nearest number, a tie to the even one.
-/

namespace DocRefs

/-- A number of the format. -/
inductive Binary64
  | finite (negative : Bool) (units : Nat)
  | infinite (negative : Bool)
  | nan (negative : Bool)
deriving Repr, DecidableEq

namespace Binary64

/-- The exponent of the unit, without its sign. -/
def unitExponent : Nat := 1074

/-- The quotient rounded to the nearest whole number, a tie to the even one. -/
def roundQuotient (num den : Nat) : Nat :=
  let q := num / den
  let r := num % den
  if 2 * r < den then q
  else if den < 2 * r then q + 1
  else if q % 2 = 0 then q else q + 1

/-- The power of two between neighbours at a given count of units: numbers carry 53 significant bits. -/
def spacing (units : Nat) : Nat :=
  Nat.pow 2 (units.log2 - 52)

/-- The least count of units that is too large for the format. -/
def overflow : Nat := Nat.pow 2 (1024 + unitExponent)

/-- The number nearest to a quotient of units. -/
def ofUnits (negative : Bool) (num den : Nat) : Binary64 :=
  let step := spacing (num / den)
  let units := roundQuotient num (den * step) * step
  if overflow ≤ units then .infinite negative else .finite negative units

/-- The number nearest to a quotient of whole numbers. -/
def ofQuotient (negative : Bool) (num den : Nat) : Binary64 :=
  ofUnits negative (num * Nat.pow 2 unitExponent) den

/-- The number nearest to a whole number. -/
def ofInt (n : Int) : Binary64 :=
  ofQuotient (decide (n < 0)) n.natAbs 1

/-- The number nearest to a decimal: digits times a power of ten. -/
def ofDecimal (negative : Bool) (digits : Nat) (exponent : Int) : Binary64 :=
  if digits = 0 then .finite negative 0
  else if 400 < exponent then .infinite negative
  else if exponent < -(400 + digits.log2) then .finite negative 0
  else if 0 ≤ exponent then ofQuotient negative (digits * Nat.pow 10 exponent.toNat) 1
  else ofQuotient negative digits (Nat.pow 10 exponent.natAbs)

/-- A finite number as a whole number of units. -/
def signedUnits (negative : Bool) (units : Nat) : Int :=
  if negative then -units else units

/-- The nearest number to a sum. -/
def add : Binary64 → Binary64 → Binary64
  | nan a, _ => nan a
  | _, nan b => nan b
  | infinite a, infinite b => if a = b then infinite a else nan false
  | infinite a, finite .. => infinite a
  | finite .., infinite b => infinite b
  | finite a m, finite b n =>
    let sum := signedUnits a m + signedUnits b n
    if sum = 0 then finite (a && b) 0 else ofUnits (decide (sum < 0)) sum.natAbs 1

instance : Add Binary64 := ⟨add⟩

/-- Whether a number is at most another; no number compares with the one that is none. -/
def le : Binary64 → Binary64 → Bool
  | nan _, _ => false
  | _, nan _ => false
  | infinite a, infinite b => a || !b
  | infinite a, finite .. => a
  | finite .., infinite b => !b
  | finite a m, finite b n => signedUnits a m ≤ signedUnits b n

/-- Whether a number is above zero. -/
def isPositive : Binary64 → Bool
  | finite negative units => !negative && units != 0
  | infinite negative => !negative
  | nan _ => false

/-- Zero. -/
def zero : Binary64 := finite false 0

/-- The sign bit of the format. -/
def signBit (negative : Bool) : Nat :=
  if negative then Nat.pow 2 63 else 0

/-- The sign, exponent and fraction of a number as the format lays them out in 64 bits. -/
def toBits : Binary64 → Nat
  | finite negative units =>
    let step := units.log2 - 52
    if units < Nat.pow 2 52 then signBit negative + units
    else signBit negative + (step + 1) * Nat.pow 2 52 + (units / Nat.pow 2 step - Nat.pow 2 52)
  | infinite negative => signBit negative + 2047 * Nat.pow 2 52
  | nan negative => signBit negative + 2047 * Nat.pow 2 52 + Nat.pow 2 51

/-- Whether a finite number is whole. -/
def isWhole (units : Nat) : Bool :=
  units % Nat.pow 2 unitExponent = 0

end DocRefs.Binary64
