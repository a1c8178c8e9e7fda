import DocRefs.Number.Binary64

/-!
# The shortest decimal of a number

A number of the format binary64 stands for all reals that are rounded to it. Its shortest decimal is the one of these
with the fewest digits; of two with as few digits it is the nearer one, and the even one at a tie.
-/

namespace DocRefs

/-- Digits times a power of ten. -/
structure Decimal where
  digits : Nat
  exponent : Int
deriving Repr, DecidableEq

namespace Decimal

/-- Whether a decimal is rounded to a count of units. Halfway to a neighbour it is rounded to the one that ends in an
even bit, and below a power of two the neighbour is half as far away. -/
def readsBack (units : Nat) (d : Decimal) : Bool :=
  let gap := Binary64.spacing units
  let gapBelow := if units = Nat.pow 2 units.log2 && 1 < gap then gap / 2 else gap
  let twice := d.digits * Nat.pow 10 d.exponent.toNat * Nat.pow 2 (Binary64.unitExponent + 1)
  let scale := Nat.pow 10 (-d.exponent).toNat
  let low := (2 * units - gapBelow) * scale
  let high := (2 * units + gap) * scale
  let ends := units / gap % 2 = 0
  (low < twice && twice < high) || (ends && (twice = low || twice = high))

/-- The multiple of a power of ten that is read back as a count of units: the nearer one of the two that enclose it, if
it is. -/
def near? (units : Nat) (exponent : Int) : Option Decimal :=
  let num := units * Nat.pow 10 (-exponent).toNat
  let den := Nat.pow 2 Binary64.unitExponent * Nat.pow 10 exponent.toNat
  let nearer := Binary64.roundQuotient num den
  [nearer, 2 * (num / den) + 1 - nearer].map (Decimal.mk · exponent) |>.find? (readsBack units)

/-- The exponent of the least power of ten above a count of units. -/
def magnitude (units : Nat) : Int :=
  (Nat.toDigits 10 (units * Nat.pow 10 400 / Nat.pow 2 Binary64.unitExponent)).length - 400

/-- The shortest decimal of a count of units. Seventeen digits are enough for each; the exact value stands behind
them. -/
def shortest (units : Nat) : Decimal :=
  if units = 0 then ⟨0, 0⟩
  else
    let found := (List.range 17).findSome? fun (n : Nat) => near? units (magnitude units - (n + 1))
    found.getD ⟨units * Nat.pow 5 Binary64.unitExponent, -Binary64.unitExponent⟩

end Decimal

end DocRefs
