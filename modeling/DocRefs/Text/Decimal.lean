/-!
# Decimal digits and whole numbers

The decimal digits of every script (the general category Nd): each script has ten in a row, from zero to nine. A numeral
longer than `maxDigits` is refused, leading zeros counted.
-/

namespace DocRefs

/-- The zeros of the decimal digit blocks, in order; the nine code points after each are its one to nine. -/
def decimalZeros : List Nat := [
  0x30, 0x660, 0x6f0, 0x7c0, 0x966, 0x9e6, 0xa66, 0xae6, 0xb66, 0xbe6, 0xc66, 0xce6, 0xd66, 0xde6, 0xe50, 0xed0, 0xf20,
  0x1040, 0x1090, 0x17e0, 0x1810, 0x1946, 0x19d0, 0x1a80, 0x1a90, 0x1b50, 0x1bb0, 0x1c40, 0x1c50, 0xa620, 0xa8d0,
  0xa900, 0xa9d0, 0xa9f0, 0xaa50, 0xabf0, 0xff10, 0x104a0, 0x10d30, 0x11066, 0x110f0, 0x11136, 0x111d0, 0x112f0,
  0x11450, 0x114d0, 0x11650, 0x116c0, 0x11730, 0x118e0, 0x11950, 0x11c50, 0x11d50, 0x11da0, 0x16a60, 0x16ac0, 0x16b50,
  0x1d7ce, 0x1d7d8, 0x1d7e2, 0x1d7ec, 0x1d7f6, 0x1e140, 0x1e2f0, 0x1e950, 0x1fbf0]

/-- The value of a decimal digit of any script. -/
def decimalValue? (c : Char) : Option Nat :=
  if c.toNat < 128 then
    if c.isDigit then some (c.toNat - '0'.toNat) else none
  else
    (decimalZeros.find? fun z => z ≤ c.toNat && c.toNat < z + 10).map (c.toNat - ·)

/-- Decimal digits of any script. -/
def isDecimal (c : Char) : Bool :=
  (decimalValue? c).isSome

/-- The value of a run of decimal digits, read left to right; characters that are none count as zero. -/
def decimalOfDigits (digits : List Char) : Nat :=
  digits.foldl (fun n c => 10 * n + (decimalValue? c).getD 0) 0

/-- The longest numeral that is converted. -/
def maxDigits : Nat := 4300

/-- A numeral too long to convert, by its number of digits. -/
structure NumeralTooLong where
  digits : Nat
deriving Repr, DecidableEq

/-- The text of the refusal. -/
def NumeralTooLong.message (e : NumeralTooLong) : String :=
  s!"Exceeds the limit ({maxDigits} digits) for integer string conversion: value has {e.digits} digits; " ++
    "use sys.set_int_max_str_digits() to increase the limit"

/-- Converts a run of decimal digits, unless it is too long. -/
def readNatural (digits : List Char) : Except NumeralTooLong Nat :=
  if maxDigits < digits.length then .error ⟨digits.length⟩ else .ok (decimalOfDigits digits)

end DocRefs
