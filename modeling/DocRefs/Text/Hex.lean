/-!
# Hexadecimal digits

Digits are written in lower case and read in either case.
-/

namespace DocRefs.Hex

/-- The digit of a value below sixteen. -/
def digit (n : Nat) : Char :=
  if n < 10 then Char.ofNat ('0'.toNat + n) else Char.ofNat ('a'.toNat + (n - 10))

/-- The last `width` digits of a number. -/
def digits (width n : Nat) : List Char :=
  (List.range width).reverse.map fun i => digit (n / Nat.pow 16 i % 16)

/-- The value of a digit. -/
def value? (c : Char) : Option Nat :=
  if c.isDigit then some (c.toNat - '0'.toNat)
  else if 'a' ≤ c && c ≤ 'f' then some (c.toNat - 'a'.toNat + 10)
  else if 'A' ≤ c && c ≤ 'F' then some (c.toNat - 'A'.toNat + 10)
  else none

/-- The value of two digits. -/
def pair? (a b : Char) : Option Nat := do
  return (← value? a) * 16 + (← value? b)

/-- The bytes that pairs of digits write. -/
def bytes? : List Char → Option (List UInt8)
  | [] => some []
  | [_] => none
  | a :: b :: rest => do
    let byte ← pair? a b
    return UInt8.ofNat byte :: (← bytes? rest)

end DocRefs.Hex
