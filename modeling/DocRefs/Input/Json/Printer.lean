import DocRefs.Input.Value
import DocRefs.Number.Shortest
import DocRefs.Text.Hex

/-!
# Writing JSON

The JSON text of a value, without blanks. The two marks that JSON keeps for itself and control characters are written by
an escape, by a letter where there is one. A number that is not known as whole is written by its shortest decimal, with
a point or an exponent.
-/

namespace DocRefs

/-- How one character is written between quotes. -/
def Json.escape (c : Char) : List Char :=
  if c = '"' || c = '\\' then ['\\', c]
  else if c = '\n' then ['\\', 'n']
  else if c = '\r' then ['\\', 'r']
  else if c = '\t' then ['\\', 't']
  else if c = '\x08' then ['\\', 'b']
  else if c = '\x0c' then ['\\', 'f']
  else if c.toNat < 0x20 then '\\' :: 'u' :: Hex.digits 4 c.toNat
  else [c]

/-- A text between quotes. -/
def Json.writeText (s : String) : List Char :=
  '"' :: (s.toList.flatMap Json.escape ++ ['"'])

/-- An exponent, by a sign and at least two digits. -/
def Json.writeExponent (e : Int) : List Char :=
  let digits := Nat.toDigits 10 e.natAbs
  'e' :: (if e < 0 then '-' else '+') :: (List.replicate (2 - digits.length) '0' ++ digits)

/-- A decimal: with a point from the fourth place behind it up to the sixteenth before it, and else with an exponent. -/
def Json.writeDecimal (d : Decimal) : List Char :=
  let all := Nat.toDigits 10 d.digits
  let point := all.length + d.exponent
  let digits := (all.reverse.dropWhile (· == '0')).reverse
  if -4 < point && point ≤ 0 then '0' :: '.' :: (List.replicate point.natAbs '0' ++ digits)
  else if 0 < point && point ≤ 16 then
    let behind := digits.drop point.toNat
    digits.take point.toNat ++ List.replicate (point.toNat - digits.length) '0' ++
      '.' :: if behind.isEmpty then ['0'] else behind
  else
    let behind := digits.drop 1
    digits.take 1 ++ (if behind.isEmpty then [] else '.' :: behind) ++ writeExponent (point - 1)

/-- A number of the format binary64, or the word for one that is not finite. -/
def Json.writeNumber : Binary64 → List Char
  | .finite negative units => (if negative then ['-'] else []) ++ writeDecimal (.shortest units)
  | .infinite negative => (if negative then "-Infinity" else "Infinity").toList
  | .nan _ => "NaN".toList

namespace Value

mutual

/-- The JSON text of a value. -/
def write : Value → List Char
  | null => "null".toList
  | bool b => (if b then "true" else "false").toList
  | whole n => (toString n).toList
  | number x => Json.writeNumber x
  | text s => Json.writeText s
  | list items => '[' :: (writeItems items ++ [']'])
  | object fields => '\x7b' :: (writeFields fields ++ ['\x7d'])

/-- The items of a list, with commas between them. -/
def writeItems : List Value → List Char
  | [] => []
  | [v] => write v
  | v :: w :: rest => write v ++ ',' :: writeItems (w :: rest)

/-- The fields of an object, with commas between them. -/
def writeFields : List (String × Value) → List Char
  | [] => []
  | [(name, v)] => Json.writeText name ++ ':' :: write v
  | (name, v) :: f :: rest => Json.writeText name ++ ':' :: (write v ++ ',' :: writeFields (f :: rest))

end

end Value

end DocRefs
