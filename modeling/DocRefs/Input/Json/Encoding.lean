import DocRefs.Text.Surrogate
import DocRefs.Text.Utf8

/-!
# The encoding of a JSON text

A JSON text comes as bytes in UTF-8, UTF-16 or UTF-32. It begins with ASCII characters, so the zero bytes at its front
tell which. In the latter two, surrogates without a partner are let through.
-/

namespace DocRefs.Json

/-- The encodings of a JSON text, with the order of the bytes where a code unit has several. -/
inductive Encoding
  | utf8
  | utf16 (bigEndian : Bool)
  | utf32 (bigEndian : Bool)
deriving Repr, DecidableEq

/-- The encoding that bytes are in, by the zeros among the first four, or among the only two. -/
def Encoding.ofBytes : List UInt8 → Encoding
  | [a, b] => if a = 0 then utf16 true else if b = 0 then utf16 false else utf8
  | a :: b :: c :: d :: _ =>
    if a = 0 then if b = 0 then utf32 true else utf16 true
    else if b = 0 then if c = 0 && d = 0 then utf32 false else utf16 false
    else utf8
  | _ => utf8

/-- The number that bytes write, the most significant one first. -/
def numberOfBytes (bytes : List UInt8) : Nat :=
  bytes.foldl (fun n b => n * 256 + b.toNat) 0

/-- The code units of two bytes each, unless a byte is left over. -/
def units16? (bigEndian : Bool) : List UInt8 → Option (List Nat)
  | [] => some []
  | a :: b :: rest => (units16? bigEndian rest).map (numberOfBytes (if bigEndian then [a, b] else [b, a]) :: ·)
  | _ => none

/-- The code units of four bytes each, unless a byte is left over. -/
def units32? (bigEndian : Bool) : List UInt8 → Option (List Nat)
  | [] => some []
  | a :: b :: c :: d :: rest =>
    (units32? bigEndian rest).map (numberOfBytes (if bigEndian then [a, b, c, d] else [d, c, b, a]) :: ·)
  | _ => none

/-- A text without the byte order mark that it may begin with. -/
def withoutMark : List Char → List Char
  | '\ufeff' :: rest => rest
  | text => text

/-- The text that bytes write, if they write one. -/
def decode? (bytes : List UInt8) : Option (List Char) :=
  match Encoding.ofBytes bytes with
  | .utf8 => (Utf8.decode bytes).toOption.map withoutMark
  | .utf16 bigEndian => (units16? bigEndian bytes).map Surrogate.ofUnits
  | .utf32 bigEndian =>
    ((units32? bigEndian bytes).filter (·.all (· < 0x110000))).map (·.map Surrogate.charOf)

end DocRefs.Json
