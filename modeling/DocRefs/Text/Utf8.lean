import DocRefs.Text.Hex

/-!
# Reading UTF-8

A text is read from its bytes, or refused at the first byte that begins no character. The refusal says which bytes were
at fault: the lead byte and the continuation bytes that still fit it.
-/

namespace DocRefs.Utf8

/-- Why bytes are refused. -/
inductive Fault
  | startByte
  | continuationByte
  | endOfData
deriving Repr, DecidableEq

/-- The first fault of a byte sequence: its first byte's offset, how many bytes are at fault, and the first of them. -/
structure Refusal where
  offset : Nat
  length : Nat
  byte : UInt8
  fault : Fault
deriving Repr, DecidableEq

/-- The words for a fault. -/
def Fault.message : Fault → String
  | startByte => "invalid start byte"
  | continuationByte => "invalid continuation byte"
  | endOfData => "unexpected end of data"

/-- A byte by its two hexadecimal digits. -/
def hexByte (b : UInt8) : String :=
  String.ofList (Hex.digits 2 b.toNat)

/-- The text of a refusal. -/
def Refusal.message (r : Refusal) : String :=
  if r.length = 1 then
    s!"'utf-8' codec can't decode byte 0x{hexByte r.byte} in position {r.offset}: {r.fault.message}"
  else
    s!"'utf-8' codec can't decode bytes in position {r.offset}-{r.offset + r.length - 1}: {r.fault.message}"

/-- Bytes that may follow a lead byte. -/
def isContinuation (b : UInt8) : Bool :=
  0x80 ≤ b && b < 0xc0

/-- Bytes that may stand right after a lead byte: some leads narrow the range. -/
def fitsLead (lead second : UInt8) : Bool :=
  isContinuation second &&
    !((lead == 0xe0 && second < 0xa0) || (lead == 0xed && 0xa0 ≤ second) || (lead == 0xf0 && second < 0x90) ||
      (lead == 0xf4 && 0x90 ≤ second))

/-- How many bytes follow a lead byte, and the bits that it carries itself. -/
def leadShape (lead : UInt8) : Option (Nat × Nat) :=
  if lead < 0x80 then some (0, lead.toNat)
  else if 0xc2 ≤ lead && lead < 0xe0 then some (1, lead.toNat - 0xc0)
  else if 0xe0 ≤ lead && lead < 0xf0 then some (2, lead.toNat - 0xe0)
  else if 0xf0 ≤ lead && lead < 0xf5 then some (3, lead.toNat - 0xf0)
  else none

/-- The continuation bytes of one character: how many are still wanted, how many were read, and the bits so far. -/
def readTail (fits : UInt8 → Bool) : (wanted taken bits : Nat) → List UInt8 → Except (Fault × Nat) (Nat × Nat)
  | 0, taken, bits, _ => .ok (bits, taken)
  | _ + 1, taken, _, [] => .error (.endOfData, taken)
  | wanted + 1, taken, bits, b :: rest =>
    if fits b then readTail isContinuation wanted (taken + 1) (bits * 64 + (b.toNat - 0x80)) rest
    else .error (.continuationByte, taken)

/-- One character and the number of bytes it takes, or the fault and the number of bytes at fault. -/
def readChar (lead : UInt8) (rest : List UInt8) : Except (Fault × Nat) (Char × Nat) :=
  match leadShape lead with
  | none => .error (.startByte, 1)
  | some (count, bits) =>
    match readTail (fitsLead lead) count 0 bits rest with
    | .ok (code, taken) => .ok (Char.ofNat code, taken + 1)
    | .error (fault, taken) => .error (fault, taken + 1)

/-- The text of the bytes from an offset on. -/
def decodeFrom (offset : Nat) (bytes : List UInt8) : Except Refusal (List Char) :=
  match bytes with
  | [] => .ok []
  | lead :: rest =>
    match readChar lead rest with
    | .error (fault, length) => .error ⟨offset, length, lead, fault⟩
    | .ok (c, taken) => (decodeFrom (offset + taken) (rest.drop (taken - 1))).map (c :: ·)
termination_by bytes.length
decreasing_by simp only [List.length_drop, List.length_cons]; omega

/-- The text of a sequence of bytes. -/
def decode (bytes : List UInt8) : Except Refusal (List Char) :=
  decodeFrom 0 bytes

end DocRefs.Utf8
