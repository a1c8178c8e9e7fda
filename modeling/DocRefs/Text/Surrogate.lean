/-!
# Surrogates

Code points above 0xffff are written in UTF-16 by a pair of surrogates. A format may also name a surrogate that has no
partner. No character stands for it, so it is held by a stand-in: the code point 0xf0000 above its own, which is for
private use.
-/

namespace DocRefs.Surrogate

/-- The first of a pair. -/
def isHigh (unit : Nat) : Bool :=
  0xd800 ≤ unit && unit < 0xdc00

/-- The second of a pair. -/
def isLow (unit : Nat) : Bool :=
  0xdc00 ≤ unit && unit < 0xe000

/-- The code point of a pair. -/
def joinPair (high low : Nat) : Nat :=
  0x10000 + (high - 0xd800) * 0x400 + (low - 0xdc00)

/-- How far above a surrogate its stand-in lies. -/
def shift : Nat := 0xf0000

/-- The character for a code point: for a surrogate, its stand-in. -/
def charOf (code : Nat) : Char :=
  if isHigh code || isLow code then Char.ofNat (code + shift) else Char.ofNat code

/-- Whether a character stands in for a surrogate. -/
def isStandIn (c : Char) : Bool :=
  shift + 0xd800 ≤ c.toNat && c.toNat < shift + 0xe000

/-- The code point that a character is or stands for. -/
def codeOf (c : Char) : Nat :=
  if isStandIn c then c.toNat - shift else c.toNat

/-- Code units as characters, with the partners of a pair put together. -/
def ofUnits : List Nat → List Char
  | [] => []
  | [unit] => [charOf unit]
  | high :: low :: rest =>
    if isHigh high && isLow low then Char.ofNat (joinPair high low) :: ofUnits rest
    else charOf high :: ofUnits (low :: rest)

/-- Why a text cannot be sent: its first run of unpaired surrogates, by its place, its length and its first code
point. -/
structure Refusal where
  offset : Nat
  length : Nat
  code : Nat
deriving Repr, DecidableEq

/-- The first run of unpaired surrogates in a text. -/
def find? (text : List Char) : Option Refusal :=
  let before := text.takeWhile (!isStandIn ·)
  match text.drop before.length with
  | [] => none
  | c :: rest => some ⟨before.length, 1 + (rest.takeWhile isStandIn).length, codeOf c⟩

end DocRefs.Surrogate
