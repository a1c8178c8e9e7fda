import DocRefs.Assoc
import DocRefs.Input.Value
import DocRefs.Text.Decimal
import DocRefs.Text.Hex
import DocRefs.Text.Surrogate

/-!
# Reading JSON

A value is read from its JSON text, or the text is refused at the offset of the first fault. Besides the grammar of
JSON, the reader knows the words `NaN`, `Infinity` and `-Infinity`. A repeated field keeps its first place and has its
last value. Whole numbers are converted up to the length that any numeral may have, and lists and objects may be nested
up to a certain depth.
-/

namespace DocRefs.Json

/-- Why a text is refused: at an offset, for a numeral that is too long, or for what is nested too deep. -/
inductive Refusal
  | unexpected (offset : Nat)
  | numeralTooLong
  | tooDeep
deriving Repr, DecidableEq

/-- How deep lists and objects may be nested. -/
def maxDepth : Nat := 950

/-- What is left of a text, with the offset that it starts at. -/
structure Cursor where
  offset : Nat
  rest : List Char

/-- The cursor behind some characters. -/
def Cursor.skip (c : Cursor) (count : Nat) : Cursor :=
  ⟨c.offset + count, c.rest.drop count⟩

/-- Blanks between the tokens of JSON. -/
def isBlank (c : Char) : Bool :=
  c == ' ' || c == '\t' || c == '\n' || c == '\r'

/-- The cursor behind the blanks at its front. -/
def Cursor.skipBlanks (c : Cursor) : Cursor :=
  c.skip (c.rest.takeWhile isBlank).length

/-- The number that four hexadecimal digits write. -/
def hex4? (a b c d : Char) : Option Nat := do
  return (← Hex.pair? a b) * 256 + (← Hex.pair? c d)

/-- The character that an escape letter stands for. -/
def escaped? : Char → Option Char
  | '"' => some '"'
  | '\\' => some '\\'
  | '/' => some '/'
  | 'b' => some '\x08'
  | 'f' => some '\x0c'
  | 'n' => some '\n'
  | 'r' => some '\r'
  | 't' => some '\t'
  | _ => none

/-- Reads the rest of a string up to its closing quote; `opened` is the offset of its opening one, and `done` holds the
code points so far, from the last to the first. Two escapes may name the partners of a pair. -/
def readString (opened offset : Nat) (done : List Nat) : List Char → Except Refusal (String × Cursor)
  | [] => .error (.unexpected opened)
  | '"' :: rest => .ok (String.ofList (Surrogate.ofUnits done.reverse), ⟨offset + 1, rest⟩)
  | ['\\'] => .error (.unexpected opened)
  | '\\' :: 'u' :: a :: b :: c :: d :: rest =>
    match if rest.isEmpty then none else hex4? a b c d with
    | some unit => readString opened (offset + 6) (unit :: done) rest
    | none => .error (.unexpected (offset + 1))
  | '\\' :: 'u' :: _ => .error (.unexpected (offset + 1))
  | '\\' :: e :: rest =>
    match escaped? e with
    | some x => readString opened (offset + 2) (x.toNat :: done) rest
    | none => .error (.unexpected offset)
  | x :: rest =>
    if x.toNat < 0x20 then .error (.unexpected offset) else readString opened (offset + 1) (x.toNat :: done) rest

/-- The fraction at the front of a text, a point and digits: the digits, and what is left. -/
def readFraction : List Char → List Char × List Char
  | '.' :: rest =>
    let digits := rest.takeWhile (·.isDigit)
    if digits.isEmpty then ([], '.' :: rest) else (digits, rest.drop digits.length)
  | rest => ([], rest)

/-- The exponent at the front of a text, its letter, a sign and digits: its value, and how many characters it takes. -/
def readExponent? : List Char → Option (Int × Nat)
  | e :: rest =>
    if e == 'e' || e == 'E' then
      let (negative, signLength, rest) := match rest with
        | '-' :: r => (true, 1, r)
        | '+' :: r => (false, 1, r)
        | r => (false, 0, r)
      let digits := rest.takeWhile (·.isDigit)
      let n : Int := decimalOfDigits digits
      if digits.isEmpty then none else some (if negative then -n else n, 1 + signLength + digits.length)
    else none
  | [] => none

/-- The number at the cursor, and how many characters it takes: a sign, digits without a leading zero, a fraction, an
exponent; the last two only when complete. -/
def readNumber? (text : List Char) : Option (Value × Nat) :=
  let (negative, digits) := match text with
    | '-' :: r => (true, r)
    | r => (false, r)
  let whole := match digits with
    | '0' :: _ => ['0']
    | r => r.takeWhile (·.isDigit)
  let (fraction, rest) := readFraction (digits.drop whole.length)
  let exponent := readExponent? rest
  let length := (if negative then 1 else 0) + whole.length + (if fraction.isEmpty then 0 else fraction.length + 1)
  if whole.isEmpty then none
  else if fraction.isEmpty && exponent.isNone then
    let n : Int := decimalOfDigits whole
    some (.whole (if negative then -n else n), length)
  else
    let (power, exponentLength) := exponent.getD (0, 0)
    some (.number (.ofDecimal negative (decimalOfDigits (whole ++ fraction)) (power - fraction.length)),
      length + exponentLength)

/-- The words that stand for values. -/
def words : List (List Char × Value) :=
  [("null".toList, .null), ("true".toList, .bool true), ("false".toList, .bool false),
    ("NaN".toList, .number (.nan false)),
    ("Infinity".toList, .number (.infinite false)), ("-Infinity".toList, .number (.infinite true))]

/-- The word or number at the cursor. -/
def readScalar (c : Cursor) : Except Refusal (Value × Cursor) :=
  match words.find? fun (w, _) => w.isPrefixOf c.rest with
  | some (w, v) => .ok (v, c.skip w.length)
  | none =>
    match readNumber? c.rest with
    | some (.whole n, length) =>
      let sign := if n < 0 then 1 else 0
      if maxDigits + sign < length then .error .numeralTooLong else .ok (.whole n, c.skip length)
    | some (v, length) => .ok (v, c.skip length)
    | none => .error (.unexpected c.offset)

mutual

/-- Reads the value at the cursor, with `depth` levels of nesting left. No more than two units of fuel are spent on a
character. -/
def readValue (fuel depth : Nat) (c : Cursor) : Except Refusal (Value × Cursor) :=
  match fuel with
  | 0 => .error (.unexpected c.offset)
  | fuel + 1 =>
    match c.rest, depth with
    | '"' :: rest, _ => (readString c.offset (c.offset + 1) [] rest).map fun (s, next) => (.text s, next)
    | '\x7b' :: _, 0 => .error .tooDeep
    | '[' :: _, 0 => .error .tooDeep
    | '\x7b' :: _, depth + 1 =>
      let c := (c.skip 1).skipBlanks
      match c.rest with
      | '\x7d' :: _ => .ok (.object [], c.skip 1)
      | _ => readFields fuel depth c .empty
    | '[' :: _, depth + 1 =>
      let c := (c.skip 1).skipBlanks
      match c.rest with
      | ']' :: _ => .ok (.list [], c.skip 1)
      | _ => readItems fuel depth c []
    | _, _ => readScalar c

/-- Reads the fields of an object up to its closing brace. -/
def readFields (fuel depth : Nat) (c : Cursor) (done : Assoc String Value) : Except Refusal (Value × Cursor) :=
  match fuel with
  | 0 => .error (.unexpected c.offset)
  | fuel + 1 =>
    match c.rest with
    | '"' :: rest => do
      let (name, c) ← readString c.offset (c.offset + 1) [] rest
      let c := c.skipBlanks
      match c.rest with
      | ':' :: _ => do
        let (value, c) ← readValue fuel depth (c.skip 1).skipBlanks
        let c := c.skipBlanks
        match c.rest with
        | '\x7d' :: _ => return (.object (done.insert name value).entries, c.skip 1)
        | ',' :: _ => readFields fuel depth (c.skip 1).skipBlanks (done.insert name value)
        | _ => .error (.unexpected c.offset)
      | _ => .error (.unexpected c.offset)
    | _ => .error (.unexpected c.offset)

/-- Reads the items of a list up to its closing bracket. -/
def readItems (fuel depth : Nat) (c : Cursor) (done : List Value) : Except Refusal (Value × Cursor) :=
  match fuel with
  | 0 => .error (.unexpected c.offset)
  | fuel + 1 => do
    let (value, c) ← readValue fuel depth c
    let c := c.skipBlanks
    match c.rest with
    | ']' :: _ => return (.list (value :: done).reverse, c.skip 1)
    | ',' :: _ => readItems fuel depth (c.skip 1).skipBlanks (value :: done)
    | _ => .error (.unexpected c.offset)

end

/-- The value that a text writes, or why it writes none. -/
def read (text : List Char) : Except Refusal Value := do
  let (value, c) ← readValue (2 * text.length + 2) maxDepth (Cursor.mk 0 text).skipBlanks
  let c := c.skipBlanks
  if c.rest.isEmpty then return value else .error (.unexpected c.offset)

end DocRefs.Json
