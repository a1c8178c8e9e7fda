import DocRefs.Number.Binary64
import DocRefs.Text.Blank
import DocRefs.Text.Decimal

/-!
# Numerals

How whole numbers and decimals are read from text. A setting or an option is read by `wholeNumber?`, a field of a
request by `lenientWhole?` and `lenientDecimal?`, which allow more spellings.
-/

namespace DocRefs.Numeral

/-- Digits with single underscores between them, the underscores taken out. -/
def withoutUnderscores (isDigit : Char → Bool) : List Char → Option (List Char)
  | [] => none
  | [c] => if isDigit c then some [c] else none
  | c :: '_' :: rest => if isDigit c then (withoutUnderscores isDigit rest).map (c :: ·) else none
  | c :: rest => if isDigit c then (withoutUnderscores isDigit rest).map (c :: ·) else none

/-- A sign and what follows it. -/
def splitSign : List Char → Bool × List Char
  | '-' :: rest => (true, rest)
  | '+' :: rest => (false, rest)
  | text => (false, text)

/-- A magnitude with its sign. -/
def signed (negative : Bool) (n : Nat) : Int :=
  if negative then -n else n

/-- A whole number in any script's digits, with white space around it, a sign, and single underscores between digits. -/
def wholeNumber? (text : List Char) : Option Int :=
  let (negative, digits) := splitSign (trimBoth isWhiteSpace text)
  (withoutUnderscores isDecimal digits).bind fun ds =>
    if maxDigits < ds.length then none else some (signed negative (decimalOfDigits ds))

/-- A text without its underscores, provided that there are some and none is doubled, leading or trailing. -/
def stripUnderscores? (text : List Char) : Option (List Char) :=
  let rec doubled : List Char → Bool
    | '_' :: '_' :: _ => true
    | _ :: rest => doubled rest
    | [] => false
  if text.head? == some '_' || text.getLast? == some '_' || !text.contains '_' || doubled text then none
  else some (text.filter (· != '_'))

/-- What is left of a numeral behind its leading zeros and the underscores among them. The last of them is kept before a
point and at the end, so that a numeral which is nothing but zeros stays one; a minus sign may stand behind the zeros,
but nothing else. -/
def stripLeadingZeros? : List Char → Option (List Char)
  | '0' :: rest => go '0' rest
  | c :: rest => if c.isDigit then some (c :: rest) else none
  | [] => none
where
  go (last : Char) : List Char → Option (List Char)
    | [] => some [last]
    | '.' :: rest => some (last :: '.' :: rest)
    | c :: rest =>
      if c == '0' || c == '_' then go c rest
      else if c.isDigit || c == '-' then some (c :: rest)
      else none

/-- A numeral without a fraction of zeros. -/
def stripZeroFraction (text : List Char) : List Char :=
  let whole := text.takeWhile (· != '.')
  match text.drop whole.length with
  | '.' :: fraction => if !fraction.isEmpty && fraction.all (· == '0') then whole else text
  | _ => text

/-- A sign and ASCII digits. -/
def plainWhole? (text : List Char) : Option Int :=
  let (negative, digits) := splitSign text
  if !digits.isEmpty && digits.all (·.isDigit) then some (signed negative (decimalOfDigits digits)) else none

/-- Why a field that should hold a whole number holds none. -/
inductive WholeFault
  | notNumeral
  | tooLong
deriving Repr, DecidableEq

/-- A minus sign and digits, the first of them a zero only when it stands alone. -/
def strictWhole (text : List Char) : Except WholeFault Int :=
  let (negative, rest) := match text with
    | '-' :: rest => (true, rest)
    | rest => (false, rest)
  let digits := match rest with
    | '0' :: _ => ['0']
    | _ => rest.takeWhile (·.isDigit)
  if maxDigits < digits.length then .error .tooLong
  else if digits.isEmpty || digits.length < rest.length then .error .notNumeral
  else .ok (signed negative (decimalOfDigits digits))

/-- A numeral without what a request may add to it: white space around it, a plus sign, leading zeros, a fraction of
zeros, and underscores. -/
def cleanWhole? (text : List Char) : Option (List Char) :=
  let trimmed := trimBoth isWhiteSpace text
  let significant? := match trimmed with
    | '+' :: '-' :: _ => none
    | '+' :: rest => stripLeadingZeros? rest
    | '-' :: rest => (stripLeadingZeros? rest).map ('-' :: ·)
    | rest => stripLeadingZeros? rest
  significant?.map fun significant =>
    let whole := stripZeroFraction significant
    (stripUnderscores? whole).getD whole

/-- A whole number as requests may write it. -/
def lenientWhole? (text : List Char) : Except WholeFault Int :=
  match cleanWhole? text with
  | none => .error .notNumeral
  | some numeral => strictWhole numeral

/-- Digits with an optional fraction and exponent: the digits read as one number, and the power of ten that goes with
them. -/
def decimalParts? (text : List Char) : Option (Nat × Int) :=
  let whole := text.takeWhile Char.isDigit
  let rest := text.dropWhile Char.isDigit
  let (fraction, rest) := match rest with
    | '.' :: r => (r.takeWhile Char.isDigit, r.dropWhile Char.isDigit)
    | r => ([], r)
  if whole.isEmpty && fraction.isEmpty then none
  else
    let digits := decimalOfDigits (whole ++ fraction)
    match rest with
    | [] => some (digits, -fraction.length)
    | e :: exponent =>
      if e == 'e' || e == 'E' then
        (plainWhole? exponent).map fun x => (digits, x - fraction.length)
      else none

/-- A decimal, an infinity or the number that is none, with an optional sign. -/
def decimal? (text : List Char) : Option Binary64 :=
  let (negative, rest) := splitSign text
  let word := String.ofList (rest.map (·.toLower))
  if word == "inf" || word == "infinity" then some (.infinite negative)
  else if word == "nan" then some (.nan negative)
  else (decimalParts? rest).map fun (digits, exponent) => .ofDecimal negative digits exponent

/-- A decimal as requests may write it, with white space around it or with underscores. -/
def lenientDecimal? (text : List Char) : Option Binary64 :=
  (decimal? (trimBoth isWhiteSpace text)).or ((stripUnderscores? text).bind decimal?)

end DocRefs.Numeral
