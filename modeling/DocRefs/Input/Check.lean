import DocRefs.Input.Value
import DocRefs.Number.Numeral

/-!
# Checking values

A value is checked against the shape that an operation wants. Every fault of a record is reported, in the order of its
fields, each with the path to the value at fault.
-/

namespace DocRefs

/-- One step of the path to a value: a field's name, or a place in a list. -/
inductive PathStep
  | field (name : String)
  | index (i : Nat)
deriving Repr, DecidableEq

/-- What is wrong with a value. -/
inductive FaultKind
  | missing
  | stringType
  | intType
  | intParsing
  | intParsingSize
  | intFromFloat
  | finiteNumber
  | greaterThanEqual
  | floatType
  | floatParsing
  | boolType
  | boolParsing
  | listType
  | dictType
  | bytesInvalidEncoding
  | tupleType
  | pathType
  | modelAttributesType
  | unionTagNotFound
  | unionTagInvalid
  | jsonInvalid
deriving Repr, DecidableEq

/-- The name of a fault. -/
def FaultKind.name : FaultKind → String
  | missing => "missing"
  | stringType => "string_type"
  | intType => "int_type"
  | intParsing => "int_parsing"
  | intParsingSize => "int_parsing_size"
  | intFromFloat => "int_from_float"
  | finiteNumber => "finite_number"
  | greaterThanEqual => "greater_than_equal"
  | floatType => "float_type"
  | floatParsing => "float_parsing"
  | boolType => "bool_type"
  | boolParsing => "bool_parsing"
  | listType => "list_type"
  | dictType => "dict_type"
  | bytesInvalidEncoding => "bytes_invalid_encoding"
  | tupleType => "tuple_type"
  | pathType => "path_type"
  | modelAttributesType => "model_attributes_type"
  | unionTagNotFound => "union_tag_not_found"
  | unionTagInvalid => "union_tag_invalid"
  | jsonInvalid => "json_invalid"

/-- What a fault is called in words. -/
def FaultKind.message : FaultKind → String
  | missing => "Field required"
  | stringType => "Input should be a valid string"
  | intType => "Input should be a valid integer"
  | intParsing => "Input should be a valid integer, unable to parse string as an integer"
  | intParsingSize => "Unable to parse input string as an integer, exceeded maximum size"
  | intFromFloat => "Input should be a valid integer, got a number with a fractional part"
  | finiteNumber => "Input should be a finite number"
  | greaterThanEqual => "Input should be greater than or equal to 0"
  | floatType => "Input should be a valid number"
  | floatParsing => "Input should be a valid number, unable to parse string as a number"
  | boolType => "Input should be a valid boolean"
  | boolParsing => "Input should be a valid boolean, unable to interpret input"
  | listType => "Input should be a valid list"
  | dictType => "Input should be a valid dictionary"
  | bytesInvalidEncoding => "Data should be valid hexadecimal"
  | tupleType => "Input should be a valid tuple"
  | pathType => "Input is not a valid path"
  | modelAttributesType => "Input should be a valid dictionary or object to extract fields from"
  | unionTagNotFound => "Unable to extract tag using discriminator 'kind'"
  | unionTagInvalid => "Input tag found using 'kind' does not match any of the expected tags"
  | jsonInvalid => "JSON decode error"

/-- A fault and where it is. -/
structure Fault where
  path : List PathStep
  kind : FaultKind
deriving Repr, DecidableEq

/-- A checked value, or all its faults. -/
abbrev Checked (α : Type) := Except (List Fault) α

namespace Checked

/-- Refuses the value itself. -/
def refuse {α : Type} (kind : FaultKind) : Checked α :=
  .error [⟨[], kind⟩]

/-- The faults of a part, seen from the whole. -/
def under {α : Type} (step : PathStep) : Checked α → Checked α
  | .ok a => .ok a
  | .error faults => .error (faults.map fun f => { f with path := step :: f.path })

/-- Two parts side by side: the faults of both are kept. -/
def both {α β : Type} : Checked α → Checked β → Checked (α × β)
  | .ok a, .ok b => .ok (a, b)
  | .ok _, .error g => .error g
  | .error f, .ok _ => .error f
  | .error f, .error g => .error (f ++ g)

/-- Every part of a list, in order. -/
def all {α : Type} : List (Checked α) → Checked (List α)
  | [] => .ok []
  | c :: cs => (both c (all cs)).map fun (a, as) => a :: as

/-- A field that has to be there. -/
def required {α : Type} (name : String) (check : Value → Checked α) (v : Value) : Checked α :=
  under (.field name) (match v.field? name with
    | none => refuse .missing
    | some x => check x)

/-- A field that may be left out. -/
def optional {α : Type} (name : String) (default : α) (check : Value → Checked α) (v : Value) : Checked α :=
  match v.field? name with
  | none => .ok default
  | some x => under (.field name) (check x)

/-- A text. -/
def text : Value → Checked String
  | .text s => .ok s
  | _ => refuse .stringType

/-- Null, or what the check admits. -/
def nullable {α : Type} (check : Value → Checked α) : Value → Checked (Option α)
  | .null => .ok none
  | v => (check v).map some

/-- A list of what the check admits. -/
def listOf {α : Type} (kind : FaultKind) (check : Value → Checked α) : Value → Checked (List α)
  | .list items => all (items.mapIdx fun i v => under (.index i) (check v))
  | _ => refuse kind

/-- Why a number stands for no whole one. -/
inductive NotWhole
  | notFinite
  | fraction
  | tooLarge
deriving Repr, DecidableEq

/-- The whole number that a number is, if its magnitude is below 2 to the power 63. -/
def wholeOfNumber : Binary64 → Except NotWhole Int
  | .finite negative units =>
    if !Binary64.isWhole units then .error .fraction
    else
      let n := units / Nat.pow 2 Binary64.unitExponent
      if n < Nat.pow 2 63 then .ok (Numeral.signed negative n) else .error .tooLarge
  | _ => .error .notFinite

/-- A whole number, also as a boolean, as a number without a fraction, or as a numeral. -/
def whole : Value → Checked Int
  | .whole n => .ok n
  | .bool b => .ok (if b then 1 else 0)
  | .text s =>
    match Numeral.lenientWhole? s.toList with
    | .ok n => .ok n
    | .error .notNumeral => refuse .intParsing
    | .error .tooLong => refuse .intParsingSize
  | .number x =>
    match wholeOfNumber x with
    | .ok n => .ok n
    | .error .notFinite => refuse .finiteNumber
    | .error .fraction => refuse .intFromFloat
    | .error .tooLarge => refuse .intParsingSize
  | _ => refuse .intType

/-- A whole number that is not negative. -/
def natural (v : Value) : Checked Int :=
  match whole v with
  | .ok n => if n < 0 then refuse .greaterThanEqual else .ok n
  | .error faults => .error faults

/-- A number, also as a boolean or as a numeral. -/
def number : Value → Checked Binary64
  | .number x => .ok x
  | .bool b => .ok (.ofInt (if b then 1 else 0))
  | .whole n =>
    match Binary64.ofInt n with
    | .infinite _ => refuse .floatType
    | x => .ok x
  | .text s =>
    match Numeral.lenientDecimal? s.toList with
    | some x => .ok x
    | none => refuse .floatParsing
  | _ => refuse .floatType

/-- The words for true and false. -/
def boolWords : List (String × Bool) :=
  [("1", true), ("true", true), ("t", true), ("yes", true), ("y", true), ("on", true),
    ("0", false), ("false", false), ("f", false), ("no", false), ("n", false), ("off", false)]

/-- The boolean that zero or one stands for. -/
def booleanOfWhole (n : Int) : Checked Bool :=
  if n = 0 then .ok false else if n = 1 then .ok true else refuse .boolParsing

/-- A boolean, also as zero or one, or as a word. Numbers outside the range of 64 bits, and those that are not whole,
are of no fitting type. -/
def boolean : Value → Checked Bool
  | .bool b => .ok b
  | .whole n => if -Nat.pow 2 63 ≤ n && n < Nat.pow 2 63 then booleanOfWhole n else refuse .boolType
  | .number x =>
    match wholeOfNumber x with
    | .ok n => booleanOfWhole n
    | .error _ => refuse .boolType
  | .text s =>
    match boolWords.find? (·.1 = String.ofList (s.toList.map (·.toLower))) with
    | some (_, b) => .ok b
    | none => refuse .boolParsing
  | _ => refuse .boolType

end DocRefs.Checked
