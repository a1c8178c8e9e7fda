import DocRefs.Text.Decimal
import DocRefs.Text.Fields

/-!
# Line ranges

A reference may narrow its target to ranges of lines, `3:6,8,10:11`. A segment that is neither `N` nor `A:B` is kept as
it stands, so one broken clause hides no other.
-/

namespace DocRefs

/-- One segment of a list of line ranges. -/
inductive Range
  | lines (first last : Int)
  | unparseable (raw : String)
deriving Repr, DecidableEq

namespace Range

/-- The two halves of a segment with one colon between runs of digits. -/
def pair? (segment : List Char) : Option (List Char × List Char) :=
  let first := segment.takeWhile isDecimal
  match segment.dropWhile isDecimal with
  | ':' :: last => if !first.isEmpty && !last.isEmpty && last.all isDecimal then some (first, last) else none
  | _ => none

/-- Reads one segment. -/
def ofSegment (segment : List Char) : Except NumeralTooLong Range :=
  if !segment.isEmpty && segment.all isDecimal then do
    let line ← readNatural segment
    return .lines line line
  else
    match pair? segment with
    | some (first, last) => do return .lines (← readNatural first) (← readNatural last)
    | none => .ok (.unparseable (String.ofList segment))

/-- Reads every segment of a list, in order. -/
def ofSegments (segments : List (List Char)) : Except NumeralTooLong (List Range) :=
  segments.mapM ofSegment

/-- Reads a list of ranges, its segments parted by commas. -/
def parseList (text : String) : Except NumeralTooLong (List Range) :=
  ofSegments (fields ',' text.toList)

/-- A range as a reader sees it: one number where it is a single line. -/
def format : Range → String
  | lines first last => if first = last then toString first else s!"{first}:{last}"
  | unparseable raw => raw

/-- A list of ranges as a reader sees it. -/
def formatList (ranges : List Range) : String :=
  ", ".intercalate (ranges.map format)

end DocRefs.Range
