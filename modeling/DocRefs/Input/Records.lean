import DocRefs.Input.Check
import DocRefs.Reference

/-!
# Checking ranges and references

The records that an operation may be handed: a range told apart by its kind, and a resolved reference.
-/

namespace DocRefs.Checked

/-- A range: its kind says which fields it has. -/
def range : Value → Checked Range
  | v@(.object _) =>
    match v.field? "kind" with
    | none => refuse .unionTagNotFound
    | some (.text "lines") =>
      under (.field "lines")
        ((both (required "start" whole v) (required "end" whole v)).map fun (first, last) => .lines first last)
    | some (.text "unparseable") => under (.field "unparseable") ((required "raw" text v).map .unparseable)
    | some _ => refuse .unionTagInvalid
  | _ => refuse .modelAttributesType

/-- A list of ranges. -/
def ranges : Value → Checked (List Range) :=
  listOf .listType range

/-- A span, whose ends may be left out. -/
def span (v : Value) : Checked Span :=
  (both (optional "start" 0 whole v) (optional "end" 0 whole v)).map fun (start, stop) => ⟨start, stop⟩

/-- A reference. Its span comes first: only when there is no fault in it are the other fields looked at. -/
def reference (v : Value) : Checked Reference := do
  let span ← span v
  let (filePath, lineRanges, highlightRanges) ← both (required "file_path" text v)
    (both (optional "line_ranges" none (nullable ranges) v) (optional "highlight_ranges" none (nullable ranges) v))
  return { filePath, lineRanges, highlightRanges, span }

/-- A resolved reference: a reference, and then where it leads and whether there is anything. -/
def resolvedReference (v : Value) : Checked ResolvedReference := do
  let r ← reference v
  let (absolutePath, present) ← both (optional "absolute_path" "/x" text v) (optional "exists" false boolean v)
  return { r with absolutePath, present }

/-- A position. -/
def position (v : Value) : Checked Position :=
  (both (required "line" whole v) (required "character" whole v)).map fun (line, character) => ⟨line, character⟩

end DocRefs.Checked
