import DocRefs.Completion
import DocRefs.Diagnostic
import DocRefs.Input.Value
import DocRefs.Link

/-!
# Answers as records

The form in which answers are handed out: each as a record whose fields have fixed names and a fixed order.
-/

namespace DocRefs

/-- A value, or null where there is none. -/
def Value.ofOption {α : Type} (f : α → Value) : Option α → Value
  | some a => f a
  | none => null

/-- A list of values. -/
def Value.ofList {α : Type} (f : α → Value) (items : List α) : Value :=
  list (items.map f)

/-- A range, told apart by its kind. -/
def Range.toValue : Range → Value
  | lines first last => .object [("kind", .text "lines"), ("start", .whole first), ("end", .whole last)]
  | unparseable raw => .object [("kind", .text "unparseable"), ("raw", .text raw)]

/-- A span. -/
def Span.toValue (s : Span) : Value :=
  .object [("start", .whole s.start), ("end", .whole s.stop)]

/-- A position. -/
def Position.toValue (p : Position) : Value :=
  .object [("line", .whole p.line), ("character", .whole p.character)]

/-- A stretch of text. -/
def TextRange.toValue (r : TextRange) : Value :=
  .object [("start", r.start.toValue), ("end", r.stop.toValue)]

/-- The fields of a reference. -/
def Reference.fields (r : Reference) : List (String × Value) :=
  [("file_path", .text r.filePath), ("line_ranges", .ofOption (.ofList Range.toValue) r.lineRanges),
    ("highlight_ranges", .ofOption (.ofList Range.toValue) r.highlightRanges), ("span", r.span.toValue)]

/-- A reference. -/
def Reference.toValue (r : Reference) : Value :=
  .object r.fields

/-- A resolved reference. -/
def ResolvedReference.toValue (r : ResolvedReference) : Value :=
  .object (r.toReference.fields ++ [("absolute_path", .text r.absolutePath), ("exists", .bool r.present)])

/-- A diagnostic. -/
def Diagnostic.toValue (d : Diagnostic) : Value :=
  .object [("range", d.range.toValue), ("message", .text d.message), ("severity", .text severity),
    ("source", .text source)]

/-- A link. -/
def Link.toValue (l : Link) : Value :=
  .object [("range", l.range.toValue), ("span", l.span.toValue), ("target", .text l.target),
    ("tooltip", .text l.tooltip)]

/-- The word for the kind of a suggestion. -/
def Candidate.kind (c : Candidate) : String :=
  if c.isDirectory then "directory" else "file"

/-- A suggestion. -/
def Candidate.toValue (c : Candidate) : Value :=
  .object [("label", .text c.label), ("insert_text", .text c.insertText), ("kind", .text c.kind),
    ("replace", c.replace.toValue), ("documentation", .text c.documentation), ("retrigger", .bool c.retrigger)]

/-- An entry of a directory. -/
def DirectoryEntry.toValue (e : DirectoryEntry) : Value :=
  .object [("name", .text e.name), ("is_directory", .bool e.isDirectory)]

/-- A document. -/
def Document.toValue (d : Document) : Value :=
  .object [("path", .text d.path), ("text", .text d.text)]

/-- Diagnostics by the documents that they are about. -/
def Diagnostic.reportValue (documents : List (String × List Diagnostic)) : Value :=
  .object (documents.map fun (path, found) => (path, .ofList Diagnostic.toValue found))

end DocRefs
