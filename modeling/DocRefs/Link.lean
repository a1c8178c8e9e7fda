import DocRefs.Document
import DocRefs.Reference

/-!
# Links

A reference whose target exists is a link to it.
-/

namespace DocRefs

/-- A link from a stretch of a document to a file. -/
structure Link where
  range : TextRange
  span : Span
  target : String
  tooltip : String
deriving Repr, DecidableEq

namespace Link

/-- What is shown over a link: the path as it is written, and the lines if some are named. -/
def tooltipOf (r : Reference) : String :=
  match r.lineRanges with
  | none => s!"Open {r.filePath}"
  | some ranges => s!"Open {r.filePath} at lines {Range.formatList ranges}"

/-- The links of a document: one for each reference whose target exists, in order. -/
def ofReferences (d : Document) (references : List ResolvedReference) : List Link :=
  let text := d.text.toList
  (references.filter (·.present)).map fun r => ⟨rangeOf text r.span, r.span, r.absolutePath, tooltipOf r.toReference⟩

end Link

end DocRefs
