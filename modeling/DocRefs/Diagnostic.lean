import DocRefs.Document
import DocRefs.Reference

/-!
# Diagnostics

A reference whose target does not exist is reported at its place, by the path that is written in the document.
-/

namespace DocRefs

/-- A report about a stretch of a document. -/
structure Diagnostic where
  range : TextRange
  message : String
deriving Repr, DecidableEq

namespace Diagnostic

/-- How grave every report is. -/
def severity : String := "error"

/-- Who reports. -/
def source : String := "mdx-include"

/-- The text of a report. -/
def missingFile (filePath : String) : String :=
  s!"The referenced file does not exist: {filePath}"

/-- The reports about a document: one for each reference whose target does not exist, in order. -/
def ofReferences (d : Document) (references : List ResolvedReference) : List Diagnostic :=
  let text := d.text.toList
  (references.filter fun r => !r.present).map fun r => ⟨rangeOf text r.span, missingFile r.filePath⟩

end Diagnostic

end DocRefs
