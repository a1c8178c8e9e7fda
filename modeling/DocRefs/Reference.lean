import DocRefs.Range
import DocRefs.Text.Lines

/-!
# References

A reference to a file inside a document, as it is written and as it is resolved.
-/

namespace DocRefs

/-- A reference as the document has it. A range field is absent when the reference has no block for it. -/
structure Reference where
  filePath : String
  lineRanges : Option (List Range)
  highlightRanges : Option (List Range)
  span : Span
deriving Repr, DecidableEq

/-- A reference with the path that it names and whether something is there. -/
structure ResolvedReference extends Reference where
  absolutePath : String
  present : Bool
deriving Repr, DecidableEq

end DocRefs
