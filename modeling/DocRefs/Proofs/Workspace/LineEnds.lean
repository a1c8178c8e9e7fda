import DocRefs.Proofs.Reference.LineEnds
import DocRefs.Proofs.Workspace.Requests

/-!
# Line ends make no difference to a document

An editor hands a text over as it is, and a text that is read from a file comes with every line end as a line feed. Both
are linted alike, link alike and are completed alike; the references of the second stand at other offsets, but on the
same lines and columns (`Workspace.answers_unified`).
-/

namespace DocRefs

/-- A document with its line ends written as line feeds. -/
def Document.unified (d : Document) : Document :=
  ⟨d.path, String.ofList (unifyLineEnds d.text.toList)⟩

/-- The text that a file holds, with the line ends that it has there. -/
def Document.heldText (disk : Disk) (path : String) : Except ReadError String := do
  let bytes ← (disk.readFile path).mapError .file
  let text ← (Utf8.decode bytes).mapError .encoding
  return String.ofList text

/-- A resolved reference with its span where its own is in the document with its line ends as line feeds. -/
def ResolvedReference.unified (text : List Char) (r : ResolvedReference) : ResolvedReference :=
  { r with span := r.span.unified text }

/-- A link with its span where its own is in the document with its line ends as line feeds. -/
def Link.unified (text : List Char) (l : Link) : Link :=
  { l with span := l.span.unified text }

/-- An answer with another value. -/
def Answer.map {σ α β : Type} (f : α → β) (a : Answer σ α) : Answer σ β :=
  ⟨f a.value, a.workspace, a.log⟩

/-- What is read from a file is what it holds, with the line ends as line feeds. -/
theorem Document.load_eq_unified (disk : Disk) (path : String) :
    Document.load disk path none =
      (heldText disk (Path.absolute disk.cwd path)).map fun text => unified ⟨Path.absolute disk.cwd path, text⟩ := by
  unfold load readText heldText
  dsimp only
  cases disk.readFile (Path.absolute disk.cwd path) with
  | error e => rfl
  | ok bytes =>
    change (((Utf8.decode bytes).mapError ReadError.encoding >>= fun text => _) >>= fun text => _) =
      (((Utf8.decode bytes).mapError ReadError.encoding >>= fun text => _).map _)
    cases Utf8.decode bytes with
    | error e => rfl
    | ok text =>
      refine congrArg
        (fun text => Except.ok (Document.mk (Path.absolute disk.cwd path) (String.ofList (unifyLineEnds text)))) ?_
      exact String.toList_ofList.symm

namespace Workspace

variable {σ : Type} [FileSystem σ] {w : Workspace σ} {d : Document}

/-- References are resolved one by one, whatever their spans. -/
theorem resolveAll_unified (text : List Char) (base : String) (references : List Reference) (fs : σ) :
    resolveAll base (references.map (Reference.unified text)) fs =
      ((resolveAll base references fs).1.map (ResolvedReference.unified text), (resolveAll base references fs).2) := by
  induction references generalizing fs with
  | nil => rfl
  | cons r rs ih =>
    rw [List.map_cons, resolveAll, resolveAll]
    simp only [resolveReference, Reference.unified] at ih ⊢
    rw [ih]
    rfl

/-- The references of a document are resolved alike, whatever its line ends. -/
theorem resolve_unified (w : Workspace σ) (d : Document) :
    w.resolve d.unified = (w.resolve d).map (Answer.map (List.map (ResolvedReference.unified d.text.toList))) := by
  have hscan : Reference.scan d.unified.text = _ := Reference.scan_unifyLineEnds d.text
  unfold resolve
  rw [hscan]
  cases w.rootOverride with
  | error e => rfl
  | ok override =>
    cases Reference.scan d.text with
    | error e => rfl
    | ok refs =>
      cases refs with
      | nil => rfl
      | cons r rs =>
        have hall := resolveAll_unified d.text.toList (w.selectBaseDir d.dirname override).value (r :: rs)
          (w.selectBaseDir d.dirname override).workspace.fs
        exact congrArg (fun p => Except.ok (⟨p.1, { (w.selectBaseDir d.dirname override).workspace with fs := p.2 },
          (w.selectBaseDir d.dirname override).log⟩ : Answer σ (List ResolvedReference))) hall

/-- A reference of a document stands at the same lines and columns, whatever the line ends of the document. -/
theorem rangeOf_unified_of_resolve {a : Answer σ (List ResolvedReference)}
    (h : w.resolve d = .ok a) {r : ResolvedReference}
    (hr : r ∈ a.value) :
    rangeOf d.unified.text.toList (r.span.unified d.text.toList) = rangeOf d.text.toList r.span := by
  rw [Document.unified, String.toList_ofList]
  exact Reference.rangeOf_unified (scan_of_resolve h) (List.mem_map_of_mem hr)

/-- The diagnostics of a document do not depend on its line ends. -/
theorem lint_unified (w : Workspace σ) (d : Document) : w.lint d.unified = w.lint d := by
  unfold lint
  rw [resolve_unified]
  cases hresolved : w.resolve d with
  | error e => rfl
  | ok a =>
    have hsame : Diagnostic.ofReferences d.unified (a.value.map (ResolvedReference.unified d.text.toList)) =
        Diagnostic.ofReferences d a.value := by
      unfold Diagnostic.ofReferences
      rw [List.filter_map, List.map_map]
      refine List.map_congr_left fun r hr => ?_
      have hrange := rangeOf_unified_of_resolve hresolved (List.mem_filter.1 hr).1
      exact congrArg (fun range => (⟨range, Diagnostic.missingFile r.filePath⟩ : Diagnostic)) hrange
    exact congrArg (fun diagnostics => Except.ok (⟨diagnostics,
      { a.workspace with diagnostics := a.workspace.diagnostics.insert d.path diagnostics }, a.log⟩ : Answer σ _)) hsame

/-- The links of a document do not depend on its line ends, but for the offsets that they stand at. -/
theorem links_unified (w : Workspace σ) (d : Document) :
    w.links d.unified = (w.links d).map (Answer.map (List.map (Link.unified d.text.toList))) := by
  unfold links
  rw [resolve_unified]
  cases hresolved : w.resolve d with
  | error e => rfl
  | ok a =>
    have hsame : Link.ofReferences d.unified (a.value.map (ResolvedReference.unified d.text.toList)) =
        (Link.ofReferences d a.value).map (Link.unified d.text.toList) := by
      unfold Link.ofReferences
      rw [List.filter_map, List.map_map, List.map_map]
      refine List.map_congr_left fun r hr => ?_
      have hrange := rangeOf_unified_of_resolve hresolved (List.mem_filter.1 hr).1
      exact congrArg
        (fun range => (⟨range, r.span.unified d.text.toList, r.absolutePath, Link.tooltipOf r.toReference⟩ : Link))
        hrange
    exact congrArg (fun links => Except.ok (⟨links, a.workspace, a.log⟩ : Answer σ _)) hsame

/-- What is suggested at a position does not depend on the line ends. -/
theorem complete_unified (w : Workspace σ) (d : Document) (position : Position) (cancel : Cancellation) :
    w.complete d.unified position cancel = w.complete d position cancel := by
  have hline : d.unified.lineText position.line = d.lineText position.line := by
    unfold Document.lineText lineText
    rw [Document.unified, String.toList_ofList, splitLines_unifyLineEnds]
  unfold complete
  rw [hline]
  rfl

/-- A document is linted and completed alike whether its line ends are carriage returns, line feeds or both together, or
have all become line feeds as in a text that is read from a file. Its references are resolved alike and its links lead
to the same files from the same lines and columns; only the offsets that they stand at move. -/
theorem answers_unified (w : Workspace σ) (d : Document) :
    w.lint d.unified = w.lint d ∧
    w.resolve d.unified = (w.resolve d).map (Answer.map (List.map (ResolvedReference.unified d.text.toList))) ∧
    w.links d.unified = (w.links d).map (Answer.map (List.map (Link.unified d.text.toList))) ∧
    (∀ position cancel, w.complete d.unified position cancel = w.complete d position cancel) ∧
    ∀ (disk : Disk) (path : String), Document.load disk path none =
      (Document.heldText disk (Path.absolute disk.cwd path)).map fun text =>
        Document.unified ⟨Path.absolute disk.cwd path, text⟩ :=
  ⟨lint_unified w d, resolve_unified w d, links_unified w d, complete_unified w d, Document.load_eq_unified⟩

end Workspace

end DocRefs
