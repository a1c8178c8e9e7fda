import DocRefs.Completion
import DocRefs.Diagnostic
import DocRefs.Link
import DocRefs.Listings
import DocRefs.Log
import DocRefs.Reference.Scan
import DocRefs.Roots
import DocRefs.Settings

/-!
# The workspace

Everything that a request may ask about documents, answered over a place that holds files. Roots, listings and
diagnostics are remembered between requests.
-/

namespace DocRefs

/-- Settings, the place that holds the files, and what is remembered. -/
structure Workspace (σ : Type) where
  fs : σ
  env : Environment
  settings : Settings
  roots : Roots
  listings : Listings := {}
  diagnostics : Assoc String (List Diagnostic) := .empty

/-- Why a request has no answer. -/
inductive RequestError
  | noHome (e : FilePath.NoHome)
  | numeralTooLong (e : NumeralTooLong)
deriving Repr, DecidableEq

/-- The text of an error. -/
def RequestError.message : RequestError → String
  | noHome e => e.message
  | numeralTooLong e => e.message

/-- An answer, the workspace after it, and what was reported on the way. -/
structure Answer (σ α : Type) where
  value : α
  workspace : Workspace σ
  log : List LogEvent := []

/-- A request that may be called off: beforehand, or while a directory is read for it. -/
inductive Cancellation
  | never
  | before
  | during
deriving Repr, DecidableEq

namespace Workspace

variable {σ : Type} [FileSystem σ]

/-- A workspace that remembers nothing. -/
def new (fs : σ) (env : Environment) (settings : Settings) : Workspace σ where
  fs := fs
  env := env
  settings := settings
  roots := { marker := settings.marker }

/-- The directory that is set as the root of every document. -/
def rootOverride (w : Workspace σ) : Except FilePath.NoHome (Option String) :=
  w.settings.resolvedRootDir w.env

/-- The absolute form of a path. -/
def absolute (w : Workspace σ) (path : String) : String :=
  Path.absolute w.env.cwd path

/-- The root of the project that a directory belongs to. -/
def findRoot (w : Workspace σ) (start : String) : Answer σ (Option String) :=
  let start := w.absolute start
  let (search, roots, fs) := w.roots.find w.fs start
  ⟨search.root, { w with roots, fs }, [.rootSearched start search.root search.probed.length]⟩

/-- The remembered root of a directory, if it is known to have one. -/
def cachedRoot (w : Workspace σ) (directory : String) : Option String :=
  w.roots.cached (w.absolute directory)

/-- Whether it is remembered which root a directory has. -/
def isRootCached (w : Workspace σ) (directory : String) : Bool :=
  w.roots.isCached (w.absolute directory)

/-- The directory that the references of a document are taken from: the one that is set, or else the root of the
project, or else the document's own. -/
def selectBaseDir (w : Workspace σ) (documentDir : String) (override : Option String) : Answer σ String :=
  match override with
  | some dir => ⟨dir, w, []⟩
  | none =>
    let found := w.findRoot documentDir
    { found with value := found.value.getD documentDir }

/-- The directory that the references of a document in a directory are taken from. -/
def baseDir (w : Workspace σ) (documentDir : String) : Except RequestError (Answer σ String) := do
  return w.selectBaseDir documentDir (← w.rootOverride.mapError .noHome)

/-- The path that a reference names, taken from a directory. -/
def resolvePath (baseDir filePath : String) : String :=
  Path.normalize (Path.join baseDir filePath)

/-- Resolves a reference against a directory. -/
def resolveReference (fs : σ) (baseDir : String) (r : Reference) : ResolvedReference × σ :=
  let absolutePath := resolvePath baseDir r.filePath
  let (present, fs) := FileSystem.pathExists fs absolutePath
  ({ r with absolutePath, present }, fs)

/-- Resolves references against a directory, in order. -/
def resolveAll (baseDir : String) : List Reference → σ → List ResolvedReference × σ
  | [], fs => ([], fs)
  | r :: rs, fs =>
    let (resolved, fs) := resolveReference fs baseDir r
    let (others, fs) := resolveAll baseDir rs fs
    (resolved :: others, fs)

/-- The references of a document, resolved. No root is searched for a document that has none. -/
def resolve (w : Workspace σ) (d : Document) : Except RequestError (Answer σ (List ResolvedReference)) := do
  let override ← w.rootOverride.mapError .noHome
  match ← (Reference.scan d.text).mapError .numeralTooLong with
  | [] => return ⟨[], w, []⟩
  | references =>
    let base := w.selectBaseDir d.dirname override
    let (resolved, fs) := resolveAll base.value references base.workspace.fs
    return ⟨resolved, { base.workspace with fs }, base.log⟩

/-- The diagnostics of a document, which become its stored ones. -/
def lint (w : Workspace σ) (d : Document) : Except RequestError (Answer σ (List Diagnostic)) := do
  let resolved ← w.resolve d
  let diagnostics := Diagnostic.ofReferences d resolved.value
  let after := resolved.workspace
  return ⟨diagnostics, { after with diagnostics := after.diagnostics.insert d.path diagnostics }, resolved.log⟩

/-- The links of a document. -/
def links (w : Workspace σ) (d : Document) : Except RequestError (Answer σ (List Link)) := do
  let resolved ← w.resolve d
  return { resolved with value := Link.ofReferences d resolved.value }

/-- The listing of a directory. -/
def listing (w : Workspace σ) (directory : String) : Answer σ ListingAnswer :=
  let (answer, listings, fs) := w.listings.get w.fs directory
  let log := answer.error.toList.map fun e => .listingFailed (Path.normalize directory) e
  ⟨answer, { w with listings, fs }, log⟩

/-- The suggestions at the end of a line's text, if the cursor is in the path of an open reference and the request is
not called off. -/
def completePath (w : Workspace σ) (linePrefix : List Char) (line : Int) (documentDir : String)
    (override : Option String) (cancel : Cancellation) : Answer σ (Option (List Candidate)) :=
  match OpenPath.ofLine? linePrefix with
  | none => ⟨none, w, []⟩
  | some typed =>
    let typed := TypedPath.ofChars typed
    let base := w.selectBaseDir documentDir override
    if cancel = .before then { base with value := none }
    else
      let listed := base.workspace.listing (typed.searchDir base.value)
      let calledOff := cancel = .during && listed.value.wasRead
      let value := if calledOff then none
        else some (Candidate.ofEntries line linePrefix.length typed listed.value.entries)
      ⟨value, listed.workspace, base.log ++ listed.log⟩

/-- The suggestions at a position of a document. -/
def complete (w : Workspace σ) (d : Document) (position : Position) (cancel : Cancellation) :
    Except RequestError (Answer σ (Option (List Candidate))) := do
  let linePrefix := takeSigned position.character (d.lineText position.line)
  let override ← w.rootOverride.mapError .noHome
  return w.completePath linePrefix position.line d.dirname override cancel

/-- Forgets what changed paths may have altered. -/
def filesChanged (w : Workspace σ) (paths : List String) : Answer σ Unit :=
  let changed := paths.map w.absolute
  let (cleared, roots) := w.roots.invalidate changed
  let (dropped, listings) := w.listings.invalidate changed
  ⟨(), { w with roots, listings },
    (if cleared then [.rootsForgotten] else []) ++ (if dropped = 0 then [] else [.listingsDropped dropped])⟩

/-- The stored diagnostics of a document. -/
def diagnosticsOf (w : Workspace σ) (path : String) : List Diagnostic :=
  (w.diagnostics.get? path).getD []

/-- Forgets the diagnostics of a document. -/
def dropDiagnostics (w : Workspace σ) (path : String) : Workspace σ :=
  { w with diagnostics := w.diagnostics.erase path }

/-- Forgets everything. -/
def close (w : Workspace σ) : Workspace σ :=
  { w with roots := w.roots.clear, listings := w.listings.clear, diagnostics := .empty }

end Workspace

end DocRefs
