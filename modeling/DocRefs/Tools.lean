import DocRefs.Workspace

/-!
# Tools

The requests that an assistant may make, each with its document by path and, if it wants, by text.
-/

namespace DocRefs

/-- A request for a tool. -/
inductive ToolCall
  | lintDocument (path : String) (text : Option String)
  | findReferences (path : String) (text : Option String)
  | documentLinks (path : String) (text : Option String)
  | completePath (path : String) (position : Position) (text : Option String)
  | findRoot (directory : String)

/-- What a tool gives back. -/
inductive ToolResult
  | diagnostics (items : List Diagnostic)
  | references (items : List ResolvedReference)
  | links (items : List Link)
  | candidates (items : List Candidate)
  | root (directory : Option String)

/-- Why a tool gives nothing back. -/
inductive ToolError
  | unreadable (path : String) (e : ReadError)
  | request (e : RequestError)

/-- The text of an error. -/
def ToolError.message : ToolError → String
  | unreadable path e => s!"Cannot read {path}: {e.message}"
  | request e => e.message

namespace ToolCall

variable {σ : Type} [FileSystem σ]

/-- Opens the document of a request. -/
def openDocument (disk : Disk) (path : String) (text : Option String) : Except ToolError Document :=
  (Document.load disk path text).mapError (.unreadable path)

/-- An answer as the result of a tool. -/
def wrap {α : Type} (f : α → ToolResult) (answer : Except RequestError (Answer σ α)) :
    Except ToolError (Answer σ ToolResult) :=
  match answer with
  | .ok a => .ok ⟨f a.value, a.workspace, a.log⟩
  | .error e => .error (.request e)

/-- Answers a request. -/
def run (w : Workspace σ) (disk : Disk) : ToolCall → Except ToolError (Answer σ ToolResult)
  | lintDocument path text => do wrap .diagnostics (w.lint (← openDocument disk path text))
  | findReferences path text => do wrap .references (w.resolve (← openDocument disk path text))
  | documentLinks path text => do wrap .links (w.links (← openDocument disk path text))
  | completePath path position text => do
    wrap (fun found => .candidates (found.getD [])) (w.complete (← openDocument disk path text) position .never)
  | findRoot directory =>
    let found := w.findRoot directory
    .ok ⟨.root found.value, found.workspace, found.log⟩

end ToolCall

end DocRefs
