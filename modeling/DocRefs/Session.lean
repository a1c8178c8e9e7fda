import DocRefs.Collect
import DocRefs.Debouncer
import DocRefs.Output
import DocRefs.Workspace

/-!
# A watch session

A session keeps the diagnostics of the documents below a directory current. A changed document is linted again once it
has been quiet; any other change may concern every document, and all are linted again.
-/

namespace DocRefs

/-- What is linted again: one document, or all of them. -/
inductive Relint
  | one (path : FilePath)
  | all
deriving Repr, DecidableEq

/-- The key under which events of a kind are folded. -/
def Relint.key : Relint → String
  | one path => path.toString
  | all => "*"

/-- Why a task ends early. -/
inductive Stop
  | exit (code : Nat)
  | failed (e : RequestError)
  | file (e : FileError)
deriving Repr, DecidableEq

/-- A watch session. -/
structure Session where
  workspace : Workspace Disk
  directory : FilePath
  debouncer : Debouncer String Relint

/-- A session after some work, what came of it, and how it ended. -/
structure SessionStep (α : Type) where
  session : Session
  effects : Effects := {}
  result : Except Stop α

namespace Session

/-- A session over a workspace. -/
def new (workspace : Workspace Disk) (directory : FilePath) : Session :=
  ⟨workspace, directory, { delay := workspace.settings.debounce }⟩

/-- The same session with a changed disk. -/
def withDisk (s : Session) (disk : Disk) : Session :=
  { s with workspace := { s.workspace with fs := disk } }

/-- The notice that there is nothing at a path. -/
def notFoundNotice (path : FilePath) : String :=
  s!"[red]No such file or directory: {path.toString}[/red]"

/-- The notice that a document is passed over. -/
def skipNotice (path : FilePath) (e : ReadError) : String :=
  let reason := match e with
    | .file e => e.fault.words
    | .encoding _ => "not valid UTF-8"
  s!"[yellow]Skipping {path.toString}: {reason}[/yellow]"

/-- The documents below the session's directory. -/
def documents (s : Session) : SessionStep (List FilePath) :=
  match collectDocuments s.workspace.fs s.workspace.settings [s.directory] with
  | .ok paths => ⟨s, {}, .ok paths⟩
  | .error (.nothingAt path) => ⟨s, .say (notFoundNotice path), .error (.exit 2)⟩
  | .error (.file e) => ⟨s, {}, .error (.file e)⟩

/-- The lines for the diagnostics of a document. -/
def diagnosticLines (path : FilePath) (diagnostics : List Diagnostic) : List String :=
  diagnostics.map fun d =>
    s!"[red]{path.toString}:{d.range.start.line + 1}:{d.range.start.character + 1}[/red] {d.message}"

/-- The lines for diagnostics that take the place of others: none if nothing changed. -/
def changeLines (path : FilePath) (previous diagnostics : List Diagnostic) : List String :=
  if diagnostics = previous then []
  else if diagnostics = [] then [s!"[green]{path.toString}: references OK[/green]"]
  else diagnosticLines path diagnostics

/-- Lints one document and shows what changed. Diagnostics of a document that is gone are dropped; one that cannot be
read is passed over and keeps its diagnostics. -/
def lintOne (s : Session) (path : FilePath) : SessionStep Unit :=
  let w := s.workspace
  match w.fs.lookUp path.toString with
  | .error e => ⟨s, {}, .error (.file e)⟩
  | .ok none => ⟨{ s with workspace := w.dropDiagnostics (w.absolute path.toString) }, {}, .ok ()⟩
  | .ok (some _) =>
    match Document.load w.fs path.toString none with
    | .error e => ⟨s, .say (skipNotice path e), .ok ()⟩
    | .ok document =>
      match w.lint document with
      | .error e => ⟨s, {}, .error (.failed e)⟩
      | .ok answer =>
        let lines := changeLines path (w.diagnosticsOf document.path) answer.value
        ⟨{ s with workspace := answer.workspace }, ⟨lines.map .line, answer.log⟩, .ok ()⟩

/-- Lints documents in order, up to the first failure. -/
def lintEach (s : Session) : List FilePath → SessionStep Unit
  | [] => ⟨s, {}, .ok ()⟩
  | p :: ps =>
    let first := s.lintOne p
    match first.result with
    | .error stop => { first with result := .error stop }
    | .ok () =>
      let rest := lintEach first.session ps
      { rest with effects := first.effects ++ rest.effects }

/-- Lints every document below the directory. -/
def lintAll (s : Session) : SessionStep Unit :=
  let found := s.documents
  match found.result with
  | .error stop => ⟨found.session, found.effects, .error stop⟩
  | .ok paths =>
    let linted := found.session.lintEach paths
    { linted with effects := found.effects ++ linted.effects }

/-- Lints again what an event names. -/
def relint (s : Session) : Relint → SessionStep Unit
  | .one path => s.lintOne path
  | .all => s.lintAll

/-- Lints again what an event names. A failure is reported under the key of the event and ends nothing. -/
def carryOut (s : Session) (target : Relint) : Session × Effects :=
  let done := s.relint target
  let failure : Effects := match done.result with
    | .ok () => {}
    | .error _ => ⟨[], [.callbackFailed target.key]⟩
  (done.session, done.effects ++ failure)

/-- Carries out what the debouncer lets through, in order. -/
def carryOutAll (s : Session) : List (Emission String Relint) → Session × Effects
  | [] => (s, {})
  | .failed key :: rest =>
    let (s, later) := carryOutAll s rest
    (s, ⟨[], [.callbackFailed key]⟩ ++ later)
  | .effect target :: rest =>
    let (s, now) := s.carryOut target
    let (s, later) := carryOutAll s rest
    (s, now ++ later)

/-- What changed paths ask for: the documents among them in order, then everything if anything else changed. -/
def relintsFor (settings : Settings) (paths : List FilePath) : List Relint :=
  let ones := (paths.filter settings.isDocument).map .one
  if paths.all settings.isDocument then ones else ones ++ [.all]

/-- Forgets what changed paths may have altered. -/
def takeIn (s : Session) (paths : List FilePath) : Session × Effects :=
  let told := s.workspace.filesChanged (paths.map (·.toString))
  ({ s with workspace := told.workspace }, ⟨[], told.log⟩)

/-- Takes in a batch of changed paths, and schedules what they ask for. -/
def onChange (s : Session) (paths : List FilePath) : Session × Effects :=
  let (s, told) := s.takeIn paths
  let scheduled := (relintsFor s.workspace.settings paths).foldl
    (fun d target => d.schedule target.key [.emit target]) s.debouncer
  let (debouncer, emissions) := scheduled.settle
  let (s, done) := { s with debouncer }.carryOutAll emissions
  (s, told ++ done)

/-- Lets time go by. -/
def advance (s : Session) (seconds : Binary64) : Session × Effects :=
  let (debouncer, emissions) := s.debouncer.advance seconds
  { s with debouncer }.carryOutAll emissions

/-- Drops everything that is scheduled. -/
def cancelAll (s : Session) : Session :=
  { s with debouncer := s.debouncer.cancelAll }

/-- Whether something is scheduled under a key. -/
def isPending (s : Session) (key : String) : Bool :=
  s.debouncer.isPending key

end Session

end DocRefs
