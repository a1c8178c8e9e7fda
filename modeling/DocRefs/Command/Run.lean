import DocRefs.Command.Line
import DocRefs.Command.Watch
import DocRefs.Record

/-!
# Running a command

What each command shows, reports, and exits with, given the environment, the disk, and for a watch what happens while it
lasts.
-/

namespace DocRefs

/-- Why a command ends without an exit code. -/
inductive CommandError
  | settings (e : SettingsError)
  | request (e : RequestError)
  | file (e : FileError)

/-- How a command ended, and what came of it. -/
structure CommandResult where
  exit : Except CommandError Nat
  effects : Effects

namespace Command

/-- An exit with a code after some effects. -/
def exitWith (code : Nat) (effects : Effects) : CommandResult :=
  ⟨.ok code, effects⟩

/-- The workspace that the options of a command ask for. Settings that cannot be used end the command. -/
def openWorkspace (m : Machine) (root : Option FilePath) (marker : Option String) :
    Except CommandResult (Workspace Disk) :=
  let options := [("root_dir", root.elim .null fun p => .text p.toString), ("marker_filename", marker.elim .null .text)]
  match Settings.load m.env m.disk options with
  | .ok settings => .ok (.new m.disk m.env settings)
  | .error e =>
    if e.isRefusal then .error (exitWith 2 (.say s!"[red]{e.message}[/red]")) else .error ⟨.error (.settings e), {}⟩

/-- The document at a path. One that cannot be read ends the command. -/
def openDocument (m : Machine) (path : FilePath) : Except CommandResult Document :=
  (Document.load m.disk path.toString none).mapError fun e =>
    exitWith 2 (.say s!"[red]Cannot read {path.toString}: {e.message}[/red]")

/-- Goes on with an answer, unless there is none. -/
def withAnswer {α : Type} (answer : Except RequestError (Answer Disk α)) (k : α → Effects) : CommandResult :=
  match answer with
  | .error e => ⟨.error (.request e), {}⟩
  | .ok a => exitWith 0 (⟨[], a.log⟩ ++ k a.value)

/-- The result of a command that may have ended early. -/
def result : Except CommandResult CommandResult → CommandResult
  | .ok r => r
  | .error r => r

/-! ## Lint -/

/-- What linting documents gave so far: the rows of the table and the documents with diagnostics. -/
structure LintReport where
  rows : List (List String) := []
  documents : List (String × List Diagnostic) := []

/-- The rows for the diagnostics of a document. -/
def lintRows (path : FilePath) (diagnostics : List Diagnostic) : List (List String) :=
  diagnostics.map fun d =>
    [path.toString, toString (d.range.start.line + 1), toString (d.range.start.character + 1), d.message]

/-- A report with the diagnostics of one more document. A document that is named again counts by its last
diagnostics. -/
def LintReport.add (r : LintReport) (path : FilePath) (diagnostics : List Diagnostic) : LintReport where
  rows := r.rows ++ lintRows path diagnostics
  documents :=
    if diagnostics = [] then r.documents
    else ((Assoc.mk r.documents).insert path.toString diagnostics).entries

/-- Lints documents in order; one that cannot be read is passed over. -/
def lintDocuments (w : Workspace Disk) (report : LintReport) :
    List FilePath → Except RequestError LintReport × Effects
  | [] => (.ok report, {})
  | p :: ps =>
    match Document.load w.fs p.toString none with
    | .error e =>
      let (report, later) := lintDocuments w report ps
      (report, .say (Session.skipNotice p e) ++ later)
    | .ok document =>
      match w.lint document with
      | .error e => (.error e, {})
      | .ok answer =>
        let (report, later) := lintDocuments answer.workspace (report.add p answer.value) ps
        (report, ⟨[], answer.log⟩ ++ later)

/-- What linting shows in the end. -/
def showReport (json : Bool) (report : LintReport) : Effects :=
  if json then .display (.report report.documents)
  else if report.rows = [] then .say "[green]No broken references.[/green]"
  else Output.tableWithCount ["file", "line", "column", "message"] report.rows

/-- Lints the documents that paths stand for. The exit code says whether there was anything to report. -/
def runLint (w : Workspace Disk) (paths : List FilePath) (json : Bool) : CommandResult :=
  match collectDocuments w.fs w.settings paths with
  | .error (.nothingAt path) => exitWith 2 (.say (Session.notFoundNotice path))
  | .error (.file e) => ⟨.error (.file e), {}⟩
  | .ok documents =>
    match lintDocuments w {} documents with
    | (.error e, effects) => ⟨.error (.request e), effects⟩
    | (.ok report, effects) =>
      exitWith (if report.rows = [] then 0 else 1) (effects ++ showReport json report)

/-! ## One document -/

/-- The row for a reference in a text. -/
def refRow (text : List Char) (r : ResolvedReference) : List String :=
  let ranges (field : Option (List Range)) : String := field.elim "" Range.formatList
  [toString ((positionAt text r.span.start).line + 1), r.filePath, r.absolutePath,
    if r.present then "yes" else "[red]no[/red]", ranges r.lineRanges, ranges r.highlightRanges]

/-- Shows the references of a document and where they lead. -/
def runRefs (w : Workspace Disk) (d : Document) : CommandResult :=
  withAnswer (w.resolve d) fun references =>
    Output.tableWithCount ["line", "path", "resolved", "exists", "ln", "hl"] (references.map (refRow d.text.toList))

/-- Shows the links of a document. -/
def runLinks (w : Workspace Disk) (d : Document) : CommandResult :=
  withAnswer (w.links d) fun links =>
    Output.tableWithCount ["line", "target", "tooltip"]
      (links.map fun l => [toString (l.range.start.line + 1), l.target, l.tooltip])

/-- Shows the suggestions at a place of a document, its line and column counted from one. -/
def runComplete (w : Workspace Disk) (d : Document) (line column : Int) : CommandResult :=
  withAnswer (w.complete d ⟨line - 1, column - 1⟩ .never) fun
    | none => .say "No suggestions at this position."
    | some candidates =>
      Output.tableWithCount ["insert", "kind", "documentation"]
        (candidates.map fun c => [c.insertText, c.kind, c.documentation])

/-- Shows the root of the project that a directory belongs to. -/
def runRoot (w : Workspace Disk) (directory : FilePath) : CommandResult :=
  let search := w.findRoot directory.toString
  let (code, text) : Nat × String := match search.value with
    | some found => (0, found)
    | none => (1, s!"[yellow]No {w.settings.marker} found above {directory.toString}[/yellow]")
  exitWith code (⟨[], search.log⟩ ++ .say text)

/-! ## Watch -/

/-- Lints the documents below a directory, and again as they change. -/
def runWatch (w : Workspace Disk) (events : List WatchEvent) (directory : FilePath) : CommandResult :=
  let first := (Session.new w directory).lintAll
  match first.result with
  | .error (.exit code) => exitWith code first.effects
  | .error (.failed e) => ⟨.error (.request e), first.effects⟩
  | .error (.file e) => ⟨.error (.file e), first.effects⟩
  | .ok () =>
    let name := directory.toString
    let opening : Effects := ⟨[.line s!"[green]Watching {name}[/green] (Ctrl+C to stop)"], [.watchStarted name]⟩
    let lived := Watch.liveAll first.session (Watch.moments w.settings directory events)
    let ending : Effects := ⟨if events.any (·.interrupt) then [.line "Stopped."] else [], [.watchStopped name]⟩
    exitWith 0 (first.effects ++ opening ++ lived ++ ending)

/-! ## All commands -/

/-- Runs a command. -/
def run (m : Machine) : Command → CommandResult
  | help => exitWith 0 {}
  | lint paths rootDir marker json => result do
    return runLint (← openWorkspace m rootDir marker) paths json
  | refs path rootDir marker => result do
    return runRefs (← openWorkspace m rootDir marker) (← openDocument m path)
  | links path rootDir marker => result do
    return runLinks (← openWorkspace m rootDir marker) (← openDocument m path)
  | complete path line column rootDir marker => result do
    return runComplete (← openWorkspace m rootDir marker) (← openDocument m path) line column
  | root directory marker => result do
    return runRoot (← openWorkspace m none marker) directory
  | watch directory rootDir marker => result do
    return runWatch (← openWorkspace m rootDir marker) m.events directory
  | serveHttp host port => result do
    let _ ← openWorkspace m none none
    return exitWith 0 ⟨[.line s!"[green]Starting API server on {host}:{port}[/green]", .serveHttp host port], []⟩
  | serveTools transport => result do
    let _ ← openWorkspace m none none
    return exitWith 0
      ⟨[.line s!"[green]Starting MCP server (transport: {transport})[/green]", .serveTools "mdx-include" transport], []⟩

end Command

namespace CommandLine

/-- The least severity that is reported. -/
def threshold (verbose : Bool) : Severity :=
  if verbose then .debug else .warning

/-- Runs a command line, unless it is not understood. -/
def run? (m : Machine) (arguments : List String) : Option CommandResult :=
  (read? (fun path => m.disk.isDenied path.toString) arguments).map fun line =>
    let r := line.command.run m
    let heard (e : LogEvent) : Bool := (threshold line.verbose).rank ≤ e.severity.rank
    { r with effects := { r.effects with log := r.effects.log.filter heard } }

end CommandLine

end DocRefs
