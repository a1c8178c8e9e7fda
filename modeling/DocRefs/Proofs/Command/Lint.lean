import DocRefs.Command.Run
import DocRefs.Proofs.Assoc
import DocRefs.Proofs.Collect
import DocRefs.Proofs.Workspace.Recall
import DocRefs.Proofs.Workspace.Requests

/-!
# Linting many arguments

All documents of a run are linted by one workspace, which remembers the roots that it found. What it remembers is right,
so each document gets the diagnostics that a new workspace gives it (`Command.lintDocuments_eq`). A run over many
arguments therefore comes to what the runs over each of them come to together (`Command.lint_each`).
-/

namespace DocRefs

namespace CommandResult

/-- The rows of the tables that a command shows. -/
def tableRows (r : CommandResult) : List (List String) :=
  r.effects.shown.flatMap fun
    | .table _ rows => rows
    | _ => []

/-- The documents of the reports that a command shows. -/
def reported (r : CommandResult) : List (String × List Diagnostic) :=
  r.effects.shown.flatMap fun
    | .report documents => documents
    | _ => []

end CommandResult

namespace Command

/-! ## One document -/

/-- The diagnostics that a workspace which remembers nothing gives the document at a path, if it can lint it. A document
that cannot be read has none. -/
def alone (w : Workspace Disk) (path : String) : Option (List Diagnostic) :=
  match Document.load w.fs path none with
  | .error _ => some []
  | .ok d => ((Workspace.new w.fs w.env w.settings).lint d).toOption.map (·.value)

/-- The rows that a document alone has in the table. -/
def rowsAlone (w : Workspace Disk) (path : FilePath) : List (List String) :=
  lintRows path ((alone w path.toString).getD [])

/-- Whether the document at a path can be read. -/
def isReadable (disk : Disk) (path : FilePath) : Bool :=
  (Document.load disk path.toString none).toOption.isSome

variable {w w' : Workspace Disk} {path : FilePath} {paths documents : List FilePath} {report : LintReport}

/-- What is remembered makes no difference to the diagnostics of a document, and neither does a disk on which the same
paths lead to something. -/
theorem lint_toOption_eq (h : w.Knows) (h' : w'.Knows) (hexists : ∀ p, w'.fs.pathExists p = w.fs.pathExists p)
    (henv : w'.env = w.env) (hsettings : w'.settings = w.settings) (d : Document) :
    (w'.lint d).toOption.map (·.value) = (w.lint d).toOption.map (·.value) := by
  have hanswered : (∃ a, w'.lint d = .ok a) ↔ ∃ a, w.lint d = .ok a := by
    rw [Workspace.lint_isOk_iff, Workspace.resolve_isOk_iff, Workspace.lint_isOk_iff, Workspace.resolve_isOk_iff,
      Workspace.rootOverride, Workspace.rootOverride, henv, hsettings]
  cases hlint' : w'.lint d with
  | ok a' =>
    obtain ⟨a, hlint⟩ := hanswered.1 ⟨a', hlint'⟩
    rw [hlint]
    exact congrArg some (h.lint_value_eq h' hexists henv hsettings hlint hlint')
  | error e' =>
    cases hlint : w.lint d with
    | ok a =>
      obtain ⟨a', ha'⟩ := hanswered.2 ⟨a, hlint⟩
      rw [hlint'] at ha'
      cases ha'
    | error e => rfl

/-- A document that cannot be read has nothing found in it. -/
theorem alone_of_error {name : String} {e : ReadError} (hload : Document.load w.fs name none = .error e) :
    alone w name = some [] := by
  unfold alone
  rw [hload]

/-- What is remembered makes no difference to a document. -/
theorem alone_of_ok (h : w.Knows) {name : String} {d : Document} (hload : Document.load w.fs name none = .ok d) :
    alone w name = (w.lint d).toOption.map (·.value) := by
  unfold alone
  rw [hload]
  exact lint_toOption_eq h (Workspace.knows_new _ _ _) (fun _ => rfl) rfl rfl d

/-- A document can be linted if it cannot be read, or if the root directory can be made out and the document be
scanned. -/
theorem isSome_alone_iff {name : String} :
    (alone w name).isSome = true ↔
      ∀ d, Document.load w.fs name none = .ok d → (∃ o, w.rootOverride = .ok o) ∧ ∃ refs,
      Reference.scan d.text = .ok refs := by
  unfold alone
  cases Document.load w.fs name none with
  | error e => simp
  | ok d =>
    have hanswered : (∃ a, (Workspace.new w.fs w.env w.settings).lint d = .ok a) ↔ _ :=
      Workspace.lint_isOk_iff.trans Workspace.resolve_isOk_iff
    simp only [Except.ok.injEq, forall_eq']
    refine Iff.trans ?_ hanswered
    cases (Workspace.new w.fs w.env w.settings).lint d <;> simp [Except.toOption]

/-- A document that cannot be read has no rows. -/
theorem rowsAlone_of_not_isReadable (h : isReadable w.fs path = false) : rowsAlone w path = [] := by
  unfold isReadable at h
  cases hload : Document.load w.fs path.toString none with
  | ok d =>
    rw [hload] at h
    cases h
  | error e =>
    rw [rowsAlone, alone_of_error hload]
    rfl

/-- The rows of a document depend on its own text, and on which paths lead to something, and on nothing else that a disk
holds. -/
theorem rowsAlone_of_exists {disk : Disk} (hexists : ∀ p, disk.pathExists p = w.fs.pathExists p)
    (hload : Document.load disk path.toString none = Document.load w.fs path.toString none) :
    rowsAlone { w with fs := disk } path = rowsAlone w path := by
  unfold rowsAlone alone
  rw [hload]
  cases Document.load w.fs path.toString none with
  | error e => rfl
  | ok d =>
    have hsame := lint_toOption_eq (Workspace.knows_new w.fs w.env w.settings)
      (Workspace.knows_new disk w.env w.settings) hexists rfl
      rfl d
    exact congrArg (fun found => lintRows path (found.getD [])) hsame

/-! ## Documents in order -/

/-- The report on documents of which each has the diagnostics that it has alone. -/
def reportAlone (w : Workspace Disk) (report : LintReport) (documents : List FilePath) : LintReport :=
  documents.foldl (fun r p => r.add p ((alone w p.toString).getD [])) report

/-- Whether all documents can be linted. -/
def canLint (w : Workspace Disk) (documents : List FilePath) : Bool :=
  documents.all fun p => (alone w p.toString).isSome

/-- A document in which nothing is found adds nothing to a report. -/
theorem add_nil (report : LintReport) (path : FilePath) : report.add path [] = report := by
  simp [LintReport.add, lintRows]

/-- Linting documents in order fails if one of them cannot be linted, and else gives each of them what it has alone. -/
theorem lintDocuments_eq (h : w.Knows) (report : LintReport) (documents : List FilePath) :
    (lintDocuments w report documents).1.toOption =
      if canLint w documents then some (reportAlone w report documents) else none := by
  induction documents generalizing w report with
  | nil => rfl
  | cons p ps ih =>
    rw [lintDocuments, canLint, reportAlone, List.all_cons, List.foldl_cons]
    cases hload : Document.load w.fs p.toString none with
    | error e =>
      rw [alone_of_error hload]
      simp only [Option.isSome_some, Bool.true_and, Option.getD_some, add_nil]
      exact ih h report
    | ok d =>
      rw [alone_of_ok h hload]
      cases hlint : w.lint d with
      | error e =>
        simp only [hlint]
        rfl
      | ok a =>
        simp only [hlint]
        -- The others are linted by the workspace after this lint: it remembers more, rightly, and is else as before.
        have hsame := (Workspace.lint_eq hlint).2
        have halone : alone a.workspace = alone w := by
          funext name
          rw [alone, alone, hsame.fs, hsame.env, hsame.settings]
        have hrest := ih (h.lint hlint) (report.add p a.value)
        rw [canLint, reportAlone, halone] at hrest
        exact hrest

/-- While documents are linted, only lines are shown. -/
theorem exists_line_of_mem_lintDocuments (w : Workspace Disk) (report : LintReport)
    (documents : List FilePath) {out : Output}
    (h : out ∈ (lintDocuments w report documents).2.shown) : ∃ text, out = .line text := by
  induction documents generalizing w report with
  | nil => cases h
  | cons p ps ih =>
    rw [lintDocuments] at h
    cases hload : Document.load w.fs p.toString none with
    | error e =>
      rw [hload] at h
      rcases List.mem_append.1 h with h | h
      · exact ⟨_, List.mem_singleton.1 h⟩
      · exact ih w report h
    | ok d =>
      rw [hload] at h
      cases hlint : w.lint d with
      | error e =>
        simp only [hlint] at h
        cases h
      | ok a =>
        simp only [hlint] at h
        rcases List.mem_append.1 h with h | h
        · cases h
        · exact ih _ _ h

/-! ## The report -/

/-- The last document adds what is found in it to the report of those before it. -/
theorem reportAlone_append_singleton (w : Workspace Disk) (documents : List FilePath) (p : FilePath) :
    reportAlone w {} (documents ++ [p]) = (reportAlone w {} documents).add p ((alone w p.toString).getD []) := by
  rw [reportAlone, List.foldl_append]
  rfl

/-- The rows of a report are those of its documents, one document after the other. -/
theorem rows_reportAlone (w : Workspace Disk) (documents : List FilePath) :
    (reportAlone w {} documents).rows = documents.flatMap (rowsAlone w) := by
  induction documents using List.reverseRecOn with
  | nil => rfl
  | append_singleton ps p ih =>
    rw [reportAlone_append_singleton, LintReport.add, ih, List.flatMap_append, List.flatMap_singleton, rowsAlone]

/-- The report names no document twice. -/
theorem nodup_reportAlone (w : Workspace Disk) (documents : List FilePath) :
    (Assoc.mk (reportAlone w {} documents).documents).keys.Nodup := by
  induction documents using List.reverseRecOn with
  | nil => exact List.nodup_nil
  | append_singleton ps p ih =>
    rw [reportAlone_append_singleton, LintReport.add]
    split
    · exact ih
    · exact Assoc.nodup_keys_insert ih _ _

/-- The report holds the diagnostics of the documents that have any. -/
theorem mem_reportAlone_iff {name : String} {diagnostics : List Diagnostic} :
    (name, diagnostics) ∈ (reportAlone w {} documents).documents ↔
      diagnostics ≠ [] ∧ (alone w name).getD [] = diagnostics ∧ ∃ p ∈ documents, p.toString = name := by
  rw [← Assoc.get?_eq_some_iff (nodup_reportAlone w documents)]
  induction documents using List.reverseRecOn with
  | nil => simp [reportAlone, Assoc.get?]
  | append_singleton ps p ih =>
    rw [reportAlone_append_singleton, LintReport.add]
    have hlast : (∃ q ∈ ps ++ [p], q.toString = name) ↔ p.toString = name ∨ ∃ q ∈ ps, q.toString = name := by
      simp [or_comm]
    rw [hlast]
    split
    · rename_i hnone
      rw [ih]
      constructor
      · rintro ⟨hne, hvalue, hin⟩
        exact ⟨hne, hvalue, .inr hin⟩
      · rintro ⟨hne, hvalue, rfl | hin⟩
        · exact absurd (hvalue.symm.trans hnone) hne
        · exact ⟨hne, hvalue, hin⟩
    · rename_i hsome
      rw [Assoc.get?_insert]
      by_cases hp : name = p.toString
      · subst hp
        rw [if_pos rfl, Option.some.injEq]
        constructor
        · rintro rfl
          exact ⟨hsome, rfl, .inl rfl⟩
        · exact fun h => h.2.1
      · rw [if_neg hp, ih]
        simp [Ne.symm hp]

/-! ## A run -/

/-- The documents that a path stands for, if it leads to something. -/
def documentsAt (disk : Disk) (settings : Settings) (path : FilePath) : List FilePath :=
  match disk.lookUp path.toString with
  | .ok (some (.file _)) => [path]
  | .ok (some .directory) => (disk.filePathsBelow path).filter settings.isDocument
  | _ => []

/-- Paths that lead to something stand for the documents that each of them stands for. -/
theorem collectDocuments_eq {disk : Disk} (settings : Settings)
    (hexists : ∀ p ∈ paths, ∃ node, disk.lookUp p.toString = .ok (some node)) :
    collectDocuments disk settings paths = .ok (paths.flatMap (documentsAt disk settings)) := by
  induction paths with
  | nil => rfl
  | cons p ps ih =>
    obtain ⟨node, hnode⟩ := hexists p List.mem_cons_self
    have hrest := ih fun q hq => hexists q (List.mem_cons_of_mem _ hq)
    cases node with
    | file bytes => simp [collectDocuments, documentsAt, hnode, hrest, Except.map]
    | directory => simp [collectDocuments, documentsAt, hnode, hrest, Except.map]

/-- A run that completes can lint its documents. -/
theorem canLint_of_exit (h : w.Knows) {json : Bool} {code : Nat}
    (hcollect : collectDocuments w.fs w.settings paths = .ok documents)
    (hexit : (runLint w paths json).exit = .ok code) : canLint w documents = true := by
  have hreport := lintDocuments_eq h {} documents
  by_contra hnot
  rw [if_neg hnot] at hreport
  cases hrun : lintDocuments w {} documents with
  | mk result effects =>
    rw [hrun] at hreport
    cases result with
    | error e =>
      rw [runLint, hcollect] at hexit
      simp only [hrun] at hexit
      cases hexit
    | ok report => cases hreport

/-- A run shows lines, and behind them the report on its documents. -/
theorem exists_runLint (h : w.Knows) (json : Bool) (hcollect : collectDocuments w.fs w.settings paths = .ok documents)
    (hlint : canLint w documents = true) :
    ∃ effects : Effects, (∀ out ∈ effects.shown, ∃ text, out = .line text) ∧
      runLint w paths json = exitWith (if (reportAlone w {} documents).rows = [] then 0 else 1)
        (effects ++ showReport json (reportAlone w {} documents)) := by
  have hreport := lintDocuments_eq h {} documents
  rw [if_pos hlint] at hreport
  cases hrun : lintDocuments w {} documents with
  | mk result effects =>
    rw [hrun] at hreport
    cases result with
    | error e => cases hreport
    | ok report =>
      obtain rfl := Option.some.inj hreport
      refine ⟨effects, fun out hout => exists_line_of_mem_lintDocuments w {} documents ?_, ?_⟩
      · rw [hrun]
        exact hout
      · rw [runLint, hcollect]
        simp only [hrun]

/-- What a run exits with, and what it shows of a report. -/
structure Tells (r : CommandResult) (json : Bool) (report : LintReport) : Prop where
  exit : r.exit = .ok (if report.rows = [] then 0 else 1)
  tableRows : r.tableRows = if json then [] else report.rows
  reported : r.reported = if json then report.documents else []

namespace Tells

variable {r : CommandResult}

/-- The exit code is one if there is a row. -/
theorem exit_one_iff {json : Bool} (h : Tells r json report) : r.exit = .ok 1 ↔ report.rows ≠ [] := by
  rw [h.exit]
  by_cases hnone : report.rows = [] <;> simp [hnone]

theorem rows_eq (h : Tells r false report) : r.tableRows = report.rows := h.tableRows

theorem documents_eq (h : Tells r true report) : r.reported = report.documents := h.reported

end Tells

/-- A report tells of itself behind any lines. -/
theorem tells_exitWith {effects : Effects} (hlines : ∀ out ∈ effects.shown, ∃ text, out = .line text) (json : Bool)
    (report : LintReport) :
    Tells (exitWith (if report.rows = [] then 0 else 1) (effects ++ showReport json report)) json report := by
  have hnone : ∀ {α : Type} (f : Output → List α), (∀ text, f (.line text) = []) →
      (effects ++ showReport json report).shown.flatMap f = (showReport json report).shown.flatMap f := by
    intro α f hf
    have hfirst : effects.shown.flatMap f = [] := List.flatMap_eq_nil_iff.2 fun out hout => by
      obtain ⟨text, rfl⟩ := hlines out hout
      exact hf text
    change (effects.shown ++ (showReport json report).shown).flatMap f = _
    rw [List.flatMap_append, hfirst, List.nil_append]
  refine ⟨rfl, (hnone _ fun _ => rfl).trans ?_, (hnone _ fun _ => rfl).trans ?_⟩
  · cases json with
    | true => rfl
    | false =>
      by_cases hrows : report.rows = []
      · simp [showReport, hrows, Effects.say, Effects.display]
      · simp [showReport, hrows, Output.tableWithCount]
  · cases json with
    | true => simp [showReport, Effects.display]
    | false =>
      by_cases hrows : report.rows = []
      · simp [showReport, hrows, Effects.say, Effects.display]
      · simp [showReport, hrows, Output.tableWithCount]

/-- A run tells of the report on its documents. -/
theorem tells_runLint (h : w.Knows) (json : Bool) (hcollect : collectDocuments w.fs w.settings paths = .ok documents)
    (hlint : canLint w documents = true) : Tells (runLint w paths json) json (reportAlone w {} documents) := by
  obtain ⟨effects, hlines, hrun⟩ := exists_runLint h json hcollect hlint
  rw [hrun]
  exact tells_exitWith hlines json _

/-! ## Many arguments -/

variable {m : Machine} {root : Option FilePath} {marker : Option String}

/-- A workspace that was opened works on the disk of the machine, and remembers nothing yet. -/
theorem of_openWorkspace (hopen : openWorkspace m root marker = .ok w) : m.disk = w.fs ∧ w.Knows := by
  unfold openWorkspace at hopen
  simp only at hopen
  split at hopen
  · obtain rfl := Except.ok.inj hopen
    exact ⟨rfl, Workspace.knows_new _ _ _⟩
  · split at hopen <;> cases hopen

/-- The documents that the arguments of a run stand for. -/
def documentsOf (w : Workspace Disk) (paths : List FilePath) : List FilePath :=
  paths.flatMap (documentsAt w.fs w.settings)

/-- The command lints its paths in the workspace that is opened for it. -/
theorem run_lint (hopen : openWorkspace m root marker = .ok w) (paths : List FilePath) (json : Bool) :
    (lint paths root marker json).run m = runLint w paths json := by
  rw [run, hopen]
  rfl

/-- What a run over many arguments has in common with the runs over each of them, where `w` is the workspace that all of
them open. -/
structure LintsEach (m : Machine) (root : Option FilePath) (marker : Option String) (w : Workspace Disk)
    (paths : List FilePath) : Prop where
  /-- The rows are those of the single runs, one run after the other. -/
  rows : ((lint paths root marker false).run m).tableRows =
    paths.flatMap fun p => ((lint [p] root marker false).run m).tableRows
  /-- A document is reported with the diagnostics with which a single run reports it. -/
  report : ∀ document, document ∈ ((lint paths root marker true).run m).reported ↔
    ∃ p ∈ paths, document ∈ ((lint [p] root marker true).run m).reported
  /-- No document is reported twice. -/
  apart : (((lint paths root marker true).run m).reported.map (·.1)).Nodup
  /-- There is something to report if there is in one of the single runs. -/
  exit_one : ∀ json, (∃ p ∈ paths, ((lint [p] root marker json).run m).exit = .ok 1) →
    ((lint paths root marker json).run m).exit = .ok 1
  /-- There is nothing to report if there is in none of them. -/
  exit_zero : ∀ json, (∀ p ∈ paths, ((lint [p] root marker json).run m).exit ≠ .ok 1) →
    ((lint paths root marker json).run m).exit = .ok 0
  /-- Only documents that can be read count, each with the rows that it has alone. -/
  skipped : ∃ documents, collectDocuments m.disk w.settings paths = .ok documents ∧
    ((lint paths root marker false).run m).tableRows = (documents.filter (isReadable m.disk)).flatMap (rowsAlone w) ∧
    ∀ json, ((lint paths root marker json).run m).exit =
      .ok (if (documents.filter (isReadable m.disk)).flatMap (rowsAlone w) = [] then 0 else 1)
  /-- What a document has alone depends on no text but its own. -/
  own : ∀ disk document, (∀ p, disk.pathExists p = m.disk.pathExists p) →
    Document.load disk document.toString none = Document.load m.disk document.toString none →
    rowsAlone { w with fs := disk } document = rowsAlone w document

/-- Documents that cannot be read add nothing to the rows. -/
theorem flatMap_filter_isReadable (w : Workspace Disk) (documents : List FilePath) :
    (documents.filter (isReadable w.fs)).flatMap (rowsAlone w) = documents.flatMap (rowsAlone w) := by
  induction documents with
  | nil => rfl
  | cons p ps ih =>
    rw [List.filter_cons, List.flatMap_cons]
    split
    · rw [List.flatMap_cons, ih]
    · rename_i hnot
      rw [ih, rowsAlone_of_not_isReadable (Bool.eq_false_iff.2 hnot), List.nil_append]

/-- What a run tells is the report on the documents that its arguments stand for, if all of them can be linted. -/
theorem tells_lint (hopen : openWorkspace m root marker = .ok w)
    (hexists : ∀ p ∈ paths, ∃ node, w.fs.lookUp p.toString = .ok (some node))
    (hlint : canLint w (documentsOf w paths) = true)
    (json : Bool) : Tells ((lint paths root marker json).run m) json (reportAlone w {} (documentsOf w paths)) := by
  rw [run_lint hopen]
  exact tells_runLint (of_openWorkspace hopen).2 json (collectDocuments_eq w.settings hexists) hlint

/-- The documents of a run that completes can be linted. -/
theorem canLint_of_run {code : Nat} {json : Bool} (hopen : openWorkspace m root marker = .ok w)
    (hexists : ∀ p ∈ paths, ∃ node, w.fs.lookUp p.toString = .ok (some node))
    (hexit : ((lint paths root marker json).run m).exit = .ok code) : canLint w (documentsOf w paths) = true := by
  rw [run_lint hopen] at hexit
  exact canLint_of_exit (of_openWorkspace hopen).2 (collectDocuments_eq w.settings hexists) hexit

/-- The documents of all arguments can be linted if those of each of them can. -/
theorem canLint_documentsOf (h : ∀ p ∈ paths, canLint w (documentsOf w [p]) = true) :
    canLint w (documentsOf w paths) = true := by
  rw [canLint, documentsOf, List.all_flatMap, List.all_eq_true]
  intro p hp
  have hone := h p hp
  rwa [documentsOf, List.flatMap_singleton] at hone

/-- The rows for several paths are those for each of them, one path after the other. -/
theorem rows_documentsOf (w : Workspace Disk) (paths : List FilePath) :
    (reportAlone w {} (documentsOf w paths)).rows = paths.flatMap fun p =>
      (reportAlone w {} (documentsOf w [p])).rows := by
  simp only [rows_reportAlone, documentsOf, List.flatMap_singleton, List.flatMap_assoc]

/-- What is reported for several paths is what is reported for one of them. -/
theorem mem_documentsOf_iff {document : String × List Diagnostic} :
    document ∈ (reportAlone w {} (documentsOf w paths)).documents ↔
      ∃ p ∈ paths, document ∈ (reportAlone w {} (documentsOf w [p])).documents := by
  obtain ⟨name, diagnostics⟩ := document
  simp only [mem_reportAlone_iff, documentsOf, List.flatMap_singleton, List.mem_flatMap]
  constructor
  · rintro ⟨hne, hvalue, q, ⟨p, hp, hq⟩, hname⟩
    exact ⟨p, hp, hne, hvalue, q, hq, hname⟩
  · rintro ⟨p, hp, hne, hvalue, q, hq, hname⟩
    exact ⟨hne, hvalue, q, ⟨p, hp, hq⟩, hname⟩

/-- Linting many arguments comes to what linting each of them alone comes to, where each of them leads to something and
can be linted alone. -/
theorem lint_each {json : Bool} (hopen : openWorkspace m root marker = .ok w)
    (hexists : ∀ p ∈ paths, ∃ node, m.disk.lookUp p.toString = .ok (some node))
    (hruns : ∀ p ∈ paths, ∃ code, ((lint [p] root marker json).run m).exit = .ok code) :
    LintsEach m root marker w paths := by
  have hdisk := (of_openWorkspace hopen).1
  rw [hdisk] at hexists
  have hlint : ∀ p ∈ paths, canLint w (documentsOf w [p]) = true := by
    intro p hp
    obtain ⟨code, hcode⟩ := hruns p hp
    exact canLint_of_run hopen (by simpa using hexists p hp) hcode
  have hall := tells_lint hopen hexists (canLint_documentsOf hlint)
  have hsingle : ∀ p ∈ paths, ∀ json,
    Tells ((lint [p] root marker json).run m) json (reportAlone w {} (documentsOf w [p])) :=
    fun p hp => tells_lint hopen (by simpa using hexists p hp) (hlint p hp)
  refine ⟨?_, ?_, ?_, ?_, ?_, ?_, ?_⟩
  · rw [(hall false).rows_eq, rows_documentsOf]
    exact List.flatMap_congr fun p hp => (hsingle p hp false).rows_eq.symm
  · intro document
    rw [(hall true).documents_eq, mem_documentsOf_iff]
    refine exists_congr fun p => and_congr_right fun hp => ?_
    rw [(hsingle p hp true).documents_eq]
  · rw [(hall true).documents_eq]
    exact nodup_reportAlone w _
  · rintro json ⟨p, hp, hexit⟩
    rw [(hall json).exit_one_iff, rows_documentsOf]
    exact fun hnone => (hsingle p hp json).exit_one_iff.1 hexit (List.flatMap_eq_nil_iff.1 hnone p hp)
  · intro json hnone
    rw [(hall json).exit, if_pos]
    rw [rows_documentsOf]
    exact List.flatMap_eq_nil_iff.2 fun p hp => not_not.1 (mt (hsingle p hp json).exit_one_iff.2 (hnone p hp))
  · refine ⟨documentsOf w paths, hdisk ▸ collectDocuments_eq w.settings hexists, ?_, ?_⟩
    · rw [(hall false).rows_eq, rows_reportAlone, hdisk, flatMap_filter_isReadable]
    · intro json
      rw [(hall json).exit, rows_reportAlone, hdisk, flatMap_filter_isReadable]
  · intro disk document hpaths hload
    rw [hdisk] at hpaths hload
    exact rowsAlone_of_exists hpaths hload

/-- A machine with a document that has a broken reference, and a directory with a document that is not text. -/
def shelf : Machine where
  env := {}
  disk := { nodes := [(["a.md"], .file "{* b.md *}".toUTF8.toList), (["d"], .directory),
    (["d", "c.md"], .file [0xff])] }

/-- Where no option is given and no variable set, all settings have their defaults. -/
theorem openWorkspace_shelf : openWorkspace shelf none none = .ok (.new shelf.disk {} {}) := by
  have hdebounce : Settings.debounceFrom {} = .ok none := rfl
  have hunset : ∀ name field, Settings.fieldFrom {} name field = [] := fun _ _ => rfl
  have hvalue : Settings.ofValue (.object []) = .ok {} := by
    simp [Settings.ofValue, Checked.optional, Checked.both, Value.field?, Except.map]
  have hplain : Settings.isPlainName "mkdocs.yml" = true := by decide
  unfold openWorkspace Settings.load
  simp [shelf, hdebounce, hunset, hvalue, hplain, Settings.resolvedRootDir, Except.mapError, bind,
    Except.bind, pure, Except.pure]

theorem lookUp_shelf {p : FilePath} (hp : p ∈ [⟨1, ["a.md"]⟩, ⟨1, ["d"]⟩]) :
    ∃ node, shelf.disk.lookUp p.toString = .ok (some node) := by
  rcases List.mem_pair.1 hp with rfl | rfl
  · exact ⟨.file "{* b.md *}".toUTF8.toList, by cbv⟩
  · exact ⟨.directory, by cbv⟩

/-- The first document is scanned, and the other one not even read. -/
theorem canLint_shelf {p : FilePath} (hp : p ∈ [⟨1, ["a.md"]⟩, ⟨1, ["d"]⟩]) :
    canLint (.new shelf.disk {} {}) (documentsOf (.new shelf.disk {} {}) [p]) = true := by
  rw [canLint, documentsOf, List.flatMap_singleton]
  rcases List.mem_pair.1 hp with rfl | rfl
  · have hfile : shelf.disk.lookUp (FilePath.toString ⟨1, ["a.md"]⟩) =
      .ok (some (.file "{* b.md *}".toUTF8.toList)) := by cbv
    have hload : Document.load shelf.disk (FilePath.toString ⟨1, ["a.md"]⟩) none = .ok ⟨"/a.md", "{* b.md *}"⟩ := by cbv
    have hscan : Reference.scan "{* b.md *}" = .ok [⟨"b.md", none, none, ⟨0, 10⟩⟩] := by cbv
    have hdocuments : documentsAt shelf.disk {} ⟨1, ["a.md"]⟩ = [⟨1, ["a.md"]⟩] := by rw [documentsAt, hfile]
    change (documentsAt shelf.disk {} ⟨1, ["a.md"]⟩).all _ = true
    rw [hdocuments, List.all_cons, List.all_nil, Bool.and_true, isSome_alone_iff]
    intro d hd
    obtain rfl := Except.ok.inj (hload.symm.trans hd)
    exact ⟨⟨none, rfl⟩, _, hscan⟩
  · have hdirectory : shelf.disk.lookUp (FilePath.toString ⟨1, ["d"]⟩) = .ok (some .directory) := by cbv
    have hbelow : shelf.disk.filePathsBelow ⟨1, ["d"]⟩ = [⟨1, ["d", "c.md"]⟩] := by cbv
    have hload : (Document.load shelf.disk (FilePath.toString ⟨1, ["d", "c.md"]⟩) none).toOption = none := by cbv
    have hdocuments : documentsAt shelf.disk {} ⟨1, ["d"]⟩ = [⟨1, ["d", "c.md"]⟩] := by
      rw [documentsAt, hdirectory]
      simp only [hbelow]
      rfl
    change (documentsAt shelf.disk {} ⟨1, ["d"]⟩).all _ = true
    rw [hdocuments, List.all_cons, List.all_nil, Bool.and_true, isSome_alone_iff]
    intro d hd
    change Document.load shelf.disk _ none = _ at hd
    rw [hd] at hload
    cases hload

/-- A broken reference in one argument, and a document in the other one that is passed over. -/
theorem lint_each_shelf : LintsEach shelf none none (.new shelf.disk {} {}) [⟨1, ["a.md"]⟩, ⟨1, ["d"]⟩] := by
  have hruns : ∀ p ∈ [⟨1, ["a.md"]⟩, ⟨1, ["d"]⟩], ∃ code, ((lint [p] none none false).run shelf).exit = .ok code := by
    intro p hp
    have hexists : ∀ q ∈ [p], ∃ node, shelf.disk.lookUp q.toString = .ok (some node) :=
      List.forall_mem_singleton.2 (lookUp_shelf hp)
    exact ⟨_, (tells_lint openWorkspace_shelf hexists (canLint_shelf hp) false).exit⟩
  exact lint_each openWorkspace_shelf (fun p hp => lookUp_shelf hp) hruns

end Command

end DocRefs
