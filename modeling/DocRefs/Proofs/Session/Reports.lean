import DocRefs.Proofs.Session.Convergence
import DocRefs.Proofs.Session.Repeat

/-!
# A session shows every change once

All that a session shows comes from the documents that it visits, one after another, and from passes that find nothing
at its directory (`Session.Traced`). What is stored when a document is visited can be told from the visits before: the
diagnostics that the document had when it was read last, or none if it was found to be gone since (`Session.ledger`). A
visit that reads the document shows its diagnostics exactly if they are not those, and stores them; one that cannot read
it shows that it is skipped, and stores nothing (`Session.Reports`). So a pass that is repeated has nothing to show but
what it skips, or that there is nothing at the directory (`Session.Ran.shows_changes`).

That there is nothing at the directory is shown in every pass, however often it is repeated (`Session.shows_otherwise`).
-/

namespace DocRefs.Session

/-! ## Visits -/

/-- What a session does when it lints again: it visits a document, as the session is then, or it finds nothing at its
directory. -/
inductive Visit
  | document (s : Session) (path : FilePath)
  | nowhere (directory : FilePath)

/-- What is shown of a visit. -/
def Visit.shown : Visit → List Output
  | document s path => (s.lintOne path).effects.shown
  | nowhere directory => [.line (notFoundNotice directory)]

/-- What a visit finds: a document that is read, with its path and its diagnostics, or nothing at all; or it fails, or
finds something that cannot be read. -/
inductive Finding
  | read (key : String) (diagnostics : List Diagnostic)
  | gone
  | other

/-- What a visit of a document finds. -/
def finding (s : Session) (path : FilePath) : Finding :=
  match s.workspace.fs.lookUp path.toString with
  | .ok none => .gone
  | _ =>
    match s.readable? path with
    | none => .other
    | some d =>
      match s.workspace.lint d with
      | .ok a => .read d.path a.value
      | .error _ => .other

/-- What is stored under each path after a visit, as far as the visit tells: the diagnostics of a document that is read,
and nothing of one that is gone. -/
def Visit.record (stored : String → Option (List Diagnostic)) : Visit → String → Option (List Diagnostic)
  | document s path =>
    match s.finding path with
    | .read key diagnostics => fun other => if other = key then some diagnostics else stored other
    | .gone => fun other => if other = s.workspace.absolute path.toString then none else stored other
    | .other => stored
  | nowhere _ => stored

/-- What is stored under each path after visits, the first one first, that began with nothing stored. -/
def ledger (visits : List Visit) : String → Option (List Diagnostic) :=
  visits.foldl Visit.record fun _ => none

/-- Visits documents in order, up to the first failure. -/
def visitEach (s : Session) : List FilePath → List Visit
  | [] => []
  | p :: ps =>
    .document s p :: match (s.lintOne p).result with
      | .error _ => []
      | .ok () => visitEach (s.lintOne p).session ps

/-- Visits what an event names. -/
def visitRelint (s : Session) : Relint → List Visit
  | .one path => [.document s path]
  | .all =>
    match collectDocuments s.workspace.fs s.workspace.settings [s.directory] with
    | .ok paths => s.visitEach paths
    | .error (.nothingAt directory) => [.nowhere directory]
    | .error (.file _) => []

/-- Visits what the debouncer lets through, in order. -/
def visitAll (s : Session) : List (Emission String Relint) → List Visit
  | [] => []
  | .failed _ :: rest => visitAll s rest
  | .effect target :: rest => s.visitRelint target ++ visitAll (s.carryOut target).1 rest

/-- Every document is visited while what is stored is what the visits before it tell. -/
def Met (stored : String → Option (List Diagnostic)) : List Visit → Prop
  | [] => True
  | .document s path :: visits =>
    s.workspace.diagnostics.get? = stored ∧ Met (Visit.record stored (.document s path)) visits
  | .nowhere _ :: visits => Met stored visits

/-- Visits one after the other are met if both are, the later ones with what the earlier ones leave. -/
theorem met_append (stored : String → Option (List Diagnostic)) (visits more : List Visit) :
    Met stored (visits ++ more) ↔ Met stored visits ∧ Met (visits.foldl Visit.record stored) more := by
  induction visits generalizing stored with
  | nil => exact (and_iff_right trivial).symm
  | cons v visits ih =>
    cases v with
    | document s path =>
      rw [List.cons_append, Met, Met, ih, and_assoc, List.foldl_cons]
    | nowhere directory => exact ih stored

variable {s s' s'' : Session} {path : FilePath} {visits more : List Visit} {shown shown' : List Output}

/-- Some visits lead from one session to another over the same disk. They account for what is shown on the way, and for
what is stored then and at every visit. -/
structure Traced (s : Session) (visits : List Visit) (shown : List Output) (s' : Session) : Prop where
  site : SameSite s s'
  keys : s.workspace.diagnostics.keys.Nodup → s'.workspace.diagnostics.keys.Nodup
  stored : s'.workspace.diagnostics.get? = visits.foldl Visit.record s.workspace.diagnostics.get?
  met : Met s.workspace.diagnostics.get? visits
  sited : ∀ v p, .document v p ∈ visits → SameSite s v
  shown : shown = visits.flatMap Visit.shown

theorem Traced.rfl : Traced s [] [] s :=
  ⟨.rfl, id, Eq.refl _, trivial, by simp, Eq.refl _⟩

/-- Visits go on from where others led. -/
theorem Traced.trans (h : Traced s visits shown s') (h' : Traced s' more shown' s'') :
    Traced s (visits ++ more) (shown ++ shown') s'' := by
  refine ⟨h.site.trans h'.site, h'.keys ∘ h.keys, ?_, ?_, ?_, ?_⟩
  · rw [h'.stored, h.stored, List.foldl_append]
  · rw [met_append, ← h.stored]
    exact ⟨h.met, h'.met⟩
  · intro v p hv
    rcases List.mem_append.1 hv with hv | hv
    · exact h.sited v p hv
    · exact h.site.trans (h'.sited v p hv)
  · rw [h.shown, h'.shown, List.flatMap_append]

/-- A document that is read and linted is found with its diagnostics. -/
theorem finding_of_read {d : Document} {a : Answer Disk (List Diagnostic)} (hread : s.readable? path = some d)
    (hlint : s.workspace.lint d = .ok a) : s.finding path = .read d.path a.value := by
  obtain ⟨⟨node, hlook⟩, -⟩ := readable?_eq_some_iff.1 hread
  simp [finding, hlook, hread, hlint]

/-- Where nothing is, the document is found to be gone. -/
theorem finding_of_gone (hlook : s.workspace.fs.lookUp path.toString = .ok none) : s.finding path = .gone := by
  rw [finding, hlook]

/-- A lint of one document stores what its visit tells. -/
theorem record_document (s : Session) (path : FilePath) :
    (s.lintOne path).session.workspace.diagnostics.get? =
      Visit.record s.workspace.diagnostics.get? (.document s path) := by
  unfold Visit.record
  rcases s.lintOne_eq path with ⟨e, hlook, hs⟩ | ⟨hlook, hs⟩ | ⟨node, e, hlook, hload, hs⟩ | ⟨d, e, hread, hlint, hs⟩ |
    ⟨d, a, hread, hlint, hs⟩
  · have hother : s.finding path = .other := by simp [finding, readable?, hlook]
    rw [hs]
    simp only [hother]
  · rw [hs]
    simp only [finding_of_gone hlook]
    funext other
    exact Assoc.get?_erase _ _ _
  · have hother : s.finding path = .other := by simp [finding, readable?, hlook, hload, Except.toOption]
    rw [hs]
    simp only [hother]
  · obtain ⟨⟨node, hlook⟩, -⟩ := readable?_eq_some_iff.1 hread
    have hother : s.finding path = .other := by simp [finding, hlook, hread, hlint]
    rw [hs]
    simp only [hother]
  · rw [hs]
    simp only [finding_of_read hread hlint]
    funext other
    rw [(Workspace.lint_eq hlint).2.diagnostics, Assoc.get?_insert]

/-- A lint of one document is one visit. -/
theorem traced_lintOne (s : Session) (path : FilePath) :
    Traced s [.document s path] (s.lintOne path).effects.shown (s.lintOne path).session := by
  refine ⟨(s.sameSite_lintOne path).1, fun hkeys => nodup_keys_lintOne hkeys path,
    s.record_document path, ⟨rfl, trivial⟩, ?_, ?_⟩
  · intro v p hv
    obtain ⟨rfl, rfl⟩ := Visit.document.inj (List.mem_singleton.1 hv)
    exact .rfl
  · exact (List.flatMap_singleton _ _).symm

/-- A lint of several documents visits them in order, up to the first failure. -/
theorem traced_lintEach (s : Session) (paths : List FilePath) :
    Traced s (s.visitEach paths) (s.lintEach paths).effects.shown (s.lintEach paths).session := by
  induction paths generalizing s with
  | nil => exact .rfl
  | cons p paths ih =>
    have hfirst := s.traced_lintOne p
    cases hresult : (s.lintOne p).result with
    | error stop =>
      rw [lintEach_cons_error hresult, visitEach, hresult]
      exact hfirst
    | ok _ =>
      rw [(lintEach_cons_ok hresult paths).1, (lintEach_cons_ok hresult paths).2, visitEach, hresult]
      exact hfirst.trans (ih _)

/-- What an event names is visited. -/
theorem traced_relint (s : Session) (target : Relint) :
    Traced s (s.visitRelint target) (s.relint target).effects.shown (s.relint target).session := by
  cases target with
  | one path => exact s.traced_lintOne path
  | all =>
    unfold relint visitRelint
    rcases s.lintAll_cases with ⟨paths, hcollected, hsession, hshown⟩ | ⟨hcollected, -, hsession, hshown⟩ |
      ⟨e, hcollected, hsession, hshown⟩
    · simp only [hcollected, hsession, hshown]
      exact s.traced_lintEach paths
    · simp only [hcollected, hsession, hshown]
      exact ⟨.rfl, id, rfl, trivial, by simp, rfl⟩
    · simp only [hcollected, hsession, hshown]
      exact .rfl

/-- What is reported besides is not shown. -/
theorem carryOut_shown (s : Session) (target : Relint) :
    (s.carryOut target).2.shown = (s.relint target).effects.shown := by
  unfold carryOut
  dsimp only
  split
  · exact List.append_nil (s.relint target).effects.shown
  · exact List.append_nil (s.relint target).effects.shown

/-- What is carried out is visited. -/
theorem traced_carryOutAll (s : Session) (out : List (Emission String Relint)) :
    Traced s (s.visitAll out) (s.carryOutAll out).2.shown (s.carryOutAll out).1 := by
  induction out generalizing s with
  | nil => exact .rfl
  | cons x out ih =>
    cases x with
    | failed key => exact ih s
    | effect target =>
      have hfirst := s.traced_relint target
      rw [← carryOut_shown] at hfirst
      exact hfirst.trans (ih (s.carryOut target).1)

/-! ## Runs -/

/-- The sessions that a new one can come to while passes over all documents are made, the disk becomes another one, any
paths are reported and time goes by; with all that was visited and all that was shown until then. -/
inductive Ran : Session → List Visit → List Output → Prop
  | begin {disk : Disk} {env : Environment} (hdisk : disk.Proper) (hcwd : disk.cwd = env.cwd) (settings : Settings)
    {directory : FilePath} (hpath : directory.WellFormed) : Ran (new (.new disk env settings) directory) [] []
  | lintAll {s : Session} {past : List Visit} {out : List Output} (h : Ran s past out) :
    Ran s.lintAll.session (past ++ s.visitRelint .all) (out ++ s.lintAll.effects.shown)
  | change {s : Session} {past : List Visit} {out : List Output} (h : Ran s past out) {disk : Disk}
      (hdisk : disk.Proper) (hcwd : disk.cwd = s.workspace.fs.cwd) : Ran (s.withDisk disk) past out
  | report {s : Session} {past : List Visit} {out : List Output} (h : Ran s past out) (paths : List FilePath) :
    Ran (s.onChange paths).1
      (past ++ ((s.takeIn paths).1.withDebouncer (s.scheduled paths).1).visitAll (s.scheduled paths).2)
      (out ++ (s.onChange paths).2.shown)
  | advance {s : Session} {past : List Visit} {out : List Output} (h : Ran s past out) (seconds : Binary64) :
    Ran (s.advance seconds).1
      (past ++ (s.withDebouncer (s.debouncer.advance seconds).1).visitAll (s.debouncer.advance seconds).2)
      (out ++ (s.advance seconds).2.shown)

/-- What visits account for in a run: all that was shown, and what is stored. Every visit was made from where the
session is. -/
structure Account (s : Session) (past : List Visit) (out : List Output) : Prop where
  grounded : s.Grounded
  stored : s.workspace.diagnostics.get? = ledger past
  met : Met (fun _ => none) past
  sited : ∀ v p, .document v p ∈ past → v.workspace.fs.cwd = v.workspace.env.cwd ∧ v.workspace.env = s.workspace.env ∧
    v.workspace.settings = s.workspace.settings
  shown : out = past.flatMap Visit.shown

variable {past : List Visit} {out : List Output}

/-- More visits are accounted for too. -/
theorem Account.traced (h : s.Account past out) (hsite : SameSite s s')
    (hstored : s'.workspace.diagnostics = s.workspace.diagnostics)
    (htraced : Traced s' visits shown s'') : s''.Account (past ++ visits) (out ++ shown) := by
  have hall := hsite.trans htraced.site
  have hbefore : s'.workspace.diagnostics.get? = ledger past := by rw [hstored, h.stored]
  refine ⟨⟨?_, ?_, ?_, ?_⟩, ?_, ?_, ?_, ?_⟩
  · rw [hall.fs]
    exact h.grounded.disk
  · rw [hall.fs, hall.env]
    exact h.grounded.cwd
  · rw [hall.directory]
    exact h.grounded.directory
  · exact htraced.keys (hstored ▸ h.grounded.keys)
  · rw [htraced.stored, hbefore, ledger, ledger, List.foldl_append]
  · have hmet := htraced.met
    rw [hbefore] at hmet
    rw [met_append]
    exact ⟨h.met, hmet⟩
  · intro v p hv
    rw [hall.env, hall.settings]
    rcases List.mem_append.1 hv with hv | hv
    · exact h.sited v p hv
    · have hv := hsite.trans (htraced.sited v p hv)
      rw [hv.fs, hv.env, hv.settings]
      exact ⟨h.grounded.cwd, rfl, rfl⟩
  · rw [h.shown, htraced.shown, List.flatMap_append]

/-- A report that is taken in leaves the site as it is. -/
theorem sameSite_told (s : Session) (paths : List FilePath) :
    SameSite s ((s.takeIn paths).1.withDebouncer (s.scheduled paths).1) := ⟨rfl, rfl, rfl, rfl⟩

/-- Every run is accounted for. -/
theorem Ran.account (h : Ran s past out) : s.Account past out := by
  induction h with
  | begin hdisk hcwd settings hpath =>
    exact ⟨⟨hdisk, hcwd, hpath, List.nodup_nil⟩, rfl, trivial, by simp, rfl⟩
  | @lintAll s past out _ ih => exact ih.traced .rfl rfl (s.traced_relint .all)
  | change _ hdisk hcwd ih =>
    exact ⟨⟨hdisk, hcwd.trans ih.grounded.cwd, ih.grounded.directory, ih.grounded.keys⟩, ih.stored,
      ih.met, ih.sited, ih.shown⟩
  | @report s past out _ paths ih => exact ih.traced (s.sameSite_told paths) rfl (traced_carryOutAll _ _)
  | @advance s past out _ seconds ih =>
    have hsite : SameSite s (s.withDebouncer (s.debouncer.advance seconds).1) := ⟨rfl, rfl, rfl, rfl⟩
    exact ih.traced hsite rfl (traced_carryOutAll _ _)

/-! ## What a visit shows -/

/-- What a visit of a document shows and stores, where something may be stored under each path before. -/
structure Reports (s : Session) (path : FilePath) (stored : String → Option (List Diagnostic)) : Prop where
  /-- That is what is stored when the document is visited. -/
  before : ∀ key, s.workspace.diagnostics.get? key = stored key
  /-- A document that is read has diagnostics. They are shown exactly if they are not the stored ones, none being stored
  counting as no diagnostics: one line for each, in order, or one line that there are none. Then they are stored. -/
  read : ∀ d, s.readable? path = some d → (∃ o, s.workspace.rootOverride = .ok o) →
    d.path = s.workspace.absolute path.toString ∧ ∃ a, s.workspace.lint d = .ok a ∧
    ((s.lintOne path).effects.shown ≠ [] ↔ a.value ≠ (stored d.path).getD []) ∧
    (a.value ≠ (stored d.path).getD [] → (s.lintOne path).effects.shown =
      if a.value = [] then [.line s!"[green]{path.toString}: references OK[/green]"]
      else a.value.map fun x =>
        .line s!"[red]{path.toString}:{x.range.start.line + 1}:{x.range.start.character + 1}[/red] {x.message}") ∧
    ∀ key, (s.lintOne path).session.workspace.diagnostics.get? key = if key = d.path then some a.value else stored key
  /-- Unless the root that is set cannot be made out, which ends the visit. -/
  rootless : ∀ d e, s.readable? path = some d → s.workspace.rootOverride = .error e →
    s.lintOne path = ⟨s, {}, .error (.failed (.noHome e))⟩
  /-- Of something that cannot be read it is shown that it is skipped, and everything stays as it is. -/
  skipped : ∀ node e, s.workspace.fs.lookUp path.toString = .ok (some node) →
    Document.load s.workspace.fs path.toString none = .error e → s.lintOne path = ⟨s, .say (skipNotice path e), .ok ()⟩
  /-- If nothing is there nothing is shown, and nothing stays stored. -/
  gone : s.workspace.fs.lookUp path.toString = .ok none → (s.lintOne path).effects.shown = [] ∧
    ∀ key, (s.lintOne path).session.workspace.diagnostics.get? key =
      if key = s.workspace.absolute path.toString then none else stored key
  /-- A path that cannot be looked up ends the visit. -/
  unseen : ∀ e, s.workspace.fs.lookUp path.toString = .error e → s.lintOne path = ⟨s, {}, .error (.file e)⟩

/-- The lines for diagnostics that take the place of others. -/
theorem changeLines_spec (path : FilePath) (previous diagnostics : List Diagnostic) :
    (changeLines path previous diagnostics ≠ [] ↔ diagnostics ≠ previous) ∧
      (diagnostics ≠ previous → (changeLines path previous diagnostics).map Output.line =
        if diagnostics = [] then [.line s!"[green]{path.toString}: references OK[/green]"]
        else diagnostics.map fun x =>
          .line s!"[red]{path.toString}:{x.range.start.line + 1}:{x.range.start.character + 1}[/red] {x.message}") := by
  unfold changeLines
  by_cases hsame : diagnostics = previous
  · rw [if_pos hsame]
    exact ⟨by simp [hsame], fun hnot => absurd hsame hnot⟩
  · rw [if_neg hsame]
    by_cases hnone : diagnostics = []
    · rw [if_pos hnone, if_pos hnone]
      exact ⟨by simp [hsame], fun _ => rfl⟩
    · rw [if_neg hnone, if_neg hnone, diagnosticLines, List.map_map]
      exact ⟨by simp [hnone, hsame], fun _ => rfl⟩

/-- What is shown of a document that is linted. -/
theorem shown_of_lint {d : Document} {a : Answer Disk (List Diagnostic)} (hread : s.readable? path = some d)
    (hlint : s.workspace.lint d = .ok a) :
    (s.lintOne path).effects.shown = (changeLines path (s.workspace.diagnosticsOf d.path) a.value).map .line := by
  obtain ⟨⟨node, hlook⟩, hload⟩ := readable?_eq_some_iff.1 hread
  simp [lintOne, hlook, hload, hlint]

/-- Where the root that is set cannot be made out a document that is read is not linted. -/
theorem lintOne_of_rootless {d : Document} {e : FilePath.NoHome} (hread : s.readable? path = some d)
    (hrootless : s.workspace.rootOverride = .error e) : s.lintOne path = ⟨s, {}, .error (.failed (.noHome e))⟩ := by
  obtain ⟨⟨node, hlook⟩, hload⟩ := readable?_eq_some_iff.1 hread
  have hlint : s.workspace.lint d = .error (.noHome e) := by
    rw [Workspace.lint, Workspace.resolve, hrootless]
    rfl
  simp [lintOne, hlook, hload, hlint]

/-- A visit shows and stores what is to be shown and stored, as long as the text of the document can be scanned. -/
theorem reports_of_stored (hcwd : s.workspace.fs.cwd = s.workspace.env.cwd) {stored : String → Option (List Diagnostic)}
    (hstored : s.workspace.diagnostics.get? = stored)
    (hscan : ∀ d, s.readable? path = some d → ∃ refs, Reference.scan d.text = .ok refs) : s.Reports path stored := by
  have hrecord := s.record_document path
  unfold Visit.record at hrecord
  refine ⟨fun key => congrFun hstored key, ?_, ?_, ?_, ?_, ?_⟩
  · intro d hread hoverride
    obtain ⟨a, ha⟩ := Workspace.lint_isOk_iff.2 (Workspace.resolve_isOk_iff.2 ⟨hoverride, hscan d hread⟩)
    obtain ⟨hchanged, hlines⟩ := changeLines_spec path (s.workspace.diagnosticsOf d.path) a.value
    rw [Workspace.diagnosticsOf, hstored] at hchanged hlines
    simp only [finding_of_read hread ha, hstored] at hrecord
    refine ⟨(of_readable?_eq_some hcwd hread).1, a, ha, ?_, ?_, fun key => congrFun hrecord key⟩
    · rw [shown_of_lint hread ha, Workspace.diagnosticsOf, hstored, ne_eq, List.map_eq_nil_iff]
      exact hchanged
    · intro hne
      rw [shown_of_lint hread ha, Workspace.diagnosticsOf, hstored]
      exact hlines hne
  · intro d e hread hrootless
    exact lintOne_of_rootless hread hrootless
  · intro node e hlook hload
    simp [lintOne, hlook, hload]
  · intro hlook
    simp only [finding_of_gone hlook, hstored] at hrecord
    exact ⟨by simp [lintOne, hlook], fun key => congrFun hrecord key⟩
  · intro e hlook
    simp [lintOne, hlook]

/-- All that a session shows comes from its visits, one after another, and what is stored can be told from them. A visit
of a document shows its diagnostics exactly if they are not those that the visits before left there. So a pass that is
repeated at once stores nothing new, and shows nothing but that documents are skipped, or that there is nothing at the
directory. -/
theorem Ran.shows_changes (h : Ran s past out)
    (hscan : ∀ v path, .document v path ∈ past → ∀ d, v.readable? path = some d →
      ∃ refs, Reference.scan d.text = .ok refs) :
    out = past.flatMap Visit.shown ∧ (∀ key, s.workspace.diagnostics.get? key = ledger past key) ∧
      (∀ before v path after, past = before ++ .document v path :: after → v.Reports path (ledger before)) ∧
      s.lintAll.session.lintAll.session.workspace.diagnostics = s.lintAll.session.workspace.diagnostics ∧
      ∀ shown ∈ s.lintAll.session.lintAll.effects.shown, Skips s.workspace.fs shown ∨
        s.workspace.fs.lookUp s.directory.toString = .ok none ∧ shown = .line (notFoundNotice s.directory) := by
  have haccount := h.account
  obtain ⟨hresumes, hshown⟩ := haccount.grounded.lintAll_again
  refine ⟨haccount.shown, fun key => congrFun haccount.stored key, ?_, hresumes.diagnostics, hshown⟩
  rintro before v path after rfl
  have hvisit : Visit.document v path ∈ before ++ .document v path :: after :=
    List.mem_append_right before List.mem_cons_self
  obtain ⟨hstored, -⟩ := ((met_append _ before (.document v path :: after)).1 haccount.met).2
  exact reports_of_stored (haccount.sited v path hvisit).1 hstored (hscan v path hvisit)

/-- The first pass over the one document visits it. -/
theorem visitRelint_begun : begun.visitRelint .all = [.document begun ⟨1, ["a.md"]⟩] := by
  obtain ⟨a, ha⟩ := exists_lint_referring (w := begun.workspace) rfl rfl
  obtain ⟨-, hresult⟩ := lintOne_of_lint readable_begun ha
  have hcollected : collectDocuments begun.workspace.fs begun.workspace.settings
    [begun.directory] = .ok [⟨1, ["a.md"]⟩] :=
    collectDocuments_lonely
  simp only [visitRelint, hcollected, visitEach, hresult]

/-- The one document refers to another one that is not there, which the first pass shows. -/
theorem Ran.shows_changes_begun :
    Ran begun.lintAll.session (begun.visitRelint .all) begun.lintAll.effects.shown ∧
      (∀ v path, .document v path ∈ begun.visitRelint .all →
        ∀ d, v.readable? path = some d → ∃ refs, Reference.scan d.text = .ok refs) ∧
      begun.lintAll.effects.shown ≠ [] ∧
      begun.lintAll.session.lintAll.session.lintAll.session.workspace.diagnostics =
        begun.lintAll.session.lintAll.session.workspace.diagnostics := by
  have hran : Ran begun.lintAll.session (begun.visitRelint .all) begun.lintAll.effects.shown :=
    (Ran.begin proper_lonely rfl prompt ⟨by decide, by simp⟩).lintAll
  have hscan : ∀ v path, .document v path ∈ begun.visitRelint .all →
      ∀ d, v.readable? path = some d → ∃ refs, Reference.scan d.text = .ok refs := by
    intro v path hv d hd
    rw [visitRelint_begun] at hv
    obtain ⟨rfl, rfl⟩ := Visit.document.inj (List.mem_singleton.1 hv)
    obtain rfl := Option.some.inj (readable_begun.symm.trans hd)
    exact ⟨_, scan_referring⟩
  obtain ⟨hshown, -, hreports, hsame, -⟩ := Ran.shows_changes hran hscan
  refine ⟨hran, hscan, ?_, hsame⟩
  obtain ⟨-, a, ha, hchanged, -⟩ := (hreports [] begun ⟨1, ["a.md"]⟩ [] visitRelint_begun).read _
    readable_begun ⟨none, rfl⟩
  obtain ⟨⟨refs, hrefs, hvalue⟩, -⟩ := Workspace.lint_eq ha
  obtain rfl := Except.ok.inj (scan_referring.symm.trans hrefs)
  rw [List.map_singleton, sees_begun] at hvalue
  rw [hshown, visitRelint_begun, List.flatMap_singleton]
  refine hchanged.2 ?_
  rw [hvalue]
  exact List.cons_ne_nil _ _

/-! ## What is shown besides -/

/-- A pass over a directory at which there is nothing shows just that, and changes nothing. -/
theorem lintAll_of_nothing (hnone : s.workspace.fs.lookUp s.directory.toString = .ok none) :
    s.lintAll = ⟨s, .say (notFoundNotice s.directory), .error (.exit 2)⟩ := by
  have hcollected : collectDocuments s.workspace.fs s.workspace.settings [s.directory] =
      .error (.nothingAt s.directory) := by
    simp [collectDocuments, hnone]
  simp [lintAll, documents, hcollected]

/-- That there is nothing at a path is no notice that a document is skipped. -/
theorem not_skips_notFoundNotice (disk : Disk) (path : FilePath) : ¬ Skips disk (.line (notFoundNotice path)) := by
  rintro ⟨p, e, -, h⟩
  -- The second characters of the two lines differ.
  have hchars := congrArg (fun line : String => line.toList[1]?) (Output.line.inj h)
  unfold notFoundNotice skipNotice at hchars
  simp only [String.toList_append, List.append_assoc] at hchars
  rw [List.getElem?_append_left (by decide), List.getElem?_append_left (by decide)] at hchars
  exact absurd hchars (by decide)

/-- A session whose directory is not there shows so in every pass, which is no notice that a document is skipped. -/
theorem shows_otherwise :
    ∃ s, Ran s [] [] ∧ s.lintAll.session.lintAll.effects.shown = [.line (notFoundNotice ⟨1, ["docs"]⟩)] ∧
      ∀ disk, ¬ Skips disk (.line (notFoundNotice ⟨1, ["docs"]⟩)) := by
  have hdirectory : FilePath.WellFormed ⟨1, ["docs"]⟩ := by
    refine ⟨by decide, fun c hc => ?_⟩
    rw [List.mem_singleton.1 hc]
    decide
  have hran : Ran (new (.new {} {} {}) ⟨1, ["docs"]⟩) [] [] := .begin ⟨⟨rfl, by cbv⟩, by simp⟩ rfl _ hdirectory
  refine ⟨_, hran, ?_, fun disk => not_skips_notFoundNotice disk _⟩
  have hpass := lintAll_of_nothing (s := new (.new {} {} {}) ⟨1, ["docs"]⟩) (by decide)
  rw [hpass, hpass]
  rfl

end DocRefs.Session
