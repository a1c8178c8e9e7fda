import DocRefs.Proofs.Reference.Places
import DocRefs.Proofs.Workspace.Requests
import DocRefs.Proofs.Workspace.Unchanged

/-!
# Diagnostics and links divide the references of a document

A workspace over files that nobody changes is consulted in any order, and every answer about a document is recorded
(`Workspace.Consulted`). All of these answers are about the same resolved references, and the stored diagnostics are
those of the last lint (`Workspace.Consulted.recorded`). References that begin one behind the other are put together
again by a merge of those with a target and those without (`merge_filter_filter_not`), so that a lint and the links of a
document give back each of its references once (`Workspace.Consulted.lint_links_divide`).
-/

namespace DocRefs

open FileSystem (Unchanged)

/-- Members in strict order are put together again by a merge of those with a property and those without. -/
theorem merge_filter_filter_not {α : Type} {le : α → α → Bool} {xs : List α}
    (h : xs.Pairwise fun x y => le x y = true ∧ le y x = false)
    (p : α → Bool) : (xs.filter p).merge (xs.filter (!p ·)) le = xs := by
  induction h with
  | nil => simp
  | @cons x xs hfirst _ ih =>
    -- The first member is first among those of its kind, and stands before the first of the other kind.
    cases hp : p x with
    | true =>
      rw [List.filter_cons_of_pos hp, List.filter_cons_of_neg (by simp [hp])]
      cases hothers : xs.filter (!p ·) with
      | nil =>
        rw [hothers, List.merge_right] at ih
        rw [List.merge_right, ih]
      | cons y ys =>
        have hy : y ∈ xs := List.mem_of_mem_filter (hothers ▸ List.mem_cons_self)
        rw [List.cons_merge_cons_pos _ _ _ (hfirst y hy).1, ← hothers, ih]
    | false =>
      rw [List.filter_cons_of_neg (by simp [hp]), List.filter_cons_of_pos (by simp [hp])]
      cases hothers : xs.filter p with
      | nil =>
        rw [hothers, List.nil_merge] at ih
        rw [List.nil_merge, ih]
      | cons y ys =>
        have hy : y ∈ xs := List.mem_of_mem_filter (hothers ▸ List.mem_cons_self)
        rw [List.cons_merge_cons_neg _ _ _ (Bool.not_eq_true _ ▸ (hfirst y hy).2), ← hothers, ih]

/-- What is reported about a reference: that it has no target, or where it leads. -/
inductive Report
  | missing (diagnostic : Diagnostic)
  | link (link : Link)
deriving Repr, DecidableEq

namespace Report

/-- Where a report begins. -/
def start : Report → Position
  | missing diagnostic => diagnostic.range.start
  | link l => l.range.start

/-- Whether a report begins no later than another. -/
def beginsNoLater (x y : Report) : Bool :=
  x.start.line < y.start.line || x.start.line = y.start.line && x.start.character ≤ y.start.character

/-- Whether a report is about a reference without a target. -/
def isMissing : Report → Bool
  | missing _ => true
  | link _ => false

/-- Of two reports of which one stands before the other, that one begins no later, and the other does not. -/
theorem beginsNoLater_of_before {x y : Report} (h : x.start.Before y.start) :
    x.beginsNoLater y = true ∧ y.beginsNoLater x = false := by
  unfold Position.Before at h
  simp only [beginsNoLater, Bool.or_eq_true, Bool.or_eq_false_iff, Bool.and_eq_true, Bool.and_eq_false_iff,
    decide_eq_true_eq, decide_eq_false_iff_not]
  omega

/-- The report about a reference of a document: that the path as it is written has no target, or a link to the
target. -/
def ofReference (d : Document) (r : ResolvedReference) : Report :=
  if r.present then link ⟨rangeOf d.text.toList r.span, r.span, r.absolutePath, Link.tooltipOf r.toReference⟩
  else missing ⟨rangeOf d.text.toList r.span, Diagnostic.missingFile r.filePath⟩

/-- What is reported of a reference begins where the reference begins. -/
theorem start_ofReference (d : Document) (r : ResolvedReference) :
    (ofReference d r).start = (rangeOf d.text.toList r.span).start := by
  unfold ofReference
  split <;> rfl

/-- A reference is reported missing if its target is not there. -/
theorem isMissing_ofReference (d : Document) (r : ResolvedReference) : (ofReference d r).isMissing = !r.present := by
  unfold ofReference
  cases r.present <;> rfl

/-- The diagnostics are the reports that something is missing, in order. -/
theorem missing_ofReferences (d : Document) (references : List ResolvedReference) :
    (Diagnostic.ofReferences d references).map missing = (references.map (ofReference d)).filter isMissing := by
  simp only [Diagnostic.ofReferences, List.map_map, List.filter_map, Function.comp_def, isMissing_ofReference]
  refine List.map_congr_left fun r hr => ?_
  have habsent := (List.mem_filter.1 hr).2
  rw [ofReference, if_neg (by simpa using habsent)]

/-- The links are the other reports, in order. -/
theorem link_ofReferences (d : Document) (references : List ResolvedReference) :
    (Link.ofReferences d references).map link = (references.map (ofReference d)).filter (!isMissing ·) := by
  simp only [Link.ofReferences, List.map_map, List.filter_map, Function.comp_def, isMissing_ofReference, Bool.not_not]
  refine List.map_congr_left fun r hr => ?_
  rw [ofReference, if_pos (List.mem_filter.1 hr).2]

variable {d : Document} {references : List ResolvedReference}

/-- The reports about the references of a document begin one behind the other. -/
theorem pairwise_ofReference (h : Reference.scan d.text = .ok (references.map (·.toReference))) :
    (references.map (ofReference d)).Pairwise fun x y => x.start.Before y.start := by
  rw [List.pairwise_map]
  refine (List.pairwise_map.1 (Reference.pairwise_starts h)).imp fun {r r'} hbefore => ?_
  rwa [start_ofReference, start_ofReference]

/-- Diagnostics and links, merged by where they begin, are the reports about the references. -/
theorem merge_eq (h : Reference.scan d.text = .ok (references.map (·.toReference))) :
    ((Diagnostic.ofReferences d references).map missing).merge
      ((Link.ofReferences d references).map link) beginsNoLater = references.map (ofReference d) := by
  have hstrict := (pairwise_ofReference h).imp beginsNoLater_of_before
  rw [missing_ofReferences, link_ofReferences, merge_filter_filter_not hstrict]

end Report

namespace Workspace

variable {σ : Type} [FileSystem σ] {fs : σ} {there : String → Bool} {env : Environment} {settings : Settings}
  {w : Workspace σ}

/-- An answer about a document, or that what is stored of a document, or everything, was forgotten. -/
inductive Event
  | resolved (d : Document) (references : List ResolvedReference)
  | linted (d : Document) (diagnostics : List Diagnostic)
  | linked (d : Document) (links : List Link)
  | dropped (path : String)
  | closed

/-- The diagnostics that a document was given last, where the events are listed latest first. -/
def lastLint (path : String) : List Event → List Diagnostic
  | [] => []
  | .linted d diagnostics :: earlier => if d.path = path then diagnostics else lastLint path earlier
  | .dropped other :: earlier => if other = path then [] else lastLint path earlier
  | .closed :: _ => []
  | .resolved _ _ :: earlier => lastLint path earlier
  | .linked _ _ :: earlier => lastLint path earlier

/-- The states that a workspace over files that nobody changes comes to by requests in any order, each with what
happened on the way, the latest first. Searches for roots, base directories, listings, suggestions and reports of
changes are not recorded. -/
inductive Consulted (fs : σ) (env : Environment) (settings : Settings) : Workspace σ → List Event → Prop
  | start : Consulted fs env settings (new fs env settings) []
  | resolve {w : Workspace σ} {events : List Event} (h : Consulted fs env settings w events) {d : Document}
      {a : Answer σ (List ResolvedReference)} (ha : w.resolve d = .ok a) :
      Consulted fs env settings a.workspace (.resolved d a.value :: events)
  | lint {w : Workspace σ} {events : List Event} (h : Consulted fs env settings w events) {d : Document}
      {a : Answer σ (List Diagnostic)} (ha : w.lint d = .ok a) :
      Consulted fs env settings a.workspace (.linted d a.value :: events)
  | links {w : Workspace σ} {events : List Event} (h : Consulted fs env settings w events) {d : Document}
      {a : Answer σ (List Link)}
      (ha : w.links d = .ok a) : Consulted fs env settings a.workspace (.linked d a.value :: events)
  | drop {w : Workspace σ} {events : List Event} (h : Consulted fs env settings w events) (path : String) :
      Consulted fs env settings (w.dropDiagnostics path) (.dropped path :: events)
  | close {w : Workspace σ} {events : List Event} (h : Consulted fs env settings w events) :
      Consulted fs env settings w.close (.closed :: events)
  | findRoot {w : Workspace σ} {events : List Event} (h : Consulted fs env settings w events) (start : String) :
      Consulted fs env settings (w.findRoot start).workspace events
  | baseDir {w : Workspace σ} {events : List Event} (h : Consulted fs env settings w events) {documentDir : String}
      {a : Answer σ String} (ha : w.baseDir documentDir = .ok a) : Consulted fs env settings a.workspace events
  | listing {w : Workspace σ} {events : List Event} (h : Consulted fs env settings w events) (directory : String) :
      Consulted fs env settings (w.listing directory).workspace events
  | complete {w : Workspace σ} {events : List Event} (h : Consulted fs env settings w events)
      {d : Document} {position : Position}
      {cancel : Cancellation} {a : Answer σ (Option (List Candidate))} (ha : w.complete d position cancel = .ok a) :
      Consulted fs env settings a.workspace events
  | filesChanged {w : Workspace σ} {events : List Event} (h : Consulted fs env settings w events)
      (paths : List String) : Consulted fs env settings (w.filesChanged paths).workspace events

/-- An answer is what the files and the settings determine. -/
def Event.Faithful (there : String → Bool) (env : Environment) (settings : Settings) : Event → Prop
  | .resolved d references => ResolvesTo there env settings d references
  | .linted d diagnostics =>
    ∃ resolved, ResolvesTo there env settings d resolved ∧ diagnostics = Diagnostic.ofReferences d resolved
  | .linked d links => ∃ resolved, ResolvesTo there env settings d resolved ∧ links = Link.ofReferences d resolved
  | .dropped _ => True
  | .closed => True

/-- A workspace over files that nobody changes, of which every answer was faithful and what is stored is what was
answered last. -/
structure Recorded (there : String → Bool) (env : Environment) (settings : Settings)
    (w : Workspace σ) (events : List Event) : Prop where
  steady : w.Steady there env settings
  faithful : ∀ e ∈ events, e.Faithful there env settings
  stored : ∀ path, w.diagnosticsOf path = lastLint path events

variable {events : List Event}

/-- A request that stores nothing, and whose answer is not recorded, leaves all as it was. -/
theorem Recorded.unstored (h : Recorded there env settings w events) {w' : Workspace σ}
    (hsteady : w'.Steady there env settings)
    (hsame : w'.diagnostics = w.diagnostics) : Recorded there env settings w' events := by
  refine ⟨hsteady, h.faithful, fun path => ?_⟩
  rw [diagnosticsOf, hsame]
  exact h.stored path

/-- Whatever a workspace was consulted for, all answers were faithful, and what is stored is what was answered last. -/
theorem Consulted.recorded (hfs : Unchanged fs there) (h : Consulted fs env settings w events) :
    Recorded there env settings w events := by
  induction h with
  | start => exact ⟨steady_new hfs env settings, by simp, fun _ => rfl⟩
  | resolve _ ha ih =>
    obtain ⟨hvalue, hsteady, hsame⟩ := ih.steady.resolve ha
    exact ⟨hsteady, List.forall_mem_cons.2 ⟨hvalue, ih.faithful⟩, (ih.unstored hsteady hsame).stored⟩
  | @lint w events _ d a ha ih =>
    obtain ⟨hvalue, hsteady, hstores⟩ := ih.steady.lint ha
    refine ⟨hsteady, List.forall_mem_cons.2 ⟨hvalue, ih.faithful⟩, fun path => ?_⟩
    rw [diagnosticsOf, hstores, Assoc.get?_insert, lastLint]
    by_cases hpath : path = d.path
    · rw [if_pos hpath, if_pos hpath.symm]
      rfl
    · rw [if_neg hpath, if_neg (Ne.symm hpath)]
      exact ih.stored path
  | links _ ha ih =>
    obtain ⟨hvalue, hsteady, hsame⟩ := ih.steady.links ha
    exact ⟨hsteady, List.forall_mem_cons.2 ⟨hvalue, ih.faithful⟩, (ih.unstored hsteady hsame).stored⟩
  | @drop w events _ path ih =>
    refine ⟨ih.steady.dropDiagnostics path, List.forall_mem_cons.2 ⟨trivial, ih.faithful⟩, fun other => ?_⟩
    rw [diagnosticsOf, dropDiagnostics, Assoc.get?_erase, lastLint]
    by_cases hpath : other = path
    · rw [if_pos hpath, if_pos hpath.symm]
      rfl
    · rw [if_neg hpath, if_neg (Ne.symm hpath)]
      exact ih.stored other
  | close _ ih => exact ⟨ih.steady.close, List.forall_mem_cons.2 ⟨trivial, ih.faithful⟩, fun _ => rfl⟩
  | findRoot _ start ih => exact ⟨(ih.steady.findRoot start).2, ih.faithful, ih.stored⟩
  | baseDir _ ha ih =>
    obtain ⟨hsteady, hsame⟩ := ih.steady.baseDir ha
    exact ih.unstored hsteady hsame
  | listing _ directory ih => exact ⟨ih.steady.listing directory, ih.faithful, ih.stored⟩
  | complete _ ha ih =>
    obtain ⟨hsteady, hsame⟩ := ih.steady.complete ha
    exact ih.unstored hsteady hsame
  | filesChanged _ paths ih => exact ⟨ih.steady.filesChanged paths, ih.faithful, ih.stored⟩

/-- What a document is resolved to is determined. -/
theorem ResolvesTo.eq {d : Document} {resolved : List ResolvedReference} (h : ResolvesTo there env settings d resolved)
    {override : Option String} (hoverride : settings.resolvedRootDir env = .ok override) {references : List Reference}
    (hscan : Reference.scan d.text = .ok references) :
    resolved = resolvedAmong there (baseAmong there env settings d.dirname override) references := by
  obtain ⟨override', references', hoverride', hscan', rfl⟩ := h
  obtain rfl := Except.ok.inj (hoverride.symm.trans hoverride')
  obtain rfl := Except.ok.inj (hscan.symm.trans hscan')
  rfl

/-- References that are resolved are the references themselves. -/
theorem toReference_resolvedAmong (there : String → Bool) (base : String) (references : List Reference) :
    (resolvedAmong there base references).map (·.toReference) = references := by
  rw [resolvedAmong, List.map_map]
  exact List.map_id _

/-- A resolved reference has its path from the base, and is there if something is at that path. -/
theorem of_mem_resolvedAmong {base : String} {references : List Reference} {r : ResolvedReference}
    (hr : r ∈ resolvedAmong there base references) :
    r.absolutePath = resolvePath base r.filePath ∧ r.present = there r.absolutePath := by
  obtain ⟨reference, -, rfl⟩ := List.mem_map.1 hr
  exact ⟨rfl, rfl⟩

/-- Where the root directory cannot be made out, nothing is said about a document. -/
theorem Steady.refused (h : w.Steady there env settings) {e : FilePath.NoHome}
    (he : settings.resolvedRootDir env = .error e)
    (d : Document) :
    w.resolve d = .error (.noHome e) ∧ w.lint d = .error (.noHome e) ∧ w.links d = .error (.noHome e) := by
  have hresolve : w.resolve d = .error (.noHome e) := by
    rw [Workspace.resolve, rootOverride, h.settings, h.env, he]
    rfl
  refine ⟨hresolve, ?_, ?_⟩
  · rw [Workspace.lint, hresolve]
    rfl
  · rw [Workspace.links, hresolve]
    rfl

/-- Where it can be made out, a document that is scanned is resolved, linted and has its links. -/
theorem Steady.answered (h : w.Steady there env settings) {override : Option String}
    (hoverride : settings.resolvedRootDir env = .ok override)
    {d : Document} {references : List Reference} (hscan : Reference.scan d.text = .ok references) :
    (∃ a, w.resolve d = .ok a) ∧ (∃ a, w.lint d = .ok a) ∧ ∃ a, w.links d = .ok a := by
  have hresolve : ∃ a, w.resolve d = .ok a := by
    refine resolve_isOk_iff.2 ⟨⟨override, ?_⟩, references, hscan⟩
    rw [rootOverride, h.settings, h.env, hoverride]
  exact ⟨hresolve, lint_isOk_iff.2 hresolve, links_isOk_iff.2 hresolve⟩

/-- A document that can be scanned is resolved, linted and has its links after any requests over files that nobody
changes, unless the root directory cannot be made out. It is resolved to one item for each of its references, in order
and all against one directory, at whatever time; and whenever it was linted and whenever it had its links, these merged
by where they begin are the reports about just these items, each once. What is stored of any document is what it was
given by its last lint. -/
theorem Consulted.lint_links_divide (hfs : Unchanged fs there) (h : Consulted fs env settings w events) {d : Document}
    {references : List Reference} (hscan : Reference.scan d.text = .ok references) :
    (∀ path, w.diagnosticsOf path = lastLint path events) ∧
    (∀ e, settings.resolvedRootDir env = .error e →
      w.resolve d = .error (.noHome e) ∧ w.lint d = .error (.noHome e) ∧ w.links d = .error (.noHome e)) ∧
    ∀ override, settings.resolvedRootDir env = .ok override →
      let base := baseAmong there env settings d.dirname override
      let resolved := resolvedAmong there base references
      ((∃ a, w.resolve d = .ok a) ∧ (∃ a, w.lint d = .ok a) ∧ ∃ a, w.links d = .ok a) ∧
      (resolved.map (·.toReference) = references ∧
        ∀ r ∈ resolved, r.absolutePath = resolvePath base r.filePath ∧ r.present = there r.absolutePath) ∧
      (resolved.map (Report.ofReference d)).Pairwise (fun x y => x.start.Before y.start) ∧
      (∀ answered, .resolved d answered ∈ events → answered = resolved) ∧
      ∀ diagnostics links, .linted d diagnostics ∈ events → .linked d links ∈ events →
        (diagnostics.map .missing).merge (links.map .link) Report.beginsNoLater =
          resolved.map (Report.ofReference d) := by
  have hrecorded := h.recorded hfs
  refine ⟨hrecorded.stored, fun e he => hrecorded.steady.refused he d, ?_⟩
  intro override hoverride base resolved
  have hreferences : resolved.map (·.toReference) = references := toReference_resolvedAmong _ _ _
  rw [← hreferences] at hscan
  have hresolved : ∀ found, ResolvesTo there env settings d found → found = resolved := by
    intro found hfound
    rw [hfound.eq hoverride hscan, hreferences]
  refine ⟨hrecorded.steady.answered hoverride hscan, ⟨hreferences, fun r hr => of_mem_resolvedAmong hr⟩,
    Report.pairwise_ofReference hscan, ?_, ?_⟩
  · intro answered hanswered
    exact hresolved answered (hrecorded.faithful _ hanswered)
  · intro diagnostics links hdiagnostics hlinks
    obtain ⟨found, hfound, rfl⟩ := hrecorded.faithful _ hdiagnostics
    obtain ⟨found', hfound', rfl⟩ := hrecorded.faithful _ hlinks
    rw [hresolved found hfound, hresolved found' hfound', Report.merge_eq hscan]

/-- In a project a page is linted, its root is searched for, and it has its links. Its reference without a target and
the one with a target stand in the order of the page. -/
theorem Consulted.lint_links_divide_page :
    let fs : Tree := { files := ["/p/mkdocs.yml", "/p/s/x"], directories := ["/", "/p", "/p/s"] }
    let d : Document := ⟨"/p/s/a.md", "{* y *}{* s/x *}"⟩
    ∃ (w : Workspace Tree) (diagnostics : List Diagnostic) (links : List Link),
      Consulted fs {} {} w [.linked d links, .linted d diagnostics] ∧ w.diagnosticsOf "/p/s/a.md" = diagnostics ∧
      (diagnostics.map .missing).merge (links.map .link) Report.beginsNoLater =
        [.missing ⟨⟨⟨0, 0⟩, ⟨0, 7⟩⟩, "The referenced file does not exist: y"⟩,
          .link ⟨⟨⟨0, 7⟩, ⟨0, 16⟩⟩, ⟨7, 16⟩, "/p/s/x", "Open s/x"⟩] := by
  intro fs d
  have hscan : Reference.scan d.text = .ok [⟨"y", none, none, ⟨0, 7⟩⟩, ⟨"s/x", none, none, ⟨7, 16⟩⟩] := by cbv
  have hbase : baseAmong fs.presence {} {} d.dirname none = "/p" := by
    have hdirectory : Path.absolute ({} : Environment).cwd d.dirname = "/p/s" := by cbv
    have habove : Path.ancestors "/p/s" = ["/p/s", "/p", "/"] := by cbv
    simp only [baseAmong, Path.nearestMarked, hdirectory, habove]
    cbv
  have hresolved : resolvedAmong fs.presence "/p"
      [⟨"y", none, none, ⟨0, 7⟩⟩, ⟨"s/x", none, none, ⟨7, 16⟩⟩] =
        [⟨⟨"y", none, none, ⟨0, 7⟩⟩, "/p/y", false⟩, ⟨⟨"s/x", none, none, ⟨7, 16⟩⟩, "/p/s/x", true⟩] := by cbv
  have hstart : Consulted fs {} {} (new fs {} {}) [] := .start
  obtain ⟨-, ⟨a, ha⟩, -⟩ := ((hstart.lint_links_divide fs.unchanged hscan).2.2 none rfl).1
  have hfound := (hstart.lint ha).findRoot "/p"
  obtain ⟨-, -, b, hb⟩ := ((hfound.lint_links_divide fs.unchanged hscan).2.2 none rfl).1
  have hend := hfound.links hb
  obtain ⟨hstored, -, hdivide⟩ := hend.lint_links_divide fs.unchanged hscan
  obtain ⟨-, -, -, -, hmerge⟩ := hdivide none rfl
  rw [hbase, hresolved] at hmerge
  refine ⟨_, _, _, hend, (hstored "/p/s/a.md").trans rfl, (hmerge _ _ (by simp) (by simp)).trans ?_⟩
  have hfirst : rangeOf d.text.toList ⟨0, 7⟩ = ⟨⟨0, 0⟩, ⟨0, 7⟩⟩ := by cbv
  have hsecond : rangeOf d.text.toList ⟨7, 16⟩ = ⟨⟨0, 7⟩, ⟨0, 16⟩⟩ := by cbv
  simp only [List.map_cons, List.map_nil, Report.ofReference, hfirst, hsecond]
  rfl

end Workspace

end DocRefs
