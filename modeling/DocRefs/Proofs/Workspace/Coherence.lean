import DocRefs.Proofs.Listings
import DocRefs.Proofs.Roots
import DocRefs.Workspace
import Mathlib

/-!
# What a workspace remembers is what the files say

A workspace is asked questions while the files change, and every change is reported before the next question. What is
remembered then never shows: each answer is the one that a new workspace over the present files gives
(`Workspace.Reached.answers_as_new`).

The invariant (`Workspace.Coherent`) is about the paths that came or went and were not reported yet: a remembered root
is right unless the marker is among them, a remembered listing unless one of them lies in its directory.
-/

namespace DocRefs.Workspace

/-- What is remembered is right but for what was not reported. -/
structure Coherent (w : Workspace Tree) (unreported : Set String) : Prop where
  markerName : Path.IsName w.settings.marker.toList
  marker : w.roots.marker = w.settings.marker
  clean : w.fs.AllClean
  cleanReports : ∀ p ∈ unreported, Path.Clean p
  roots : w.roots.Right w.fs.presence ∨ ∃ p ∈ unreported, Path.basename p = w.settings.marker
  listings : w.listings.Current w.fs unreported

/-- Two workspaces over the same files in the same surroundings, both with a right memory. -/
structure Twins (w w' : Workspace Tree) : Prop where
  env : w'.env = w.env
  settings : w'.settings = w.settings
  files : w.fs.Agrees w'.fs
  left : w.Coherent ∅
  right : w'.Coherent ∅

variable {w w' : Workspace Tree} {unreported : Set String}

/-- A new workspace remembers nothing wrong. -/
theorem coherent_new {t : Tree} (env : Environment) {settings : Settings} (hmarker : Path.IsName settings.marker.toList)
    (hclean : t.AllClean) : (new t env settings).Coherent ∅ :=
  ⟨hmarker, rfl, hclean, by simp, .inl (Roots.right_empty _ _), Listings.current_empty _ _⟩

/-- Every remembered root is right while everything is reported. -/
theorem Coherent.right (h : w.Coherent ∅) : w.roots.Right w.fs.presence := by
  rcases h.roots with hright | ⟨p, hp, -⟩
  · exact hright
  · exact absurd hp (Set.notMem_empty p)

/-- A workspace with a right memory is a twin of itself. -/
theorem Coherent.twins (h : w.Coherent ∅) : Twins w w := ⟨rfl, rfl, .rfl, h, h⟩

/-- What was asked and answered makes no difference to a right memory. -/
theorem Coherent.withFiles (h : w.Coherent ∅) {t : Tree} (ht : w.fs.Agrees t) :
    ({ w with fs := t } : Workspace Tree).Coherent ∅ := by
  refine ⟨h.markerName, h.marker, ?_, by simp, .inl (ht.presence_eq ▸ h.right), h.listings.agrees ht⟩
  intro p hp
  refine h.clean p ?_
  rwa [← ht.files, ← ht.directories]

/-- Twins stay twins over files that are asked. -/
theorem Twins.withFiles (h : Twins w w') {t t' : Tree} (ht : w.fs.Agrees t) (ht' : w'.fs.Agrees t') :
    Twins { w with fs := t } { w' with fs := t' } :=
  ⟨h.env, h.settings, ht.symm.trans (h.files.trans ht'), h.left.withFiles ht, h.right.withFiles ht'⟩

theorem Twins.rootOverride_eq (h : Twins w w') : w'.rootOverride = w.rootOverride := by
  rw [rootOverride, rootOverride, h.env, h.settings]

/-! ## Answers of twins -/

/-- Two answers with one value and twins after them. -/
structure Alike {α : Type} (a a' : Answer Tree α) : Prop where
  value : a'.value = a.value
  after : Twins a.workspace a'.workspace

/-- Two requests that are refused for one cause, or get answers that are alike. -/
inductive AlikeOrRefused {α : Type} : Except RequestError (Answer Tree α) → Except RequestError (Answer Tree α) → Prop
  | answered {a a' : Answer Tree α} (h : Alike a a') : AlikeOrRefused (.ok a) (.ok a')
  | refused (e : RequestError) : AlikeOrRefused (.error e) (.error e)

/-- The root that is found is the nearest directory, from the given one upwards, that the marker is in, if every root
that is remembered is right. -/
theorem findRoot_value_of_right (hmarker : w.roots.marker = w.settings.marker) (h : w.roots.Right w.fs.presence)
    (start : String) :
    (w.findRoot start).value = Path.nearestMarked w.fs.presence w.settings.marker (w.absolute start) := by
  rw [← hmarker]
  exact (h.find_tree _).1

theorem Coherent.findRoot_value (h : w.Coherent ∅) (start : String) :
    (w.findRoot start).value = Path.nearestMarked w.fs.presence w.settings.marker (w.absolute start) :=
  findRoot_value_of_right h.marker h.right start

/-- A search leaves a right memory. -/
theorem Coherent.findRoot (h : w.Coherent ∅) (start : String) : (w.findRoot start).workspace.Coherent ∅ := by
  obtain ⟨-, hright, hagrees⟩ := h.right.find_tree (w.absolute start)
  have hfiles := h.withFiles hagrees
  exact ⟨h.markerName, h.marker, hfiles.clean, by simp, .inl hright, hfiles.listings⟩

/-- A search leaves the files as they are. -/
theorem Coherent.agrees_findRoot (h : w.Coherent ∅) (start : String) : w.fs.Agrees (w.findRoot start).workspace.fs :=
  (h.right.find_tree (w.absolute start)).2.2

/-- Twins find the same root. -/
theorem Twins.findRoot (h : Twins w w') (start : String) : Alike (w.findRoot start) (w'.findRoot start) := by
  have hagrees := (h.left.agrees_findRoot start).symm.trans (h.files.trans (h.right.agrees_findRoot start))
  refine ⟨?_, h.env, h.settings, hagrees, h.left.findRoot start, h.right.findRoot start⟩
  rw [h.left.findRoot_value, h.right.findRoot_value, h.files.presence_eq, h.settings, absolute, absolute, h.env]

/-- Twins select the same base directory. -/
theorem Twins.selectBaseDir (h : Twins w w') (documentDir : String) (override : Option String) :
    Alike (w.selectBaseDir documentDir override) (w'.selectBaseDir documentDir override) := by
  cases override with
  | some dir => exact ⟨rfl, h⟩
  | none =>
    have hfound := h.findRoot documentDir
    refine ⟨?_, hfound.after⟩
    change (w'.findRoot documentDir).value.getD documentDir = (w.findRoot documentDir).value.getD documentDir
    rw [hfound.value]

/-- Twins have the same base directory for a document, or are refused alike. -/
theorem Twins.baseDir (h : Twins w w') (documentDir : String) :
    AlikeOrRefused (w.baseDir documentDir) (w'.baseDir documentDir) := by
  rw [Workspace.baseDir, Workspace.baseDir, h.rootOverride_eq]
  cases w.rootOverride with
  | error e => exact .refused _
  | ok override => exact .answered (h.selectBaseDir documentDir override)

/-- References are resolved alike over the same files. -/
theorem resolveAll_agrees {t t' : Tree} (h : t.Agrees t') (base : String) (references : List Reference) :
    (resolveAll base references t').1 = (resolveAll base references t).1 ∧
    t.Agrees (resolveAll base references t).2 := by
  induction references generalizing t t' with
  | nil => exact ⟨rfl, .rfl⟩
  | cons r rs ih =>
    have hask := t.agrees_pathExists (resolvePath base r.filePath)
    have hask' := t'.agrees_pathExists (resolvePath base r.filePath)
    have hrest := ih (hask.symm.trans (h.trans hask'))
    have hpresent := h.holds_eq (Path.normalize (resolvePath base r.filePath))
    refine ⟨?_, hask.trans hrest.2⟩
    simp only [resolveAll, resolveReference, FileSystem.pathExists] at hrest ⊢
    rw [hrest.1, Tree.pathExists, Tree.pathExists, hpresent]

/-- Twins resolve the references of a document alike. -/
theorem Twins.resolve (h : Twins w w') (d : Document) : AlikeOrRefused (w.resolve d) (w'.resolve d) := by
  rw [Workspace.resolve, Workspace.resolve, h.rootOverride_eq]
  cases w.rootOverride with
  | error e => exact .refused _
  | ok override =>
    cases Reference.scan d.text with
    | error e => exact .refused _
    | ok references =>
      cases references with
      | nil => exact .answered ⟨rfl, h⟩
      | cons r rs =>
        have hbase := h.selectBaseDir d.dirname override
        have hfiles := hbase.after.files
        have hafter := (resolveAll_agrees hfiles (w.selectBaseDir d.dirname override).value (r :: rs)).2
        have hafter' := (resolveAll_agrees hfiles.symm (w'.selectBaseDir d.dirname override).value (r :: rs)).2
        refine .answered ⟨?_, hbase.after.withFiles hafter hafter'⟩
        have hvalue := hbase.value
        change (resolveAll (w'.selectBaseDir d.dirname override).value (r :: rs)
          (w'.selectBaseDir d.dirname override).workspace.fs).1 = _
        rw [hvalue]
        exact (resolveAll_agrees hfiles _ _).1

/-- Twins give a document the same diagnostics. -/
theorem Twins.lint (h : Twins w w') (d : Document) : AlikeOrRefused (w.lint d) (w'.lint d) := by
  have hresolved := h.resolve d
  rw [Workspace.lint, Workspace.lint]
  generalize w.resolve d = x, w'.resolve d = x' at hresolved ⊢
  cases hresolved with
  | refused e => exact .refused e
  | @answered a a' halike =>
    obtain ⟨hvalue, henv, hsettings, hfiles, hleft, hright⟩ := halike
    refine .answered ⟨?_, henv, hsettings, hfiles, ?_, ?_⟩
    · change Diagnostic.ofReferences d a'.value = Diagnostic.ofReferences d a.value
      rw [hvalue]
    · exact ⟨hleft.markerName, hleft.marker, hleft.clean, hleft.cleanReports, hleft.roots, hleft.listings⟩
    · exact ⟨hright.markerName, hright.marker, hright.clean, hright.cleanReports, hright.roots, hright.listings⟩

/-- Twins give a document the same links. -/
theorem Twins.links (h : Twins w w') (d : Document) : AlikeOrRefused (w.links d) (w'.links d) := by
  have hresolved := h.resolve d
  rw [Workspace.links, Workspace.links]
  generalize w.resolve d = x, w'.resolve d = x' at hresolved ⊢
  cases hresolved with
  | refused e => exact .refused e
  | @answered a a' halike =>
    refine .answered ⟨?_, halike.after⟩
    change Link.ofReferences d a'.value = Link.ofReferences d a.value
    rw [halike.value]

/-- A listing holds the entries that are in the directory. -/
theorem Coherent.listing_entries (h : w.Coherent ∅) (directory : String) :
    (w.listing directory).value.entries = w.fs.entriesAt directory :=
  (Listings.get_spec h.listings directory).1

/-- A listing leaves a right memory. -/
theorem Coherent.listing (h : w.Coherent ∅) (directory : String) : (w.listing directory).workspace.Coherent ∅ := by
  obtain ⟨-, hcurrent, hagrees⟩ := Listings.get_spec h.listings directory
  have hfiles := h.withFiles hagrees
  exact ⟨h.markerName, h.marker, hfiles.clean, by simp, hfiles.roots, hcurrent⟩

/-- A listing leaves the files as they are. -/
theorem Coherent.agrees_listing (h : w.Coherent ∅) (directory : String) :
    w.fs.Agrees (w.listing directory).workspace.fs :=
  (Listings.get_spec h.listings directory).2.2

/-- Twins list a directory alike. -/
theorem Twins.listing (h : Twins w w') (directory : String) :
    (w'.listing directory).value.entries = (w.listing directory).value.entries ∧
      Twins (w.listing directory).workspace (w'.listing directory).workspace := by
  have hagrees := (h.left.agrees_listing directory).symm.trans (h.files.trans (h.right.agrees_listing directory))
  refine ⟨?_, h.env, h.settings, hagrees, h.left.listing directory, h.right.listing directory⟩
  rw [h.left.listing_entries, h.right.listing_entries, h.files.entriesAt_eq]

/-- Twins complete a typed path alike. -/
theorem Twins.completePath (h : Twins w w') (linePrefix : List Char) (line : Int) (documentDir : String)
    (override : Option String) {cancel : Cancellation} (hcancel : cancel ≠ .during) :
    Alike (w.completePath linePrefix line documentDir override cancel)
      (w'.completePath linePrefix line documentDir override cancel) := by
  unfold Workspace.completePath
  cases OpenPath.ofLine? linePrefix with
  | none => exact ⟨rfl, h⟩
  | some typed =>
    have hbase := h.selectBaseDir documentDir override
    by_cases hbefore : cancel = .before
    · simp only [hbefore, ↓reduceIte]
      exact ⟨rfl, hbase.after⟩
    · obtain ⟨hentries, hafter⟩ := hbase.after.listing
        ((TypedPath.ofChars typed).searchDir (w.selectBaseDir documentDir override).value)
      simp only [hbefore, ↓reduceIte, hbase.value, hcancel, decide_false, Bool.false_and, Bool.false_eq_true]
      refine ⟨?_, hafter⟩
      simp only
      rw [hentries]

/-- Twins complete a document alike. -/
theorem Twins.complete (h : Twins w w') (d : Document) (position : Position) {cancel : Cancellation}
    (hcancel : cancel ≠ .during) : AlikeOrRefused (w.complete d position cancel) (w'.complete d position cancel) := by
  rw [Workspace.complete, Workspace.complete, h.rootOverride_eq]
  cases w.rootOverride with
  | error e => exact .refused _
  | ok override => exact .answered (h.completePath _ _ _ override hcancel)

/-! ## Runs -/

/-- A question to a workspace. A request for completions may have been called off beforehand. -/
inductive Query
  | findRoot (start : String)
  | baseDir (documentDir : String)
  | resolve (d : Document)
  | lint (d : Document)
  | links (d : Document)
  | complete (d : Document) (position : Position) (calledOff : Bool)
  | listing (directory : String)

/-- What a question is answered. -/
inductive Reply
  | root (found : Option String)
  | baseDir (found : Except RequestError String)
  | resolved (references : Except RequestError (List ResolvedReference))
  | diagnostics (found : Except RequestError (List Diagnostic))
  | links (found : Except RequestError (List Link))
  | candidates (found : Except RequestError (Option (List Candidate)))
  | entries (found : List DirectoryEntry)

/-- The reply to a request and the workspace after it, which is as it was if the request is refused. -/
def replyWith {α : Type} (w : Workspace Tree) (reply : Except RequestError α → Reply) :
    Except RequestError (Answer Tree α) → Reply × Workspace Tree
  | .ok a => (reply (.ok a.value), a.workspace)
  | .error e => (reply (.error e), w)

/-- Asks a question. -/
def ask (w : Workspace Tree) : Query → Reply × Workspace Tree
  | .findRoot start => (.root (w.findRoot start).value, (w.findRoot start).workspace)
  | .baseDir documentDir => w.replyWith .baseDir (w.baseDir documentDir)
  | .resolve d => w.replyWith .resolved (w.resolve d)
  | .lint d => w.replyWith .diagnostics (w.lint d)
  | .links d => w.replyWith .links (w.links d)
  | .complete d position calledOff =>
    w.replyWith .candidates (w.complete d position (if calledOff then .before else .never))
  | .listing directory => (.entries (w.listing directory).value.entries, (w.listing directory).workspace)

/-- The states that a workspace over files with absolute paths can come to, each with the paths that came or went and
were not reported since: it is asked when nothing is unreported, any file or directory is added or removed, and any
paths are reported. -/
inductive Reached : Workspace Tree → Set String → Prop
  | start {t : Tree} (env : Environment) {settings : Settings} (hmarker : Path.IsName settings.marker.toList)
      (hclean : t.AllClean) : Reached (new t env settings) ∅
  | ask {w : Workspace Tree} (h : Reached w ∅) (q : Query) : Reached (w.ask q).2 ∅
  | mutate {w : Workspace Tree} {unreported : Set String} (h : Reached w unreported) {m : Tree.Mutation}
      (hm : m.AddsAbsolute) :
      Reached { w with fs := m.apply w.fs } (unreported ∪ {p | w.fs.Changed (m.apply w.fs) p})
  | report {w : Workspace Tree} {unreported : Set String} (h : Reached w unreported) (paths : List String) :
      Reached (w.filesChanged paths).workspace (unreported \ {p | p ∈ paths.map w.absolute})

/-- A report leaves the files as they are. -/
@[simp]
theorem filesChanged_fs (w : Workspace Tree) (paths : List String) : (w.filesChanged paths).workspace.fs = w.fs := rfl

@[simp]
theorem filesChanged_env (w : Workspace Tree) (paths : List String) :
    (w.filesChanged paths).workspace.env = w.env := rfl

@[simp]
theorem filesChanged_settings (w : Workspace Tree) (paths : List String) :
    (w.filesChanged paths).workspace.settings = w.settings :=
  rfl

/-- A report that names everything unreported leaves nothing unreported. -/
theorem Reached.reportAll (h : Reached w unreported) (paths : List String)
    (hall : ∀ p ∈ unreported, p ∈ paths.map w.absolute) : Reached (w.filesChanged paths).workspace ∅ := by
  have hnone : unreported \ {p | p ∈ paths.map w.absolute} = ∅ :=
    Set.eq_empty_iff_forall_notMem.2 fun p hp => hp.2 (hall p hp.1)
  rw [← hnone]
  exact h.report paths

/-- Requests that are alike get one reply and leave twins. -/
theorem Twins.replyWith (h : Twins w w') {α : Type} (reply : Except RequestError α → Reply)
    {x x' : Except RequestError (Answer Tree α)} (halike : AlikeOrRefused x x') :
    (w'.replyWith reply x').1 = (w.replyWith reply x).1 ∧ Twins (w.replyWith reply x).2 (w'.replyWith reply x').2 := by
  cases halike with
  | answered ha =>
    refine ⟨?_, ha.after⟩
    rw [Workspace.replyWith, Workspace.replyWith, ha.value]
  | refused e => exact ⟨rfl, h⟩

/-- Twins give one reply to a question, and are twins after it. -/
theorem Twins.ask (h : Twins w w') (q : Query) : (w'.ask q).1 = (w.ask q).1 ∧ Twins (w.ask q).2 (w'.ask q).2 := by
  cases q with
  | findRoot start =>
    have hfound := h.findRoot start
    refine ⟨?_, hfound.after⟩
    rw [Workspace.ask, Workspace.ask, hfound.value]
  | baseDir documentDir => exact h.replyWith _ (h.baseDir documentDir)
  | resolve d => exact h.replyWith _ (h.resolve d)
  | lint d => exact h.replyWith _ (h.lint d)
  | links d => exact h.replyWith _ (h.links d)
  | complete d position calledOff => exact h.replyWith _ (h.complete d position (by cases calledOff <;> simp))
  | listing directory =>
    obtain ⟨hentries, hafter⟩ := h.listing directory
    refine ⟨?_, hafter⟩
    rw [Workspace.ask, Workspace.ask, hentries]

/-- A mutation leaves a memory that is right but for what has come or gone. -/
theorem Coherent.mutate (h : w.Coherent unreported) {m : Tree.Mutation} (hm : m.AddsAbsolute) :
    ({ w with fs := m.apply w.fs } : Workspace Tree).Coherent (unreported ∪ {p | w.fs.Changed (m.apply w.fs) p}) := by
  have hclean := h.clean.apply hm
  refine ⟨h.markerName, h.marker, hclean, ?_, ?_, h.listings.edits (m.edits w.fs)⟩
  · rintro p (hp | hp)
    · exact h.cleanReports p hp
    · exact Tree.Changed.clean hp h.clean hclean
  · by_cases hmarked : ∃ p, w.fs.Changed (m.apply w.fs) p ∧ Path.basename p = w.settings.marker
    · obtain ⟨p, hp, hname⟩ := hmarked
      exact .inr ⟨p, .inr hp, hname⟩
    · refine h.roots.imp (fun hright => hright.congr fun start => ?_) fun ⟨p, hp, hname⟩ => ⟨p, .inl hp, hname⟩
      rw [h.marker]
      exact Tree.nearestMarked_eq_of_changed h.markerName (fun p hp hname => hmarked ⟨p, hp, hname⟩) start

/-- A report makes up for what it names. -/
theorem Coherent.report (h : w.Coherent unreported) (paths : List String) :
    (w.filesChanged paths).workspace.Coherent (unreported \ {p | p ∈ paths.map w.absolute}) := by
  refine ⟨h.markerName, ?_, h.clean, fun p hp => h.cleanReports p hp.1, ?_,
    Listings.current_invalidate h.listings h.cleanReports _⟩
  · exact (Roots.invalidate_marker _ _).trans h.marker
  · by_cases hmarked : ∃ p ∈ unreported \ {p | p ∈ paths.map w.absolute}, Path.basename p = w.settings.marker
    · exact .inr hmarked
    · refine .inl (Roots.right_invalidate (h.roots.imp_right ?_))
      rintro ⟨p, hp, hname⟩
      refine ⟨p, ?_, hname.trans h.marker.symm⟩
      by_contra hreported
      exact hmarked ⟨p, ⟨hp, hreported⟩, hname⟩

/-- The invariant holds in every state that is reached. -/
theorem Reached.coherent (h : Reached w unreported) : w.Coherent unreported := by
  induction h with
  | start env hmarker hclean => exact coherent_new env hmarker hclean
  | ask _ q ih => exact (ih.twins.ask q).2.left
  | mutate _ hm ih => exact ih.mutate hm
  | report _ paths ih => exact ih.report paths

/-- Wherever every change was reported, a question is answered as a new workspace over the present files answers it, and
the root of a directory is the nearest one, from its absolute path upwards, that the marker is in now. -/
theorem Reached.answers_as_new (h : Reached w ∅) (q : Query) :
    (w.ask q).1 = ((new w.fs w.env w.settings).ask q).1 ∧
    ∀ start, (w.findRoot start).value =
      (Path.ancestors (w.absolute start)).find? fun d => (w.fs.pathExists (Path.join d w.settings.marker)).1 := by
  have hw := h.coherent
  have hnew : Twins (new w.fs w.env w.settings) w :=
    ⟨rfl, rfl, .rfl, coherent_new w.env hw.markerName hw.clean, hw⟩
  exact ⟨(hnew.ask q).1, hw.findRoot_value⟩

/-- A root that was found is found no more once its marker is gone and that is reported. -/
theorem Reached.answers_as_new_marker_removed :
    ∃ w : Workspace Tree, Reached w ∅ ∧ w.fs.directories = ["/", "/d"] ∧ (w.findRoot "/d").value = none := by
  obtain ⟨t, hclean, hfiles, hdirectories⟩ :
      ∃ t : Tree, t.AllClean ∧ t.files = ["/d/mkdocs.yml"] ∧ t.directories = ["/", "/d"] :=
    ⟨Tree.build [] ["/d/mkdocs.yml"] [], Tree.allClean_build [] (by simp) (by decide), by cbv, by cbv⟩
  have hname : Path.IsName ({} : Settings).marker.toList := by decide
  have hstart := Reached.start {} hname hclean
  have hagrees := hstart.coherent.agrees_findRoot "/d"
  obtain ⟨w, hasked, hfiles, hdirectories, hmarker, hcwd⟩ : ∃ w : Workspace Tree, Reached w ∅ ∧
      w.fs.files = ["/d/mkdocs.yml"] ∧
      w.fs.directories = ["/", "/d"] ∧ w.settings.marker = "mkdocs.yml" ∧ w.env.cwd = "/" :=
    ⟨_, hstart.ask (.findRoot "/d"), hagrees.files.trans hfiles, hagrees.directories.trans hdirectories, rfl, rfl⟩
  have hremoved := hasked.mutate (m := .remove "/d/mkdocs.yml") trivial
  have hnoFiles : (w.fs.remove "/d/mkdocs.yml").files = [] := by
    rw [Tree.remove, hfiles]
    cbv
  have hkept : (w.fs.remove "/d/mkdocs.yml").directories = ["/", "/d"] := by
    rw [Tree.remove, hdirectories]
    cbv
  have hchanged : ∀ p, w.fs.Changed (w.fs.remove "/d/mkdocs.yml") p → p = "/d/mkdocs.yml" := by
    intro p hp
    simpa [Tree.Changed, hfiles, hdirectories, hnoFiles, hkept] using hp
  have hnormal : w.absolute "/d/mkdocs.yml" = "/d/mkdocs.yml" := by
    rw [absolute, hcwd]
    cbv
  have hreported := hremoved.reportAll ["/d/mkdocs.yml"] fun p hp => by
    rw [hchanged p (hp.resolve_left (Set.notMem_empty p))]
    exact List.mem_singleton.2 hnormal.symm
  refine ⟨_, hreported, by rw [filesChanged_fs]; exact hkept, ?_⟩
  rw [(hreported.answers_as_new (.findRoot "/d")).2]
  have hstart : Path.absolute "/" "/d" = "/d" := by cbv
  have habove : Path.ancestors "/d" = ["/d", "/"] := by cbv
  simp only [filesChanged_fs, filesChanged_env, filesChanged_settings, absolute, Tree.pathExists,
    Tree.holds, Tree.Mutation.apply, hcwd, hmarker, hstart, habove, hnoFiles, hkept]
  cbv

end DocRefs.Workspace
