import DocRefs.Proofs.Session.Convergence
import DocRefs.Proofs.Workspace.Recall

/-!
# A pass over all documents

Whatever a session lints, a path of which nothing wrong is stored stays so, and a memory of roots that is right stays
right (`Session.Keeps`). A pass over all documents that begins with a right memory leaves every document that can be
read with the diagnostics of a new workspace (`Session.fresh_lintAll`), whatever was stored before.
-/

namespace DocRefs.Session

variable {s s' s'' : Session} {path : FilePath}

/-! ## What every lint keeps -/

/-- Nothing is stored under a path unless something is there. -/
def Present (s : Session) (key : String) : Prop :=
  s.workspace.diagnostics.contains key = true → s.workspace.fs.pathExists key = true

/-- Diagnostics are stored under clean paths only. -/
def Tidy (s : Session) : Prop :=
  ∀ key, s.workspace.diagnostics.contains key = true → Path.Clean key

/-- A session that comes from another by linting, whatever was linted. -/
structure Keeps (s s' : Session) : Prop where
  site : SameSite s s'
  debouncer : s'.debouncer = s.debouncer
  marker : s'.workspace.roots.marker = s.workspace.roots.marker
  found : s.Found → s'.Found
  tidy : s.Tidy → s'.Tidy
  recalls : s.workspace.Recalls → s'.workspace.Recalls
  present : ∀ key, s.Present key → s'.Present key

theorem Keeps.rfl : Keeps s s :=
  ⟨.rfl, Eq.refl _, Eq.refl _, id, id, id, fun _ => id⟩

theorem Keeps.trans (h : Keeps s s') (h' : Keeps s' s'') : Keeps s s'' :=
  ⟨h.site.trans h'.site, h'.debouncer.trans h.debouncer, h'.marker.trans h.marker, h'.found ∘ h.found, h'.tidy ∘ h.tidy,
    h'.recalls ∘ h.recalls, fun key hkey => h'.present key (h.present key hkey)⟩

/-- A session that is seen from a clean directory. -/
structure Sited (s : Session) : Prop where
  cwd : s.workspace.fs.cwd = s.workspace.env.cwd
  clean : Path.Clean s.workspace.env.cwd

theorem Sited.congr (h : s.Sited) (hsite : SameSite s s') : s'.Sited :=
  ⟨by rw [hsite.fs, hsite.env, h.cwd], hsite.env ▸ h.clean⟩

/-- A document is stored under a clean path at which there is something. -/
theorem Sited.of_readable? (h : s.Sited) {d : Document} (hread : s.readable? path = some d) :
    Path.Clean d.path ∧ s.workspace.fs.pathExists d.path = true := by
  obtain ⟨hpath, htext⟩ := of_readable?_eq_some h.cwd hread
  refine ⟨?_, pathExists_of_readText htext⟩
  rw [hpath]
  exact Path.clean_absolute h.clean _

/-- A lint of one document keeps the site and the debouncer, and what is remembered stays right. -/
theorem keeps_lintOne (h : s.Sited) (path : FilePath) : Keeps s (s.lintOne path).session := by
  obtain ⟨hsite, hdebouncer⟩ := s.sameSite_lintOne path
  have hfound : s.Found → (s.lintOne path).session.Found := found_lintOne h.cwd
  rcases s.lintOne_cases path with ⟨d, a, hread, hlint, hs⟩ | ⟨d, e, -, -, hs⟩ | ⟨-, -, hs⟩ | ⟨-, -, hs⟩
  · obtain ⟨hclean, hexists⟩ := h.of_readable? hread
    have hsame := (Workspace.lint_eq hlint).2
    have hstored : ∀ key, a.workspace.diagnostics.contains key = true →
        key = d.path ∨ s.workspace.diagnostics.contains key = true := by
      intro key hkey
      rw [hsame.diagnostics, Assoc.contains_iff, Assoc.get?_insert] at hkey
      split at hkey
      · rename_i hpath
        exact .inl hpath
      · exact .inr (Assoc.contains_iff.2 hkey)
    rw [hs] at hsite hdebouncer hfound ⊢
    refine ⟨hsite, hdebouncer, Workspace.lint_marker hlint, hfound, ?_,
      fun hrecalls => Workspace.recalls_lint hrecalls h.clean hlint, ?_⟩
    · intro htidy key hkey
      rcases hstored key hkey with rfl | hkey
      · exact hclean
      · exact htidy key hkey
    · intro key hpresent hkey
      rw [hsite.fs]
      rcases hstored key hkey with rfl | hkey
      · exact hexists
      · exact hpresent hkey
  · rw [hs]
    exact .rfl
  · have hstored : ∀ key, (s.workspace.dropDiagnostics (s.workspace.absolute path.toString)).diagnostics.contains
        key = true →
        s.workspace.diagnostics.contains key = true := by
      intro key hkey
      rw [Workspace.dropDiagnostics, Assoc.contains_iff, Assoc.get?_erase] at hkey
      split at hkey
      · simp at hkey
      · exact Assoc.contains_iff.2 hkey
    rw [hs] at hsite hdebouncer hfound ⊢
    exact ⟨hsite, hdebouncer, rfl, hfound, fun htidy key hkey => htidy key (hstored key hkey),
      fun hrecalls => ⟨hrecalls.marker, hrecalls.roots⟩,
      fun key hpresent hkey => hpresent (hstored key hkey)⟩
  · rw [hs]
    exact .rfl

/-- A lint of one document leaves nothing stored under its path unless something is there. -/
theorem present_lintOne (h : s.Sited) (hfound : s.Found) (hseen : ∀ e, s.workspace.fs.lookUp path.toString ≠ .error e) :
    (s.lintOne path).session.Present (s.workspace.absolute path.toString) := by
  intro hstored
  rw [(s.sameSite_lintOne path).1.fs]
  rcases s.lintOne_cases path with ⟨d, a, hread, -, -⟩ | ⟨d, e, hread, -, -⟩ | ⟨-, -, hs⟩ | ⟨-, hlook, hs⟩
  · rw [← (of_readable?_eq_some h.cwd hread).1]
    exact (h.of_readable? hread).2
  · rw [← (of_readable?_eq_some h.cwd hread).1]
    exact (h.of_readable? hread).2
  · rw [hs, Workspace.dropDiagnostics, Assoc.contains_iff, Assoc.get?_erase, if_pos rfl] at hstored
    simp at hstored
  · rw [hs] at hstored
    exact pathExists_absolute h.cwd h.clean hseen hfound hstored hlook

/-- So does a lint of several documents. -/
theorem keeps_lintEach (h : s.Sited) (paths : List FilePath) : Keeps s (s.lintEach paths).session := by
  induction paths generalizing s with
  | nil => exact .rfl
  | cons p ps ih =>
    have hfirst := keeps_lintOne h p
    rw [lintEach]
    cases (s.lintOne p).result with
    | error stop => exact hfirst
    | ok _ => exact hfirst.trans (ih (h.congr hfirst.site))

/-- Collecting the documents leaves the session as it is. -/
theorem documents_session (s : Session) : s.documents.session = s := by
  unfold documents
  split <;> rfl

/-- A pass over all documents keeps them too. -/
theorem keeps_lintAll (h : s.Sited) : Keeps s s.lintAll.session := by
  unfold lintAll
  simp only [documents_session]
  cases s.documents.result with
  | error stop => exact .rfl
  | ok paths => exact keeps_lintEach h paths

/-- So does an event that is carried out. -/
theorem keeps_carryOut (h : s.Sited) (target : Relint) : Keeps s (s.carryOut target).1 := by
  cases target with
  | one path => exact keeps_lintOne h path
  | all => exact keeps_lintAll h

/-- So do several events, one after the other. -/
theorem keeps_carryOutAll (h : s.Sited) (out : List (Emission String Relint)) : Keeps s (s.carryOutAll out).1 := by
  induction out generalizing s with
  | nil => exact .rfl
  | cons x out ih =>
    cases x with
    | failed key => exact ih h
    | effect target =>
      have hfirst := keeps_carryOut h target
      exact hfirst.trans (ih (h.congr hfirst.site))

/-- Events are carried out one after the other. -/
theorem carryOutAll_append (s : Session) (out more : List (Emission String Relint)) :
    (s.carryOutAll (out ++ more)).1 = ((s.carryOutAll out).1.carryOutAll more).1 := by
  induction out generalizing s with
  | nil => rfl
  | cons x out ih =>
    cases x with
    | failed key => exact ih s
    | effect target => exact ih (s.carryOut target).1

/-- What is let through leaves nothing stored under the path of a document in it unless something is there. -/
theorem present_carryOutAll (h : s.Sited) (hfound : s.Found) {out : List (Emission String Relint)}
    (hseen : ∀ e, s.workspace.fs.lookUp path.toString ≠ .error e) (hout : .effect (.one path) ∈ out) :
    (s.carryOutAll out).1.Present (s.workspace.absolute path.toString) := by
  obtain ⟨before, later, rfl⟩ := List.append_of_mem hout
  have hbefore := keeps_carryOutAll h before
  have hsited := h.congr hbefore.site
  rw [carryOutAll_append]
  generalize (s.carryOutAll before).1 = mid at hbefore hsited
  have hpresent := present_lintOne hsited (hbefore.found hfound) (by rw [hbefore.site.fs]; exact hseen)
  rw [hbefore.site.absolute] at hpresent
  exact (keeps_carryOutAll (hsited.congr (keeps_lintOne hsited path).site) later).present _ hpresent

/-! ## A pass over all documents -/

/-- All documents below a session's directory could be linted on a disk: the directory is there, the paths of documents
can be looked up, and those that are read can be scanned. -/
structure Lintable (s : Session) (disk : Disk) : Prop where
  directory : disk.isDirectory s.directory.toString = true
  seen : ∀ p ∈ disk.filePathsBelow s.directory, s.workspace.settings.isDocument p = true →
    ∀ e, disk.lookUp p.toString ≠ .error e
  scanned : ∀ p ∈ disk.filePathsBelow s.directory, s.workspace.settings.isDocument p = true →
    ∀ d, Document.load disk p.toString none = .ok d → ∃ refs, Reference.scan d.text = .ok refs

/-- What is stored for each document that can be read are the diagnostics that a new workspace gives it. -/
def Fresh (s : Session) : Prop :=
  ∀ key, s.IsBelow s.workspace.fs key → ∀ text, Document.readText s.workspace.fs key = .ok text →
    ∃ fresh, (Workspace.new s.workspace.fs s.workspace.env s.workspace.settings).lint ⟨key, text⟩ = .ok fresh ∧
      s.workspace.diagnostics.get? key = some fresh.value

/-- A session of whose site nothing stands in the way of a pass over all documents. -/
structure Workable (s : Session) : Prop where
  disk : s.workspace.fs.Proper
  cwd : s.workspace.fs.cwd = s.workspace.env.cwd
  directory : s.directory.WellFormed
  lintable : s.Lintable s.workspace.fs
  override : ∃ o, s.workspace.rootOverride = .ok o

theorem Workable.sited (h : s.Workable) : s.Sited :=
  ⟨h.cwd, h.cwd ▸ h.disk.cwd⟩

theorem Workable.congr (h : s.Workable) (hsite : SameSite s s') : s'.Workable := by
  obtain ⟨hdisk, hcwd, hdirectory, ⟨hthere, hseen, hscanned⟩, hoverride⟩ := h
  rw [← hsite.fs] at hdisk hcwd hthere hseen hscanned
  rw [← hsite.env] at hcwd
  rw [← hsite.directory] at hdirectory hthere hseen hscanned
  rw [← hsite.settings] at hseen hscanned
  refine ⟨hdisk, hcwd, hdirectory, ⟨hthere, hseen, hscanned⟩, ?_⟩
  rw [Workspace.rootOverride, hsite.settings, hsite.env]
  exact hoverride

/-- The documents can be collected, each below the directory. -/
theorem Workable.exists_documents (h : s.Workable) :
    ∃ paths, collectDocuments s.workspace.fs s.workspace.settings [s.directory] = .ok paths ∧
      s.documents.result = .ok paths ∧
      ∀ p ∈ paths, p ∈ s.workspace.fs.filePathsBelow s.directory ∧ s.workspace.settings.isDocument p = true := by
  have hcollected : collectDocuments s.workspace.fs s.workspace.settings [s.directory] = _ :=
    collectDocuments_directory h.lintable.directory
  refine ⟨_, hcollected, ?_, fun p hp => List.mem_filter.1 hp⟩
  unfold documents
  rw [hcollected]

/-- A document whose path can be looked up and which can be scanned is linted without a failure. -/
theorem lintOne_ok (hoverride : ∃ o, s.workspace.rootOverride = .ok o)
    (hseen : ∀ e, s.workspace.fs.lookUp path.toString ≠ .error e)
    (hscanned : ∀ d, Document.load s.workspace.fs path.toString none = .ok d →
      ∃ refs, Reference.scan d.text = .ok refs) :
    (s.lintOne path).result = .ok () := by
  rcases s.lintOne_eq path with ⟨e, hlook, -⟩ | ⟨-, hs⟩ | ⟨node, e, -, -, hs⟩ |
    ⟨d, e, hread, hlint, -⟩ | ⟨d, a, -, -, hs⟩
  · exact absurd hlook (hseen e)
  · rw [hs]
  · rw [hs]
  · obtain ⟨a, ha⟩ := Workspace.lint_isOk_iff.2 (Workspace.resolve_isOk_iff.2 ⟨hoverride,
      hscanned d (readable?_eq_some_iff.1 hread).2⟩)
    cases hlint.symm.trans ha
  · rw [hs]

/-- The documents can be linted one after the other. -/
theorem Workable.lintEach_ok (h : s.Workable) {paths : List FilePath}
    (hpaths : ∀ p ∈ paths, p ∈ s.workspace.fs.filePathsBelow s.directory ∧ s.workspace.settings.isDocument p = true) :
    (s.lintEach paths).result = .ok () := by
  induction paths generalizing s with
  | nil => rfl
  | cons p ps ih =>
    obtain ⟨hbelow, hdocument⟩ := hpaths p List.mem_cons_self
    have hok := lintOne_ok h.override (h.lintable.seen p hbelow hdocument) (h.lintable.scanned p hbelow hdocument)
    have hsite := (s.sameSite_lintOne p).1
    rw [lintEach, hok]
    refine ih (h.congr hsite) ?_
    intro q hq
    rw [hsite.fs, hsite.directory, hsite.settings]
    exact hpaths q (List.mem_cons_of_mem _ hq)

/-- The workspaces in which documents are linted in a pass see one disk, and remember what is right if the first one
does. -/
theorem recalls_of_noteEach (h : s.Sited) (hrecalls : s.workspace.Recalls) {last : Lints}
    {paths : List FilePath} {key : String}
    {w : Workspace Disk} (hw : s.noteEach last paths key = some w) :
    last key = some w ∨ w.Recalls ∧ w.fs = s.workspace.fs := by
  induction paths generalizing s last with
  | nil => exact .inl hw
  | cons p ps ih =>
    have hkeeps := keeps_lintOne h p
    have hone : ∀ w, s.noteOne last p key = some w → last key = some w ∨ w.Recalls ∧ w.fs = s.workspace.fs := by
      intro w hw
      unfold noteOne at hw
      cases hread : s.readable? p with
      | none =>
        rw [hread] at hw
        exact .inl hw
      | some d =>
        rw [hread] at hw
        by_cases hpath : key = d.path
        · obtain rfl := Option.some.inj ((if_pos hpath).symm.trans hw)
          exact .inr ⟨hrecalls, rfl⟩
        · exact .inl ((if_neg hpath).symm.trans hw)
    rw [noteEach] at hw
    cases hresult : (s.lintOne p).result with
    | error stop =>
      rw [hresult] at hw
      exact hone w hw
    | ok _ =>
      rw [hresult] at hw
      rcases ih (h.congr hkeeps.site) (hkeeps.recalls hrecalls) hw with hw | ⟨hright, hfs⟩
      · exact hone w hw
      · exact .inr ⟨hright, hfs.trans hkeeps.site.fs⟩

/-- A pass over all documents that begins with a right memory of roots stores what a new workspace gives. -/
theorem Workable.fresh_lintAll (h : s.Workable) (hfound : s.Found) (hrecalls : s.workspace.Recalls) :
    s.lintAll.session.Fresh := by
  obtain ⟨paths, hcollected, hdocuments, hpaths⟩ := h.exists_documents
  have hok := h.lintEach_ok hpaths
  have hpass : s.lintAll.session = (s.lintEach paths).session := by
    unfold lintAll
    simp only [hdocuments, documents_session]
  obtain ⟨here, hhere⟩ := exists_find_of_collectDocuments hcollected
  have hleads : ∀ p ∈ paths, ∀ place, s.workspace.fs.find (s.workspace.absolute p.toString) = .ok place →
      s.workspace.fs.find p.toString = .ok place ∨ s.workspace.fs.find p.toString = .error .nameTooLong := by
    intro p hp place hplace
    rw [Workspace.absolute, ← h.cwd] at hplace
    exact find_of_mem_filePathsBelow h.disk h.directory hhere (hpaths p hp).1 hplace
  -- Nothing is taken down before the pass, so the workspaces that are taken down are those of the pass.
  obtain ⟨hfollows, hlinted⟩ := follows_lintEach (fun _ => none) h.cwd h.sited.clean hfound hleads hok
  have hsite := hfollows.site
  rw [hpass]
  intro key hbelow text htext
  obtain ⟨paths', hcollected', p, hp, rfl⟩ := id hbelow
  rw [hsite.fs, hsite.settings, hsite.directory] at hcollected'
  obtain rfl := Except.ok.inj (hcollected.symm.trans hcollected')
  have hcurrent := hlinted p hp
  rw [Workspace.absolute, ← h.cwd, ← hsite.fs] at hcurrent
  obtain ⟨w, hw, henv, hsettings, hstored⟩ := hcurrent.linted hbelow text htext
  obtain ⟨hright, hfs⟩ := (recalls_of_noteEach h.sited hrecalls hw).resolve_left (by rintro ⟨⟩)
  have hscanned : ∃ refs, Reference.scan text = .ok refs := by
    have hload := Document.load_eq_ok_iff (d := ⟨_, text⟩).2 ⟨rfl, hsite.fs ▸ htext⟩
    exact h.lintable.scanned p (hpaths p hp).1 (hpaths p hp).2 _ hload
  have hanswered : ∀ v : Workspace Disk, v.env = s.workspace.env → v.settings = s.workspace.settings →
      ∃ a, v.lint ⟨Path.absolute (s.lintEach paths).session.workspace.fs.cwd p.toString, text⟩ = .ok a := by
    intro v henv hsettings
    refine Workspace.lint_isOk_iff.2 (Workspace.resolve_isOk_iff.2 ⟨?_, hscanned⟩)
    rw [Workspace.rootOverride, henv, hsettings]
    exact h.override
  obtain ⟨a, ha⟩ := hanswered w (henv.trans hsite.env) (hsettings.trans hsite.settings)
  obtain ⟨fresh, hfresh⟩ := hanswered (.new _ _ _) hsite.env hsite.settings
  refine ⟨fresh, hfresh, (hstored a ha).trans (congrArg some ?_)⟩
  have hexists : ∀ path, (s.lintEach paths).session.workspace.fs.pathExists path = w.fs.pathExists path := by
    rw [hsite.fs, hfs]
    exact fun _ => rfl
  exact (hright.knows.lint_value_eq (Workspace.knows_new _ _ _) hexists henv.symm hsettings.symm ha hfresh).symm

end DocRefs.Session
