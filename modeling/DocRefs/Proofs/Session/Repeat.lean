import DocRefs.Proofs.Session.Pass
import DocRefs.Proofs.Workspace.Repeat

/-!
# A pass that is repeated

A document that was linted is settled (`Session.Settled`): to lint it again over the same disk changes nothing that is
stored and shows nothing but a notice that it is skipped, if it is (`Session.Settled.lintOne`). Other documents are
stored under other paths, so it stays settled while they are linted (`Session.Settled.lintEach`). A pass over all
documents settles each of them that it comes to, up to the one at which it fails, and there it fails again; so a second
pass has nothing new to show (`Session.lintAll_again`). What is remembered of roots need not be right for that.
-/

namespace DocRefs

namespace Disk

variable {disk : Disk} {directory : FilePath}

/-- Paths with the same absolute form name the same place. -/
theorem placeOf_eq_of_absolute (hcwd : Path.Clean disk.cwd) {p q : String}
    (h : Path.absolute disk.cwd p = Path.absolute disk.cwd q) : disk.placeOf p = disk.placeOf q := by
  have hroot : ∀ r : String, (Path.joinChars disk.cwd.toList r.toList).head? = some '/' :=
    fun r => Path.head?_joinChars (Path.head?_of_isAbsolute hcwd.absolute) r.toList
  have hchars := congrArg String.toList h
  rw [Path.toList_absolute, Path.toList_absolute, Path.normalChars_rooted (hroot p),
    Path.normalChars_rooted (hroot q)] at hchars
  obtain ⟨-, hcomponents⟩ := Path.ofComponents_inj (Path.rootSlashes_rooted (hroot p))
    (Path.rootSlashes_rooted (hroot q))
    (fun c hc => Path.isName_of_mem_normalComponents (hroot p) hc)
    (fun c hc => Path.isName_of_mem_normalComponents (hroot q) hc) hchars
  rw [placeOf, placeOf, hcomponents]

/-- Files below a directory have different absolute forms. -/
theorem Proper.eq_of_absolute (hdisk : disk.Proper) (hpath : directory.WellFormed) {p q : FilePath}
    (hp : p ∈ disk.filePathsBelow directory) (hq : q ∈ disk.filePathsBelow directory)
    (h : Path.absolute disk.cwd p.toString = Path.absolute disk.cwd q.toString) : p = q := by
  obtain ⟨names, hne, hnames, rfl⟩ := exists_names_of_mem_filePathsBelow hdisk hp
  obtain ⟨names', hne', hnames', rfl⟩ := exists_names_of_mem_filePathsBelow hdisk hq
  have hplace := placeOf_eq_of_absolute hdisk.cwd h
  rw [placeOf_below hdisk.cwd hpath hnames hne, placeOf_below hdisk.cwd hpath hnames' hne'] at hplace
  rw [List.append_cancel_left hplace]

end Disk

/-- What is collected from one path: the path itself, or the documents below it. -/
theorem collectDocuments_cases {disk : Disk} {settings : Settings} {directory : FilePath} {paths : List FilePath}
    (h : collectDocuments disk settings [directory] = .ok paths) :
    paths = [directory] ∨ paths = (disk.filePathsBelow directory).filter settings.isDocument := by
  unfold collectDocuments at h
  split at h
  · simp at h
  · simp at h
  · exact .inl (Except.ok.inj h).symm
  · exact .inr ((Except.ok.inj h).symm.trans (List.append_nil _))

/-- Nothing is collected from a path at which there is nothing. -/
theorem collectDocuments_nothingAt {disk : Disk} {settings : Settings} {directory path : FilePath}
    (h : collectDocuments disk settings [directory] = .error (.nothingAt path)) :
    path = directory ∧ disk.lookUp directory.toString = .ok none := by
  unfold collectDocuments at h
  split at h
  · simp at h
  · rename_i hnone
    exact ⟨(CollectError.nothingAt.inj (Except.error.inj h)).symm, hnone⟩
  · simp [collectDocuments, Except.map] at h
  · simp [collectDocuments, Except.map] at h

/-- What is collected has different absolute forms. -/
theorem eq_of_absolute_of_collected {disk : Disk} (hdisk : disk.Proper) {settings : Settings} {directory : FilePath}
    (hpath : directory.WellFormed) {paths : List FilePath} (h : collectDocuments disk settings [directory] = .ok paths)
    {p q : FilePath}
    (hp : p ∈ paths) (hq : q ∈ paths)
    (habsolute : Path.absolute disk.cwd p.toString = Path.absolute disk.cwd q.toString) : p = q := by
  rcases collectDocuments_cases h with rfl | rfl
  · rw [List.mem_singleton.1 hp, List.mem_singleton.1 hq]
  · exact hdisk.eq_of_absolute hpath (List.mem_filter.1 hp).1 (List.mem_filter.1 hq).1 habsolute

namespace Session

variable {s s' s'' : Session} {path : FilePath}

/-! ## What a lint leaves as it is -/

/-- A lint of one document forgets no root. -/
theorem lintOne_continues (s : Session) (path : FilePath) :
    s.workspace.Continues (s.lintOne path).session.workspace := by
  rcases s.lintOne_eq path with ⟨e, -, hs⟩ | ⟨-, hs⟩ | ⟨node, e, -, -, hs⟩ | ⟨d, e, -, -, hs⟩ | ⟨d, a, -, hlint, hs⟩
  · rw [hs]
    exact .rfl
  · rw [hs]
    exact ⟨rfl, rfl, rfl, fun _ _ => id⟩
  · rw [hs]
    exact .rfl
  · rw [hs]
    exact .rfl
  · rw [hs]
    exact Workspace.lint_continues hlint

/-- A lint that fails is the last one. -/
theorem lintEach_cons_error {stop : Stop} (h : (s.lintOne path).result = .error stop) (paths : List FilePath) :
    s.lintEach (path :: paths) = { s.lintOne path with result := .error stop } := by
  rw [lintEach, h]

/-- Any other is followed by the rest. -/
theorem lintEach_cons_ok (h : (s.lintOne path).result = .ok ()) (paths : List FilePath) :
    (s.lintEach (path :: paths)).session = ((s.lintOne path).session.lintEach paths).session ∧
      (s.lintEach (path :: paths)).effects.shown =
        (s.lintOne path).effects.shown ++ ((s.lintOne path).session.lintEach paths).effects.shown := by
  rw [lintEach, h]
  exact ⟨rfl, rfl⟩

/-- A lint of several documents goes on with what is remembered. -/
theorem lintEach_continues (s : Session) (paths : List FilePath) :
    s.workspace.Continues (s.lintEach paths).session.workspace := by
  induction paths generalizing s with
  | nil => exact .rfl
  | cons p paths ih =>
    cases hresult : (s.lintOne p).result with
    | error stop =>
      rw [lintEach_cons_error hresult paths]
      exact s.lintOne_continues p
    | ok _ =>
      rw [(lintEach_cons_ok hresult paths).1]
      exact (s.lintOne_continues p).trans (ih _)

/-- The paths under which diagnostics are stored stay apart. -/
theorem nodup_keys_lintOne (h : s.workspace.diagnostics.keys.Nodup) (path : FilePath) :
    (s.lintOne path).session.workspace.diagnostics.keys.Nodup := by
  rcases s.lintOne_eq path with ⟨e, -, hs⟩ | ⟨-, hs⟩ | ⟨node, e, -, -, hs⟩ | ⟨d, e, -, -, hs⟩ | ⟨d, a, -, hlint, hs⟩
  · rw [hs]
    exact h
  · rw [hs]
    exact Assoc.nodup_keys_erase h _
  · rw [hs]
    exact h
  · rw [hs]
    exact h
  · rw [hs, (Workspace.lint_eq hlint).2.diagnostics]
    exact Assoc.nodup_keys_insert h _ _

/-- No document is stored twice. -/
theorem nodup_keys_lintEach (h : s.workspace.diagnostics.keys.Nodup) (paths : List FilePath) :
    (s.lintEach paths).session.workspace.diagnostics.keys.Nodup := by
  induction paths generalizing s with
  | nil => exact h
  | cons p paths ih =>
    have hfirst := nodup_keys_lintOne h p
    cases hresult : (s.lintOne p).result with
    | error stop =>
      rw [lintEach_cons_error hresult paths]
      exact hfirst
    | ok _ =>
      rw [(lintEach_cons_ok hresult paths).1]
      exact ih hfirst

/-! ## Settled documents -/

/-- A session that goes on from another one over the same disk, with the same diagnostics, and remembers the roots that
are remembered there. -/
structure Resumes (s s' : Session) : Prop where
  workspace : s.workspace.Continues s'.workspace
  directory : s'.directory = s.directory
  diagnostics : s'.workspace.diagnostics = s.workspace.diagnostics

theorem Resumes.rfl : Resumes s s :=
  ⟨.rfl, Eq.refl _, Eq.refl _⟩

theorem Resumes.trans (h : Resumes s s') (h' : Resumes s' s'') : Resumes s s'' :=
  ⟨h.workspace.trans h'.workspace, h'.directory.trans h.directory, h'.diagnostics.trans h.diagnostics⟩

/-- A document was linted before, with the diagnostics that are stored, and no root was forgotten since; or nothing is
there, and nothing is stored. -/
structure Settled (s : Session) (path : FilePath) : Prop where
  read : ∀ d, s.readable? path = some d → ∃ (w : Workspace Disk) (a : Answer Disk (List Diagnostic)), w.lint d = .ok a ∧
    a.workspace.Continues s.workspace ∧ s.workspace.diagnostics.get? d.path = some a.value
  gone : s.workspace.fs.lookUp path.toString = .ok none →
    s.workspace.diagnostics.get? (s.workspace.absolute path.toString) = none

/-- A document stays settled while the same is stored under its path. -/
theorem Settled.congr (h : s.Settled path) (hcwd : s.workspace.fs.cwd = s.workspace.env.cwd)
    (hcontinues : s.workspace.Continues s'.workspace)
    (hstored : s'.workspace.diagnostics.get? (s.workspace.absolute path.toString) =
      s.workspace.diagnostics.get? (s.workspace.absolute path.toString)) : s'.Settled path := by
  have hread : s'.readable? path = s.readable? path := by
    unfold readable?
    rw [hcontinues.fs]
  refine ⟨?_, ?_⟩
  · intro d hd
    rw [hread] at hd
    obtain ⟨w, a, ha, hsince, hvalue⟩ := h.read d hd
    refine ⟨w, a, ha, hsince.trans hcontinues, ?_⟩
    rw [(of_readable?_eq_some hcwd hd).1] at hvalue ⊢
    exact hstored.trans hvalue
  · intro hnone
    rw [hcontinues.fs] at hnone
    rw [Workspace.absolute, hcontinues.env]
    exact hstored.trans (h.gone hnone)

/-- A settled document stays settled when the session is resumed. -/
theorem Settled.resumes (h : s.Settled path) (hcwd : s.workspace.fs.cwd = s.workspace.env.cwd)
    (hresumes : Resumes s s') : s'.Settled path :=
  h.congr hcwd hresumes.workspace (by rw [hresumes.diagnostics])

/-- A document that is linted without a failure is settled then. -/
theorem settled_lintOne (hok : (s.lintOne path).result = .ok ()) : (s.lintOne path).session.Settled path := by
  rcases s.lintOne_eq path with ⟨e, -, hs⟩ | ⟨hlook, hs⟩ | ⟨node, e, hlook, hload, hs⟩ | ⟨d, e, -, -, hs⟩ |
    ⟨d, a, hread, hlint, hs⟩
  · rw [hs] at hok
    simp at hok
  · rw [hs]
    refine ⟨?_, ?_⟩
    · intro d hd
      obtain ⟨⟨node, hnode⟩, -⟩ := readable?_eq_some_iff.1 hd
      cases hlook.symm.trans hnode
    · intro _
      exact (Assoc.get?_erase _ _ _).trans (if_pos rfl)
  · rw [hs]
    refine ⟨?_, ?_⟩
    · intro d hd
      cases hload.symm.trans (readable?_eq_some_iff.1 hd).2
    · intro hnone
      cases hlook.symm.trans hnone
  · rw [hs] at hok
    simp at hok
  · have hsame := (Workspace.lint_eq hlint).2
    have hagain : ({ s with workspace := a.workspace } : Session).readable? path = s.readable? path := by
      unfold readable?
      dsimp only
      rw [hsame.fs]
    rw [hs]
    refine ⟨?_, ?_⟩
    · intro d' hd'
      obtain rfl := Option.some.inj (hread.symm.trans (hagain.symm.trans hd'))
      refine ⟨s.workspace, a, hlint, .rfl, ?_⟩
      rw [hsame.diagnostics, Assoc.get?_insert, if_pos rfl]
    · intro hnone
      obtain ⟨⟨node, hnode⟩, -⟩ := readable?_eq_some_iff.1 hread
      dsimp only at hnone
      rw [hsame.fs] at hnone
      cases hnode.symm.trans hnone

/-- What is shown is the notice that a document is skipped, which cannot be read. -/
def Skips (disk : Disk) (out : Output) : Prop :=
  ∃ (p : FilePath) (e : ReadError), Document.load disk p.toString none = .error e ∧ out = .line (skipNotice p e)

/-- To lint a settled document changes nothing that is stored, and shows at most that it is skipped. -/
theorem Settled.lintOne (h : s.Settled path) (hkeys : s.workspace.diagnostics.keys.Nodup) :
    Resumes s (s.lintOne path).session ∧ ∀ out ∈ (s.lintOne path).effects.shown, Skips s.workspace.fs out := by
  rcases s.lintOne_eq path with ⟨e, -, hs⟩ | ⟨hlook, hs⟩ | ⟨node, e, -, hload, hs⟩ | ⟨d, e, -, -, hs⟩ |
    ⟨d, a, hread, hlint, hs⟩
  · rw [hs]
    exact ⟨.rfl, List.forall_mem_nil _⟩
  · rw [hs]
    exact ⟨⟨⟨rfl, rfl, rfl, fun _ _ => id⟩, rfl, Assoc.erase_eq_self (h.gone hlook)⟩, List.forall_mem_nil _⟩
  · rw [hs]
    exact ⟨.rfl, List.forall_mem_singleton.2 ⟨path, e, hload, rfl⟩⟩
  · rw [hs]
    exact ⟨.rfl, List.forall_mem_nil _⟩
  · obtain ⟨w, b, hb, hsince, hstored⟩ := h.read d hread
    have hvalue : a.value = b.value := Workspace.lint_again hb hsince hlint
    have hprevious : s.workspace.diagnosticsOf d.path = a.value := by
      rw [Workspace.diagnosticsOf, hstored, hvalue]
      rfl
    have hsame := (Workspace.lint_eq hlint).2.diagnostics
    rw [hs]
    refine ⟨⟨Workspace.lint_continues hlint, rfl, hsame.trans (Assoc.insert_eq_self hkeys (hvalue ▸ hstored))⟩, ?_⟩
    dsimp only
    rw [changeLines, if_pos hprevious.symm]
    exact List.forall_mem_nil _

/-- While other documents are linted a document stays settled. -/
theorem Settled.lintEach (h : s.Settled path) (hcwd : s.workspace.fs.cwd = s.workspace.env.cwd)
    (hkeys : s.workspace.diagnostics.keys.Nodup) {paths : List FilePath}
    (hapart : ∀ q ∈ paths, s.workspace.absolute q.toString = s.workspace.absolute path.toString → q = path) :
    (s.lintEach paths).session.Settled path := by
  induction paths generalizing s with
  | nil => exact h
  | cons q paths ih =>
    have hcontinues := s.lintOne_continues q
    have hfirst : (s.lintOne q).session.Settled path := by
      by_cases hsame : q = path
      · exact h.resumes hcwd (hsame ▸ (h.lintOne hkeys).1)
      · have hother : s.workspace.absolute path.toString ≠ s.workspace.absolute q.toString :=
          fun habsolute => hsame (hapart q List.mem_cons_self habsolute.symm)
        exact h.congr hcwd hcontinues (lintOne_of_ne (fun _ => none) hcwd hother).1
    cases hresult : (s.lintOne q).result with
    | error stop =>
      rw [lintEach_cons_error hresult paths]
      exact hfirst
    | ok _ =>
      rw [(lintEach_cons_ok hresult paths).1]
      refine ih hfirst (hcontinues.cwd hcwd) (nodup_keys_lintOne hkeys q) ?_
      intro q' hq'
      rw [hcontinues.absolute, hcontinues.absolute]
      exact hapart q' (List.mem_cons_of_mem _ hq')

/-! ## Passes -/

/-- Where a lint fails it fails again, and shows nothing. -/
theorem lintOne_fails_again {stop : Stop} (h : (s.lintOne path).result = .error stop) (hresumes : Resumes s s') :
    (s.lintOne path).session = s ∧ ∃ stop', s'.lintOne path = ⟨s', {}, .error stop'⟩ := by
  have hfs := hresumes.workspace.fs
  rcases s.lintOne_eq path with ⟨e, hlook, hs⟩ | ⟨-, hs⟩ | ⟨node, e, -, -, hs⟩ |
    ⟨d, e, hread, hlint, hs⟩ | ⟨d, a, -, -, hs⟩
  · rw [hs]
    refine ⟨rfl, .file e, ?_⟩
    simp [lintOne, hfs, hlook]
  · rw [hs] at h
    simp at h
  · rw [hs] at h
    simp at h
  · obtain ⟨⟨node, hlook⟩, hload⟩ := readable?_eq_some_iff.1 hread
    rw [hs]
    refine ⟨rfl, ?_⟩
    cases hagain : s'.workspace.lint d with
    | ok a =>
      obtain ⟨b, hb⟩ := hresumes.workspace.lint_isOk.1 ⟨a, hagain⟩
      cases hlint.symm.trans hb
    | error e' => exact ⟨.failed e', by simp [lintOne, hfs, hlook, hload, hagain]⟩
  · rw [hs] at h
    simp at h

/-- A lint of several documents that is repeated changes nothing that is stored, and shows at most that documents are
skipped. -/
theorem lintEach_again (hcwd : s.workspace.fs.cwd = s.workspace.env.cwd) (hkeys : s.workspace.diagnostics.keys.Nodup)
    {paths : List FilePath} (hapart : ∀ p ∈ paths, ∀ q ∈ paths,
      s.workspace.absolute p.toString = s.workspace.absolute q.toString → p = q)
    (h : Resumes (s.lintEach paths).session s') :
    Resumes s' (s'.lintEach paths).session ∧ ∀ out ∈ (s'.lintEach paths).effects.shown, Skips s'.workspace.fs out := by
  induction paths generalizing s s' with
  | nil => exact ⟨.rfl, List.forall_mem_nil _⟩
  | cons p paths ih =>
    cases hresult : (s.lintOne p).result with
    | error stop =>
      rw [lintEach_cons_error hresult] at h
      dsimp only at h
      rw [(lintOne_fails_again hresult .rfl).1] at h
      obtain ⟨stop', hfails⟩ := (lintOne_fails_again hresult h).2
      have hagain : s'.lintEach (p :: paths) = ⟨s', {}, .error stop'⟩ := by
        rw [lintEach, hfails]
      rw [hagain]
      exact ⟨.rfl, List.forall_mem_nil _⟩
    | ok _ =>
      rw [(lintEach_cons_ok hresult paths).1] at h
      have hcontinues := s.lintOne_continues p
      have hkeys' := nodup_keys_lintOne hkeys p
      have hapart' : ∀ q ∈ paths, ∀ q' ∈ p :: paths, (s.lintOne p).session.workspace.absolute q.toString =
          (s.lintOne p).session.workspace.absolute q'.toString → q = q' := by
        intro q hq q' hq' hsame
        rw [hcontinues.absolute, hcontinues.absolute] at hsame
        exact hapart q (List.mem_cons_of_mem _ hq) q' hq' hsame
      -- The first document is settled by its lint, and still so when the second pass begins.
      have hrest := (s.lintOne p).session.lintEach_continues paths
      have hsettled : s'.Settled p :=
        ((settled_lintOne hresult).lintEach (hcontinues.cwd hcwd) hkeys' fun q hq =>
          hapart' q hq p List.mem_cons_self).resumes
          (hrest.cwd (hcontinues.cwd hcwd)) h
      have hkeys'' : s'.workspace.diagnostics.keys.Nodup := by
        rw [h.diagnostics]
        exact nodup_keys_lintEach hkeys' paths
      obtain ⟨hresumes, hskips⟩ := hsettled.lintOne hkeys''
      cases hagain : (s'.lintOne p).result with
      | error stop =>
        rw [lintEach_cons_error hagain]
        exact ⟨hresumes, hskips⟩
      | ok _ =>
        obtain ⟨hrests, hothers⟩ := ih (hcontinues.cwd hcwd) hkeys'
          (fun q hq q' hq' => hapart' q hq q' (List.mem_cons_of_mem _ hq')) (h.trans hresumes)
        rw [hresumes.workspace.fs] at hothers
        rw [(lintEach_cons_ok hagain paths).1, (lintEach_cons_ok hagain paths).2]
        exact ⟨hresumes.trans hrests, List.forall_mem_append.2 ⟨hskips, hothers⟩⟩

/-- A pass lints what is collected, or shows that there is nothing at the directory, or fails at once. -/
theorem lintAll_cases (s : Session) :
    (∃ paths, collectDocuments s.workspace.fs s.workspace.settings [s.directory] = .ok paths ∧
      s.lintAll.session = (s.lintEach paths).session ∧ s.lintAll.effects.shown = (s.lintEach paths).effects.shown) ∨
    (collectDocuments s.workspace.fs s.workspace.settings [s.directory] = .error (.nothingAt s.directory) ∧
      s.workspace.fs.lookUp s.directory.toString = .ok none ∧ s.lintAll.session = s ∧
      s.lintAll.effects.shown = [.line (notFoundNotice s.directory)]) ∨
    ∃ e, collectDocuments s.workspace.fs s.workspace.settings [s.directory] = .error (.file e) ∧ s.lintAll.session = s ∧
      s.lintAll.effects.shown = [] := by
  unfold lintAll documents
  cases hcollected : collectDocuments s.workspace.fs s.workspace.settings [s.directory] with
  | ok paths => exact .inl ⟨paths, rfl, rfl, List.nil_append _⟩
  | error e =>
    cases e with
    | nothingAt path =>
      obtain ⟨rfl, hnone⟩ := collectDocuments_nothingAt hcollected
      exact .inr (.inl ⟨rfl, hnone, rfl, rfl⟩)
    | file e => exact .inr (.inr ⟨e, rfl, rfl, rfl⟩)

/-- A session whose disk holds nothing but names and is seen from where the session is, and whose stored paths are
apart. -/
structure Grounded (s : Session) : Prop where
  disk : s.workspace.fs.Proper
  cwd : s.workspace.fs.cwd = s.workspace.env.cwd
  directory : s.directory.WellFormed
  keys : s.workspace.diagnostics.keys.Nodup

/-- A pass over all documents that is repeated changes nothing that is stored, and shows nothing but that documents are
skipped, or that there is nothing at the directory. -/
theorem Grounded.lintAll_again (h : s.Grounded) :
    Resumes s.lintAll.session s.lintAll.session.lintAll.session ∧
      ∀ out ∈ s.lintAll.session.lintAll.effects.shown, Skips s.workspace.fs out ∨
        s.workspace.fs.lookUp s.directory.toString = .ok none ∧ out = .line (notFoundNotice s.directory) := by
  rcases s.lintAll_cases with ⟨paths, hcollected, hsession, -⟩ | ⟨-, hnone, hsession, hshown⟩ | ⟨e, -, hsession, hshown⟩
  · have hsite := (keeps_lintEach ⟨h.cwd, h.cwd ▸ h.disk.cwd⟩ paths).site
    obtain ⟨hresumes, hskips⟩ := lintEach_again h.cwd h.keys (fun p hp q hq hsame => by
      rw [Workspace.absolute, Workspace.absolute, ← h.cwd] at hsame
      exact eq_of_absolute_of_collected h.disk h.directory hcollected hp hq hsame) Resumes.rfl
    rw [hsession]
    rcases (s.lintEach paths).session.lintAll_cases with ⟨paths', hcollected', hsession', hshown'⟩ |
      ⟨hcollected', -⟩ | ⟨e, hcollected', -⟩
    · rw [hsite.fs, hsite.settings, hsite.directory] at hcollected'
      obtain rfl := Except.ok.inj (hcollected.symm.trans hcollected')
      rw [hsession', hshown']
      rw [hsite.fs] at hskips
      exact ⟨hresumes, fun out hout => .inl (hskips out hout)⟩
    · rw [hsite.fs, hsite.settings, hsite.directory] at hcollected'
      cases hcollected.symm.trans hcollected'
    · rw [hsite.fs, hsite.settings, hsite.directory] at hcollected'
      cases hcollected.symm.trans hcollected'
  · rw [hsession, hsession, hshown]
    exact ⟨.rfl, List.forall_mem_singleton.2 (.inr ⟨hnone, rfl⟩)⟩
  · rw [hsession, hsession, hshown]
    exact ⟨.rfl, List.forall_mem_nil _⟩

end Session

end DocRefs
