import DocRefs.Proofs.Attempts
import DocRefs.Proofs.Roots.Nearest
import DocRefs.Workspace

/-!
# Requests over unchanged files

Over files that nobody changes, what a workspace remembers of roots is right, and every request leaves it so
(`Workspace.Steady`). What is remembered then never shows: the references of a document are resolved against a directory
that the files and the settings alone determine, and each has a target or none by the files alone
(`Workspace.Steady.resolve`). Diagnostics and links are made from these references (`Workspace.Steady.lint`,
`Workspace.Steady.links`), and a lint is the only request that changes what is stored.
-/

namespace DocRefs

open FileSystem (Unchanged)

variable {σ : Type} [FileSystem σ] {there : String → Bool}

/-- Reading a listing leaves unchanged files as they are. -/
theorem Listings.unchanged_get {place : σ} (h : Unchanged place there) (l : Listings) (directory : String) :
    Unchanged (l.get place directory).2.2 there := by
  have hread := h.entries (Path.normalize directory)
  rw [Listings.get]
  split
  · exact h
  · generalize FileSystem.listDirectory place (Path.normalize directory) = answer at hread
    obtain ⟨entries | e, after⟩ := answer
    · exact hread
    · exact hread

namespace Workspace

/-- The directory that the references of a document in a directory are taken from where certain paths lead to
something. -/
def baseAmong (there : String → Bool) (env : Environment) (settings : Settings) (documentDir : String)
    (override : Option String) : String :=
  override.getD ((Path.nearestMarked there settings.marker (Path.absolute env.cwd documentDir)).getD documentDir)

/-- References resolved against a directory where certain paths lead to something. -/
def resolvedAmong (there : String → Bool) (base : String) (references : List Reference) : List ResolvedReference :=
  references.map fun r =>
    { r with absolutePath := resolvePath base r.filePath, present := there (resolvePath base r.filePath) }

/-- The references of a document, resolved where certain paths lead to something. -/
def ResolvesTo (there : String → Bool) (env : Environment) (settings : Settings) (d : Document)
    (resolved : List ResolvedReference) : Prop :=
  ∃ override references, settings.resolvedRootDir env = .ok override ∧ Reference.scan d.text = .ok references ∧
    resolved = resolvedAmong there (baseAmong there env settings d.dirname override) references

/-- A workspace over files that nobody changes, of which every remembered root is right. -/
structure Steady (there : String → Bool) (env : Environment) (settings : Settings) (w : Workspace σ) : Prop where
  files : Unchanged w.fs there
  marker : w.roots.marker = settings.marker
  roots : w.roots.Right there
  env : w.env = env
  settings : w.settings = settings

variable {env : Environment} {settings : Settings} {w : Workspace σ}

/-- A new workspace over unchanged files is steady. -/
theorem steady_new {fs : σ} (h : Unchanged fs there) (env : Environment) (settings : Settings) :
    (new fs env settings).Steady there env settings :=
  ⟨h, rfl, Roots.right_empty _ _, rfl, rfl⟩

/-- References are resolved by what is there, which stays unchanged. -/
theorem resolveAll_unchanged {fs : σ} (h : Unchanged fs there) (base : String) (references : List Reference) :
    (resolveAll base references fs).1 = resolvedAmong there base references ∧
    Unchanged (resolveAll base references fs).2 there := by
  induction references generalizing fs with
  | nil => exact ⟨rfl, h⟩
  | cons r rs ih =>
    obtain ⟨hrest, hunchanged⟩ := ih (h.presence (resolvePath base r.filePath))
    refine ⟨?_, hunchanged⟩
    simp only [resolveAll, resolveReference, h.pathExists_eq, hrest, resolvedAmong, List.map_cons]

namespace Steady

/-- The root that is found is the nearest one. -/
theorem findRoot (h : w.Steady there env settings) (start : String) :
    (w.findRoot start).value = Path.nearestMarked there settings.marker (Path.absolute env.cwd start) ∧
      (w.findRoot start).workspace.Steady there env settings := by
  obtain ⟨hroot, hright, hfiles⟩ := h.roots.find h.files (w.absolute start)
  refine ⟨?_, hfiles, h.marker, hright, h.env, h.settings⟩
  rw [← h.marker, ← h.env]
  exact hroot

/-- The directory that is chosen is that of the settings, or else the nearest root, and nothing that is stored
changes. -/
theorem selectBaseDir (h : w.Steady there env settings) (documentDir : String) (override : Option String) :
    (w.selectBaseDir documentDir override).value = baseAmong there env settings documentDir override ∧
      (w.selectBaseDir documentDir override).workspace.Steady there env settings ∧
      (w.selectBaseDir documentDir override).workspace.diagnostics = w.diagnostics := by
  cases override with
  | some dir => exact ⟨rfl, h, rfl⟩
  | none =>
    obtain ⟨hroot, hsteady⟩ := h.findRoot documentDir
    exact ⟨congrArg (Option.getD · documentDir) hroot, hsteady, rfl⟩

/-- Asking for the base directory of a document leaves a steady workspace, and what is stored. -/
theorem baseDir (h : w.Steady there env settings) {documentDir : String} {a : Answer σ String}
    (ha : w.baseDir documentDir = .ok a) :
    a.workspace.Steady there env settings ∧ a.workspace.diagnostics = w.diagnostics := by
  obtain ⟨override, -, ha⟩ := bind_eq_ok_iff.1 ha
  obtain rfl := Except.ok.inj ha
  exact (h.selectBaseDir documentDir override).2

/-- A listing leaves a steady workspace. -/
theorem listing (h : w.Steady there env settings) (directory : String) :
    (w.listing directory).workspace.Steady there env settings :=
  ⟨w.listings.unchanged_get h.files directory, h.marker, h.roots, h.env, h.settings⟩

/-- A completion leaves a steady workspace, and what is stored. -/
theorem complete (h : w.Steady there env settings) {d : Document} {position : Position} {cancel : Cancellation}
    {a : Answer σ (Option (List Candidate))} (ha : w.complete d position cancel = .ok a) :
    a.workspace.Steady there env settings ∧ a.workspace.diagnostics = w.diagnostics := by
  obtain ⟨override, -, ha⟩ := bind_eq_ok_iff.1 ha
  obtain rfl := Except.ok.inj ha
  obtain ⟨-, hbase, hsame⟩ := h.selectBaseDir d.dirname override
  unfold completePath
  split
  · exact ⟨h, rfl⟩
  · simp only
    split
    · exact ⟨hbase, hsame⟩
    · exact ⟨hbase.listing _, hsame⟩

/-- A report leaves a steady workspace. -/
theorem filesChanged (h : w.Steady there env settings) (paths : List String) :
    (w.filesChanged paths).workspace.Steady there env settings :=
  ⟨h.files, (Roots.invalidate_marker _ _).trans h.marker, Roots.right_invalidate (.inl h.roots), h.env, h.settings⟩

theorem dropDiagnostics (h : w.Steady there env settings) (path : String) :
    (w.dropDiagnostics path).Steady there env settings :=
  ⟨h.files, h.marker, h.roots, h.env, h.settings⟩

theorem close (h : w.Steady there env settings) : w.close.Steady there env settings :=
  ⟨h.files, h.marker, Roots.right_empty _ _, h.env, h.settings⟩

/-- The references of a document are resolved as the files say, and nothing that is stored changes. -/
theorem resolve (h : w.Steady there env settings) {d : Document} {a : Answer σ (List ResolvedReference)}
    (ha : w.resolve d = .ok a) :
    ResolvesTo there env settings d a.value ∧ a.workspace.Steady there env settings ∧
    a.workspace.diagnostics = w.diagnostics := by
  obtain ⟨override, hoverride, ha⟩ := bind_eq_ok_iff.1 ha
  obtain ⟨references, hscan, ha⟩ := bind_eq_ok_iff.1 ha
  rw [mapError_eq_ok_iff] at hoverride hscan
  rw [rootOverride, h.settings, h.env] at hoverride
  cases references with
  | nil =>
    obtain rfl := Except.ok.inj ha
    exact ⟨⟨override, [], hoverride, hscan, rfl⟩, h, rfl⟩
  | cons r rs =>
    obtain rfl := Except.ok.inj ha
    obtain ⟨hbase, hsteady, hsame⟩ := h.selectBaseDir d.dirname override
    obtain ⟨hall, hfiles⟩ := resolveAll_unchanged hsteady.files (w.selectBaseDir d.dirname override).value (r :: rs)
    refine ⟨⟨override, r :: rs, hoverride, hscan, ?_⟩,
      ⟨hfiles, hsteady.marker, hsteady.roots, hsteady.env, hsteady.settings⟩, hsame⟩
    rw [← hbase]
    exact hall

/-- A lint stores the diagnostics of the references that have no target. -/
theorem lint (h : w.Steady there env settings) {d : Document} {a : Answer σ (List Diagnostic)} (ha : w.lint d = .ok a) :
    (∃ resolved, ResolvesTo there env settings d resolved ∧ a.value = Diagnostic.ofReferences d resolved) ∧
      a.workspace.Steady there env settings ∧ a.workspace.diagnostics = w.diagnostics.insert d.path a.value := by
  obtain ⟨resolved, hresolved, ha⟩ := bind_eq_ok_iff.1 ha
  obtain rfl := Except.ok.inj ha
  obtain ⟨hvalue, hsteady, hsame⟩ := h.resolve hresolved
  refine ⟨⟨resolved.value, hvalue, rfl⟩,
    ⟨hsteady.files, hsteady.marker, hsteady.roots, hsteady.env, hsteady.settings⟩, ?_⟩
  rw [← hsame]

/-- The links of a document are those of the references that have a target. -/
theorem links (h : w.Steady there env settings) {d : Document} {a : Answer σ (List Link)} (ha : w.links d = .ok a) :
    (∃ resolved, ResolvesTo there env settings d resolved ∧ a.value = Link.ofReferences d resolved) ∧
      a.workspace.Steady there env settings ∧ a.workspace.diagnostics = w.diagnostics := by
  obtain ⟨resolved, hresolved, ha⟩ := bind_eq_ok_iff.1 ha
  obtain rfl := Except.ok.inj ha
  obtain ⟨hvalue, hsteady, hsame⟩ := h.resolve hresolved
  exact ⟨⟨resolved.value, hvalue, rfl⟩, hsteady, hsame⟩

end Steady

end Workspace

end DocRefs
