import DocRefs.Proofs.Diagnostic
import DocRefs.Workspace

/-!
# What a lint depends on

Over a disk, which answers without changing, the diagnostics of a document depend on the disk and on the base directory
alone (`Workspace.lint_eq`), and two workspaces give a document the same ones exactly when they agree on which of its
references have a target (`Workspace.lint_value_eq_iff`).
-/

namespace DocRefs

/-- A search leaves a disk as it is. -/
theorem Roots.walk_disk (r : Roots) (disk : Disk) (directories : List String) : (r.walk disk directories).2 = disk := by
  induction directories with
  | nil => rfl
  | cons d ds ih =>
    rw [walk]
    split
    · rfl
    · simp only [FileSystem.pathExists]
      split
      · rfl
      · exact ih

namespace Workspace

variable {w w' : Workspace Disk}

/-- Two workspaces that differ at most in the roots that they remember. -/
structure SameButRoots (w w' : Workspace Disk) : Prop where
  fs : w'.fs = w.fs
  env : w'.env = w.env
  settings : w'.settings = w.settings
  diagnostics : w'.diagnostics = w.diagnostics

/-- Selecting a base directory changes nothing but what is remembered of roots. -/
theorem sameButRoots_selectBaseDir (w : Workspace Disk) (documentDir : String) (override : Option String) :
    SameButRoots w (w.selectBaseDir documentDir override).workspace := by
  cases override with
  | some dir => exact ⟨rfl, rfl, rfl, rfl⟩
  | none => exact ⟨w.roots.walk_disk w.fs _, rfl, rfl, rfl⟩

/-- References are resolved one by one. -/
theorem resolveAll_disk (disk : Disk) (base : String) (references : List Reference) :
    resolveAll base references disk =
      (references.map fun r => ⟨r, resolvePath base r.filePath, disk.pathExists (resolvePath base r.filePath)⟩,
        disk) := by
  induction references with
  | nil => rfl
  | cons r rs ih =>
    simp only [resolveAll, resolveReference, FileSystem.pathExists, List.map_cons] at ih ⊢
    rw [ih]

/-- The directory that the references of a document would be taken from now. -/
def baseFor (w : Workspace Disk) (d : Document) : String :=
  match w.rootOverride with
  | .ok override => (w.selectBaseDir d.dirname override).value
  | .error _ => d.dirname

/-- Whether a reference of a document has a target now. -/
def sees (w : Workspace Disk) (d : Document) (r : Reference) : Bool :=
  w.fs.pathExists (resolvePath (w.baseFor d) r.filePath)

/-- The references of a document are resolved against one directory on the disk, and nothing changes but the roots that
are remembered. -/
theorem resolve_eq {d : Document} {a : Answer Disk (List ResolvedReference)} (h : w.resolve d = .ok a) :
    ∃ refs, Reference.scan d.text = .ok refs ∧
      a.value = refs.map (fun r => ⟨r, resolvePath (w.baseFor d) r.filePath, w.sees d r⟩) ∧
      SameButRoots w a.workspace := by
  obtain ⟨override, hoverride, hresolved⟩ := bind_eq_ok_iff.1 h
  obtain ⟨refs, hscan, hresolved⟩ := bind_eq_ok_iff.1 hresolved
  rw [mapError_eq_ok_iff] at hoverride hscan
  refine ⟨refs, hscan, ?_⟩
  clear h
  cases refs with
  | nil =>
    obtain rfl := Except.ok.inj hresolved
    exact ⟨rfl, rfl, rfl, rfl, rfl⟩
  | cons r rs =>
    have hsame := sameButRoots_selectBaseDir w d.dirname override
    have hbase : w.baseFor d = (w.selectBaseDir d.dirname override).value := by rw [baseFor, hoverride]
    have hall := resolveAll_disk w.fs (w.baseFor d) (r :: rs)
    rw [← hsame.fs, hbase] at hall
    simp only [hall] at hresolved
    obtain rfl := Except.ok.inj hresolved
    refine ⟨?_, hsame.fs, hsame.env, hsame.settings, hsame.diagnostics⟩
    simp only [sees, hbase, hsame.fs]

/-- The diagnostics of a document are those of its references without a target. They are stored, and nothing else
changes but the roots that are remembered. -/
theorem lint_eq {d : Document} {a : Answer Disk (List Diagnostic)} (h : w.lint d = .ok a) :
    (∃ refs, Reference.scan d.text = .ok refs ∧
      a.value = Diagnostic.ofReferences d (refs.map fun r => ⟨r, resolvePath (w.baseFor d) r.filePath, w.sees d r⟩)) ∧
    SameButRoots { w with diagnostics := w.diagnostics.insert d.path a.value } a.workspace := by
  obtain ⟨resolved, hresolved, ha⟩ := bind_eq_ok_iff.1 h
  obtain ⟨refs, hscan, hvalue, hsame⟩ := resolve_eq hresolved
  clear h
  obtain rfl := Except.ok.inj ha
  refine ⟨⟨refs, hscan, ?_⟩, hsame.fs, hsame.env, hsame.settings, ?_⟩
  · change Diagnostic.ofReferences d resolved.value = _
    rw [hvalue]
  · change resolved.workspace.diagnostics.insert d.path _ = w.diagnostics.insert d.path _
    rw [hsame.diagnostics]

/-- Two workspaces give a document the same diagnostics exactly when they agree on which of its references have a
target. -/
theorem lint_value_eq_iff {d : Document} {a a' : Answer Disk (List Diagnostic)} (h : w.lint d = .ok a)
    (h' : w'.lint d = .ok a') :
    a.value = a'.value ↔ ∀ refs, Reference.scan d.text = .ok refs → ∀ r ∈ refs, w.sees d r = w'.sees d r := by
  obtain ⟨refs, hrefs, hvalue⟩ := (lint_eq h).1
  obtain ⟨refs', hrefs', hvalue'⟩ := (lint_eq h').1
  obtain rfl := Except.ok.inj (hrefs.symm.trans hrefs')
  rw [hvalue, hvalue', Diagnostic.ofReferences_eq_iff hrefs]
  constructor
  · intro hall others hothers
    rwa [← Except.ok.inj (hrefs.symm.trans hothers)]
  · exact fun hall => hall refs hrefs

end Workspace

end DocRefs
