import DocRefs.Proofs.Assoc
import DocRefs.Proofs.Files.Altered
import DocRefs.Proofs.Roots
import DocRefs.Proofs.Workspace.Lint
import Mathlib.Data.List.Find

/-!
# Roots that are remembered of a disk

What a workspace remembers of roots is right for its disk (`Workspace.Knows`), and what a lint adds is right too
(`Workspace.Knows.lint`). Workspaces over one disk that remember what is right give a document the same diagnostics
(`Workspace.Knows.lint_value_eq`). Where only clean directories are remembered (`Roots.Recalls`) that stays so as long
as nothing with the marker's name is altered on the disk (`Roots.Recalls.of_altered`).
-/

namespace DocRefs

namespace Roots

/-- Every remembered root is that of a clean directory, and is the one that the disk says. -/
def Recalls (r : Roots) (disk : Disk) : Prop :=
  ∀ directory root, r.known.get? directory = some root →
    Path.Clean directory ∧ root = Path.nearestMarked disk.pathExists r.marker directory

variable {r : Roots} {disk disk' : Disk}

theorem recalls_empty (marker : String) (disk : Disk) : Recalls ⟨marker, .empty⟩ disk := by
  intro directory root h
  simp at h

/-- What is remembered stays right while nothing with the marker's name comes or goes. -/
theorem Recalls.of_altered (h : r.Recalls disk) (hdisk : disk.Proper) (hdisk' : disk'.Proper)
    (hcwd : disk'.cwd = disk.cwd)
    (hmarker : Path.IsName r.marker.toList) (hsame : ∀ above, above ++ [r.marker] ∉ Disk.Altered disk disk') :
    r.Recalls disk' := by
  intro directory root hknown
  obtain ⟨hclean, hroot⟩ := h directory root hknown
  refine ⟨hclean, hroot.trans (List.find?_congr fun a ha => ?_)⟩
  have ha := hclean.of_mem_ancestors ha
  obtain ⟨above, hplace⟩ := disk.exists_placeOf_join ha.absolute hmarker
  have hexists := Disk.pathExists_eq_of_notMem_altered hdisk hdisk' hcwd (hplace ▸ hsame above)
  rw [(ha.join hmarker).absolute_eq] at hexists
  exact hexists.symm

/-- What is remembered so is right. -/
theorem Recalls.right (h : r.Recalls disk) : r.Right disk.pathExists :=
  fun directory root hknown => (h directory root hknown).2

/-- What is remembered of a search from a clean directory is right, and of clean directories. -/
theorem Recalls.find (h : r.Recalls disk) {start : String} (hstart : Path.Clean start) :
    (r.find disk start).2.1.Recalls disk := by
  intro directory root hknown
  have hroot := (h.right.find disk.unchanged start).2.1 directory root hknown
  rw [Roots.find, get?_remember] at hknown
  split at hknown
  · rename_i hprobed
    exact ⟨hstart.of_mem_ancestors (r.mem_of_mem_probed disk hprobed), hroot⟩
  · exact ⟨(h directory root hknown).1, hroot⟩

/-- After a report that names the marker nothing is remembered. -/
theorem recalls_invalidate {changed : List String} (h : r.Recalls disk ∨ ∃ p ∈ changed, Path.basename p = r.marker) :
    (r.invalidate changed).2.Recalls disk := by
  rw [invalidate_eq]
  split
  · exact recalls_empty r.marker disk
  · rename_i hnone
    exact h.resolve_right hnone

end Roots

namespace Workspace

variable {w w' : Workspace Disk}

/-- A workspace whose marker is the one that is set, and which remembers no root that is wrong. -/
structure Recalls (w : Workspace Disk) : Prop where
  marker : w.roots.marker = w.settings.marker
  roots : w.roots.Recalls w.fs

/-- A new workspace remembers no root. -/
theorem recalls_new (disk : Disk) (env : Environment) (settings : Settings) :
    (Workspace.new disk env settings).Recalls :=
  ⟨rfl, Roots.recalls_empty _ _⟩

/-- A workspace whose marker is the one that is set, and of which every remembered root is right. -/
structure Knows (w : Workspace Disk) : Prop where
  marker : w.roots.marker = w.settings.marker
  roots : w.roots.Right w.fs.pathExists

/-- A new workspace remembers no root that is wrong. -/
theorem knows_new (disk : Disk) (env : Environment) (settings : Settings) : (Workspace.new disk env settings).Knows :=
  ⟨rfl, Roots.right_empty _ _⟩

theorem Recalls.knows (h : w.Recalls) : w.Knows :=
  ⟨h.marker, h.roots.right⟩

/-- The base directory of a document is the one that is set, or that of the nearest marker. -/
theorem Knows.baseFor_eq (h : w.Knows) (d : Document) :
    w.baseFor d =
      match w.rootOverride with
      | .ok (some dir) => dir
      | .ok none => (Path.nearestMarked w.fs.pathExists w.settings.marker (w.absolute d.dirname)).getD d.dirname
      | .error _ => d.dirname := by
  unfold baseFor
  cases w.rootOverride with
  | error e => rfl
  | ok override =>
    cases override with
    | some dir => rfl
    | none =>
      have hroot : (w.roots.find w.fs (w.absolute d.dirname)).1.root = _ :=
        (h.roots.find w.fs.unchanged (w.absolute d.dirname)).1
      rw [h.marker] at hroot
      exact congrArg (Option.getD · d.dirname) hroot

/-- Workspaces over disks on which the same paths lead to something give a document the same diagnostics if what they
remember is right. -/
theorem Knows.lint_value_eq (h : w.Knows) (h' : w'.Knows)
    (hexists : ∀ path, w'.fs.pathExists path = w.fs.pathExists path)
    (henv : w'.env = w.env) (hsettings : w'.settings = w.settings) {d : Document} {a a' : Answer Disk (List Diagnostic)}
    (ha : w.lint d = .ok a) (ha' : w'.lint d = .ok a') : a'.value = a.value := by
  have hbase : w'.baseFor d = w.baseFor d := by
    rw [h.baseFor_eq, h'.baseFor_eq, funext hexists, rootOverride, rootOverride, absolute, absolute, henv, hsettings]
  refine (lint_value_eq_iff ha' ha).2 fun _ _ r _ => ?_
  rw [sees, sees, hbase, hexists]

/-- A lint remembers what it searched for, if anything. -/
theorem lint_roots {d : Document} {a : Answer Disk (List Diagnostic)} (ha : w.lint d = .ok a) :
    a.workspace.roots = w.roots ∨ a.workspace.roots = (w.roots.find w.fs (w.absolute d.dirname)).2.1 := by
  obtain ⟨resolved, hresolved, hanswer⟩ := bind_eq_ok_iff.1 ha
  have hroots : resolved.workspace.roots = w.roots ∨
      resolved.workspace.roots = (w.roots.find w.fs (w.absolute d.dirname)).2.1 := by
    obtain ⟨override, -, hresolved⟩ := bind_eq_ok_iff.1 hresolved
    obtain ⟨refs, -, hresolved⟩ := bind_eq_ok_iff.1 hresolved
    cases refs with
    | nil =>
      obtain rfl := Except.ok.inj hresolved
      exact .inl rfl
    | cons r rs =>
      obtain rfl := Except.ok.inj hresolved
      cases override with
      | some dir => exact .inl rfl
      | none => exact .inr rfl
  obtain rfl := Except.ok.inj hanswer
  exact hroots

/-- A lint leaves the marker as it is. -/
theorem lint_marker {d : Document} {a : Answer Disk (List Diagnostic)} (ha : w.lint d = .ok a) :
    a.workspace.roots.marker = w.roots.marker := by
  rcases lint_roots ha with hroots | hroots <;> rw [hroots]
  rfl

/-- A lint leaves what is remembered right. -/
theorem Knows.lint (h : w.Knows) {d : Document} {a : Answer Disk (List Diagnostic)}
    (ha : w.lint d = .ok a) : a.workspace.Knows := by
  have hsame := (lint_eq ha).2
  refine ⟨?_, ?_⟩
  · rw [lint_marker ha, hsame.settings]
    exact h.marker
  · rw [hsame.fs]
    rcases lint_roots ha with hroots | hroots
    · rw [hroots]
      exact h.roots
    · rw [hroots]
      exact (h.roots.find w.fs.unchanged _).2.1

/-- A lint leaves what is remembered right, and of clean directories. -/
theorem recalls_lint (h : w.Recalls) (hcwd : Path.Clean w.env.cwd) {d : Document} {a : Answer Disk (List Diagnostic)}
    (ha : w.lint d = .ok a) : a.workspace.Recalls := by
  have hsame := (lint_eq ha).2
  refine ⟨?_, ?_⟩
  · rw [lint_marker ha, hsame.settings]
    exact h.marker
  · rw [hsame.fs]
    rcases lint_roots ha with hroots | hroots
    · rw [hroots]
      exact h.roots
    · rw [hroots]
      exact h.roots.find (Path.clean_absolute hcwd _)

end Workspace

end DocRefs
