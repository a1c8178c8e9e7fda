import DocRefs.Proofs.Roots.Nearest
import DocRefs.Proofs.Workspace.Recall
import DocRefs.Proofs.Workspace.Requests

/-!
# A lint that is repeated

What a lint searches for is remembered for the directory of the document, and what is remembered stays as it is as long
as nothing is forgotten. So a document that is linted again over the same disk, however many others were linted
meanwhile, gets the diagnostics that it got before (`Workspace.lint_again`), even where what is remembered is not right
any more.
-/

namespace DocRefs

namespace Workspace

/-- A workspace that goes on from another one over the same disk, and remembers every root that is remembered there. -/
structure Continues (w w' : Workspace Disk) : Prop where
  fs : w'.fs = w.fs
  env : w'.env = w.env
  settings : w'.settings = w.settings
  known : ∀ directory root, w.roots.known.get? directory = some root → w'.roots.known.get? directory = some root

variable {w w' w'' : Workspace Disk} {d : Document}

theorem Continues.rfl : Continues w w :=
  ⟨Eq.refl _, Eq.refl _, Eq.refl _, fun _ _ => id⟩

theorem Continues.trans (h : Continues w w') (h' : Continues w' w'') : Continues w w'' :=
  ⟨h'.fs.trans h.fs, h'.env.trans h.env, h'.settings.trans h.settings,
    fun directory root hknown => h'.known directory root (h.known directory root hknown)⟩

/-- The root that is set stays. -/
theorem Continues.rootOverride_eq (h : Continues w w') : w'.rootOverride = w.rootOverride := by
  rw [rootOverride, rootOverride, h.settings, h.env]

theorem Continues.cwd (h : Continues w w') (hcwd : w.fs.cwd = w.env.cwd) : w'.fs.cwd = w'.env.cwd := by
  rw [h.fs, h.env, hcwd]

theorem Continues.absolute (h : Continues w w') (path : String) : w'.absolute path = w.absolute path := by
  rw [Workspace.absolute, Workspace.absolute, h.env]

/-- A document can be linted again where it could be linted before. -/
theorem Continues.lint_isOk (h : Continues w w') : (∃ a, w'.lint d = .ok a) ↔ ∃ a, w.lint d = .ok a := by
  rw [lint_isOk_iff, lint_isOk_iff, resolve_isOk_iff, resolve_isOk_iff, h.rootOverride_eq]

/-- For a document with references the root of its directory is searched, unless one is set. -/
theorem lint_roots_of_searched {a : Answer Disk (List Diagnostic)} (ha : w.lint d = .ok a)
    (hoverride : w.rootOverride = .ok none)
    {r : Reference} {rs : List Reference} (hscan : Reference.scan d.text = .ok (r :: rs)) :
    a.workspace.roots = (w.roots.find w.fs (w.absolute d.dirname)).2.1 := by
  obtain ⟨resolved, hresolved, hanswer⟩ := bind_eq_ok_iff.1 ha
  obtain ⟨override, hset, hresolved⟩ := bind_eq_ok_iff.1 hresolved
  obtain ⟨refs, hrefs, hresolved⟩ := bind_eq_ok_iff.1 hresolved
  rw [mapError_eq_ok_iff] at hset hrefs
  obtain rfl := Except.ok.inj (hoverride.symm.trans hset)
  obtain rfl := Except.ok.inj (hscan.symm.trans hrefs)
  obtain rfl := Except.ok.inj hresolved
  obtain rfl := Except.ok.inj hanswer
  rfl

/-- A lint goes on from the workspace that it began in. -/
theorem lint_continues {a : Answer Disk (List Diagnostic)} (ha : w.lint d = .ok a) : Continues w a.workspace := by
  have hsame := (lint_eq ha).2
  refine ⟨hsame.fs, hsame.env, hsame.settings, ?_⟩
  intro directory root hknown
  rcases lint_roots ha with hroots | hroots
  · rw [hroots]
    exact hknown
  · rw [hroots]
    exact Roots.known_find_of_known hknown w.fs _

/-- The base directory of a document that was linted is the same ever after. -/
theorem baseFor_again {a : Answer Disk (List Diagnostic)} (ha : w.lint d = .ok a)
    (h : Continues a.workspace w') {r : Reference}
    {rs : List Reference} (hscan : Reference.scan d.text = .ok (r :: rs)) : w'.baseFor d = w.baseFor d := by
  have hall := (lint_continues ha).trans h
  unfold baseFor
  rw [hall.rootOverride_eq]
  cases hoverride : w.rootOverride with
  | error e => rfl
  | ok override =>
    cases override with
    | some dir => rfl
    | none =>
      have hknown : w'.roots.known.get? (w.absolute d.dirname) =
          some (w.roots.find w.fs (w.absolute d.dirname)).1.root := by
        refine h.known _ _ ?_
        rw [lint_roots_of_searched ha hoverride hscan]
        exact w.roots.known_find w.fs _
      have hfound : (w'.roots.find w'.fs (w'.absolute d.dirname)).1.root =
          (w.roots.find w.fs (w.absolute d.dirname)).1.root := by
        rw [hall.absolute, Roots.find_known hknown]
      exact congrArg (Option.getD · d.dirname) hfound

/-- A document that is linted again gets the diagnostics that it got before. -/
theorem lint_again {a a' : Answer Disk (List Diagnostic)} (ha : w.lint d = .ok a) (h : Continues a.workspace w')
    (ha' : w'.lint d = .ok a') : a'.value = a.value := by
  refine (lint_value_eq_iff ha' ha).2 ?_
  intro refs hscan r hr
  obtain ⟨first, rest, rfl⟩ := List.exists_cons_of_ne_nil (List.ne_nil_of_mem hr)
  rw [sees, sees, baseFor_again ha h hscan, ((lint_continues ha).trans h).fs]

end Workspace

end DocRefs
