import DocRefs.Command.Run
import DocRefs.Proofs.Settings

/-!
# Settings that cannot be used

A command loads settings before it does anything else (`Command.run_of_openWorkspace`). Settings that cannot be used are
refused, and the command exits with code 2. There are two exceptions (`Command.settings_surface`): a number of
milliseconds too large for the quiet interval, and a root directory that begins with a tilde for which there is no home
to put, end the command without an exit code.
-/

namespace DocRefs.Command

/-- The options for the root directory and the marker that a command opens its workspace with. -/
def workspaceOptions? : Command → Option (Option FilePath × Option String)
  | help => none
  | lint _ rootDir marker _ => some (rootDir, marker)
  | refs _ rootDir marker => some (rootDir, marker)
  | links _ rootDir marker => some (rootDir, marker)
  | complete _ _ _ rootDir marker => some (rootDir, marker)
  | root _ marker => some (none, marker)
  | watch _ rootDir marker => some (rootDir, marker)
  | serveHttp _ _ => some (none, none)
  | serveTools _ => some (none, none)

/-- A command that cannot open its workspace ends so. -/
theorem run_of_openWorkspace {m : Machine} {c : Command} {options : Option FilePath × Option String} {r : CommandResult}
    (hc : c.workspaceOptions? = some options) (h : openWorkspace m options.1 options.2 = .error r) : c.run m = r := by
  cases c with
  | help => cases hc
  | _ =>
    obtain rfl := Option.some.inj hc
    simp only at h
    rw [run, h]
    rfl

variable {env : Environment} {disk : Disk} {events : List WatchEvent} {root marker : Option String} {e : SettingsError}

/-- What ends the loading of settings ends the opening of a workspace: with exit code 2 if it is a refusal. -/
theorem openWorkspace_error (h : Settings.load env disk (Settings.optionsFor root marker) = .error e) :
    openWorkspace ⟨env, disk, events⟩ (root.map .ofString) marker =
      .error (if e.isRefusal then exitWith 2 (.say s!"[red]{e.message}[/red]") else ⟨.error (.settings e), {}⟩) := by
  have hoptions : [("root_dir", (root.map FilePath.ofString).elim .null fun p => .text p.toString),
      ("marker_filename", marker.elim .null .text)] = Settings.optionsFor root marker := by
    cases root <;> rfl
  rw [openWorkspace, hoptions, h]
  simp only
  split <;> rfl

/-- Settings that are loaded as they are asked for and fit for use, or else refused, so that every command exits with
code 2. -/
def Surfaces (env : Environment) (disk : Disk) (root marker : Option String) : Prop :=
  (∃ s, Settings.load env disk (Settings.optionsFor root marker) = .ok s ∧ Settings.Loaded env disk root marker s) ∨
  ∃ e, Settings.load env disk (Settings.optionsFor root marker) = .error e ∧ e.isRefusal = true ∧
    ∀ events c, workspaceOptions? c = some (root.map .ofString, marker) →
      c.run ⟨env, disk, events⟩ = exitWith 2 (.say s!"[red]{e.message}[/red]")

/-- A refusal makes every command exit with code 2. -/
theorem surfaces_of_refusal (h : Settings.load env disk (Settings.optionsFor root marker) = .error e)
    (hrefusal : e.isRefusal = true) : Surfaces env disk root marker := by
  refine .inr ⟨e, h, hrefusal, fun events c hc => ?_⟩
  rw [run_of_openWorkspace hc (openWorkspace_error h), if_pos hrefusal]

/-- What ends the loading without being a refusal does not surface. -/
theorem not_surfaces (h : Settings.load env disk (Settings.optionsFor root marker) = .error e)
    (hrefusal : e.isRefusal = false) : ¬ Surfaces env disk root marker := by
  rintro (⟨s, hs, -⟩ | ⟨e', he', hrefusal', -⟩)
  · rw [h] at hs
    cases hs
  · obtain rfl := Except.error.inj (h.symm.trans he')
    rw [hrefusal] at hrefusal'
    cases hrefusal'

/-- What is no refusal ends a command without an exit code. -/
theorem exit_of_escape (h : Settings.load env disk (Settings.optionsFor root marker) = .error e)
    (hescape : e.isRefusal = false)
    (events : List WatchEvent) {c : Command} (hc : workspaceOptions? c = some (root.map .ofString, marker)) :
    (c.run ⟨env, disk, events⟩).exit = .error (.settings e) := by
  rw [run_of_openWorkspace hc (openWorkspace_error h), if_neg (Bool.eq_false_iff.1 hescape)]

/-- Settings are loaded or refused unless the quiet interval is too large, or the root directory begins with a tilde for
which there is no home to put and the quiet interval is not refused before. What comes of these two ends every command
without an exit code. -/
theorem settings_surface (env : Environment) (disk : Disk) (root marker : Option String) :
    (Surfaces env disk root marker ↔ ¬ Settings.TakesDelay env (.infinite false) ∧
      ((∃ seconds, Settings.TakesDelay env seconds) → ∀ cause, ¬ Settings.HomeUnknown env root cause)) ∧
    (¬ Surfaces env disk root marker → ∃ e, Settings.load env disk (Settings.optionsFor root marker) = .error e ∧
      (e = .tooLarge ∧ Settings.TakesDelay env (.infinite false) ∨
        ∃ cause, e = .noHome cause ∧ Settings.HomeUnknown env root cause) ∧
      ∀ events c, workspaceOptions? c = some (root.map .ofString, marker) →
        (c.run ⟨env, disk, events⟩).exit = .error (.settings e)) := by
  rcases Settings.load_cases env disk root marker with ⟨e, he, hrefusal, hnone⟩ | ⟨he, hlarge⟩ |
    ⟨⟨seconds, htakes, hfinite⟩, hrest⟩
  · have hsurfaces := surfaces_of_refusal he hrefusal
    exact ⟨iff_of_true hsurfaces ⟨hnone _, fun ⟨seconds, htakes⟩ => absurd htakes (hnone seconds)⟩,
      fun hnot => absurd hsurfaces hnot⟩
  · refine ⟨iff_of_false (not_surfaces he rfl) fun hboth => hboth.1 hlarge, fun _ => ?_⟩
    exact ⟨_, he, .inl ⟨rfl, hlarge⟩, fun events c hc => exit_of_escape he rfl events hc⟩
  · have hread : ¬ Settings.TakesDelay env (.infinite false) := fun hlarge => hfinite (htakes.unique hlarge)
    rcases hrest with ⟨cause, he, hunknown⟩ | ⟨hknown, hloaded⟩
    · refine ⟨iff_of_false (not_surfaces he rfl) fun hboth => hboth.2 ⟨seconds, htakes⟩ cause hunknown, fun _ => ?_⟩
      exact ⟨_, he, .inr ⟨cause, rfl, hunknown⟩, fun events c hc => exit_of_escape he rfl events hc⟩
    · have hsurfaces : Surfaces env disk root marker := by
        rcases hloaded with ⟨e, he, hrefusal⟩ | hok
        · exact surfaces_of_refusal he hrefusal
        · exact .inl hok
      exact ⟨iff_of_true hsurfaces ⟨hread, fun _ => hknown⟩, fun hnot => absurd hsurfaces hnot⟩

/-- So many milliseconds that the seconds are no number, and a root directory in the home of a user who is not among
those that are known: neither is refused, and no workspace is opened. -/
theorem settings_escape :
    let overflowing : Environment :=
      { vars := ⟨[(Settings.debounceVariable, String.ofList ('1' :: List.replicate 312 '0'))]⟩ }
    let peopled : Environment := { homes := ⟨[("root", "/root")]⟩ }
    (Settings.load overflowing {} (Settings.optionsFor none none) = .error .tooLarge ∧
      ¬ Surfaces overflowing {} none none) ∧
    Settings.load peopled {} (Settings.optionsFor (some "~nosuchuser_q/x") none) = .error (.noHome .unknown) ∧
      ¬ Surfaces peopled {} (some "~nosuchuser_q/x") none ∧
      ((Command.lint [] (some (.ofString "~nosuchuser_q/x")) none false).run ⟨peopled, {}, []⟩).exit =
        .error (.settings (.noHome .unknown)) := by
  intro overflowing peopled
  have hset : ∀ raw : String, Assoc.get? ⟨[(Settings.debounceVariable, raw)]⟩ Settings.debounceVariable = some raw := by
    simp [Assoc.get?]
  have hfilled : (String.ofList ('1' :: List.replicate 312 '0')).toList.all isSpacing = false := by
    rw [String.toList_ofList]
    rfl
  have hnumber : Numeral.wholeNumber? (String.ofList ('1' :: List.replicate 312 '0')).toList =
      some ((10 ^ 312 : Nat) : Int) := by
    rw [String.toList_ofList]
    decide +kernel
  have hlarge : Settings.load overflowing {} (Settings.optionsFor none none) = .error .tooLarge :=
    Settings.load_of_tooLarge (.millis _ _ (hset _) hfilled hnumber (by decide +kernel))
  have hunknown : Settings.HomeUnknown peopled (some "~nosuchuser_q/x") .unknown :=
    ⟨_, rfl, FilePath.expandHome_eq_error_iff.1 rfl⟩
  have hhome : Settings.load peopled {} (Settings.optionsFor (some "~nosuchuser_q/x") none) =
    .error (.noHome .unknown) :=
    Settings.load_of_homeUnknown hunknown (.unset rfl rfl) (by decide +kernel)
  exact ⟨⟨hlarge, not_surfaces hlarge rfl⟩, hhome, not_surfaces hhome rfl, exit_of_escape hhome rfl [] rfl⟩

end DocRefs.Command
