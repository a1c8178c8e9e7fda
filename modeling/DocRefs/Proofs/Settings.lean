import DocRefs.Proofs.Path.FilePath
import DocRefs.Settings

/-!
# Where settings come from

A setting is taken from its option, or else from its variable unless that is empty, or else it is the default
(`Settings.wanted`); the quiet interval has a variable only, which may be blank too (`Settings.TakesDelay`). No field is
at fault then (`Settings.ofValue_fields`), so that what is refused is the quiet interval, the root directory or the
marker (`Settings.load_eq`). Two things that cannot be used are not refused, but end the loading otherwise: a quiet
interval that is too large a number, and a root directory below a home that is not known (`Settings.load_cases`).
-/

namespace DocRefs

/-! ## The fields of a record -/

/-- Of the fields that are listed last those win. -/
theorem Value.field?_append (name : String) (fields more : List (String × Value)) :
    (object (fields ++ more)).field? name = ((object more).field? name).or ((object fields).field? name) := by
  simp only [Value.field?, List.reverse_append, List.find?_append, Option.map_or]

namespace Checked

variable {v : Value} {name : String} {given : Option String}

/-- A text is taken from its field, or else it is the default. -/
theorem optional_text (h : v.field? name = given.map .text) (default : String) :
    optional name default text v = .ok (given.getD default) := by
  rw [optional, h]
  cases given <;> rfl

/-- A path is taken from its field, if that is there. -/
theorem optional_path (h : v.field? name = given.map .text) :
    optional name none (nullable Settings.checkPath) v = .ok (given.map .ofString) := by
  rw [optional, h]
  cases given <;> rfl

/-- A number is taken from its field, or else it is the default. -/
theorem optional_number {x : Option Binary64} (h : v.field? name = x.map .number) (default : Binary64) :
    optional name default number v = .ok (x.getD default) := by
  rw [optional, h]
  cases x <;> rfl

/-- Without a field the default is taken. -/
theorem optional_none {α : Type} (h : v.field? name = none) (default : α) (check : Value → Checked α) :
    optional name default check v = .ok default := by
  rw [optional, h]

end Checked

namespace Settings

/-! ## Options, variables and defaults -/

/-- What a variable is set to, unless that is empty. -/
def filled (env : Environment) (name : String) : Option String :=
  (env.vars.get? name).filter (· ≠ "")

/-- The settings that the options for the root directory and the marker ask for, with a quiet interval. -/
def wanted (env : Environment) (root marker : Option String) (delay : Option Binary64) : Settings where
  rootDir := (root.or (filled env rootVariable)).map .ofString
  workspaceRoot := (filled env workspaceVariable).map .ofString
  marker := (marker.or (filled env markerVariable)).getD "mkdocs.yml"
  debounce := delay.getD (.ofQuotient false 1 2)

/-- The options for the root directory and the marker. -/
def optionsFor (root marker : Option String) : List (String × Value) :=
  [("root_dir", root.elim .null fun s => .text (FilePath.ofString s).toString),
    ("marker_filename", marker.elim .null .text)]

/-- The fields that are made of variables, a quiet interval and the options that are given. -/
def fieldsFor (env : Environment) (root marker : Option String) (delay : Option Binary64) : List (String × Value) :=
  fieldFrom env rootVariable "root_dir" ++ fieldFrom env workspaceVariable "workspace_root" ++
    fieldFrom env markerVariable "marker_filename" ++
    (delay.map fun seconds => ("debounce_seconds", Value.number seconds)).toList ++
    (optionsFor root marker).filter fun (_, v) => match v with
      | .null => false
      | _ => true

/-- A filled variable is a field, and another one is none. -/
theorem field?_fieldFrom (env : Environment) (source field name : String) :
    (Value.object (fieldFrom env source field)).field? name = if field = name then
      (filled env source).map .text else none := by
  rw [fieldFrom, filled]
  cases env.vars.get? source with
  | none => simp [Value.field?]
  | some text =>
    by_cases htext : text = "" <;> by_cases hname : field = name <;>
      simp [Value.field?, Option.filter_some, htext, hname]

/-- Each field has its option, or else its variable, or is left out. -/
theorem field?_fieldsFor (env : Environment) (root marker : Option String) (delay : Option Binary64) :
    let v := Value.object (fieldsFor env root marker delay)
    v.field? "root_dir" = ((root.map fun s => (FilePath.ofString s).toString).or (filled env rootVariable)).map .text ∧
      v.field? "workspace_root" = (filled env workspaceVariable).map .text ∧
      v.field? "marker_filename" = (marker.or (filled env markerVariable)).map .text ∧
      v.field? "debounce_seconds" = delay.map .number ∧ v.field? "document_suffixes" = none := by
  simp only [fieldsFor, Value.field?_append, field?_fieldFrom]
  cases root <;> cases marker <;> cases delay <;> simp [Value.field?, optionsFor]

/-- No field is at fault that is made so. -/
theorem ofValue_fields (env : Environment) (root marker : Option String) (delay : Option Binary64) :
    ofValue (.object (fieldsFor env root marker delay)) = .ok (wanted env root marker delay) := by
  obtain ⟨hroot, hworkspace, hmarker, hdelay, hsuffixes⟩ := field?_fieldsFor env root marker delay
  have hpath : ((root.map fun s => (FilePath.ofString s).toString).or (filled env rootVariable)).map FilePath.ofString =
      (root.or (filled env rootVariable)).map .ofString := by
    cases root with
    | none => rfl
    | some s => exact congrArg some (FilePath.ofString_toString s)
  rw [ofValue, Checked.optional_path hroot, Checked.optional_path hworkspace, Checked.optional_text hmarker,
    Checked.optional_number hdelay, Checked.optional_none hsuffixes, hpath]
  simp only [Checked.both, Except.map, wanted]

/-! ## What cannot be used -/

/-- Settings, if the root directory can be made out and is there, and the marker is a plain name. -/
def checked (env : Environment) (disk : Disk) (s : Settings) : Except SettingsError Settings :=
  match s.resolvedRootDir env with
  | .error e => .error (.noHome e)
  | .ok override =>
    match override.filter fun dir => !disk.isDirectory dir with
    | some dir => .error (.notDirectory dir)
    | none => if isPlainName s.marker then .ok s else .error (.badMarker s.marker)

/-- Loading makes out the quiet interval and then checks what is asked for. -/
theorem load_eq (env : Environment) (disk : Disk) (root marker : Option String) :
    load env disk (optionsFor root marker) =
      (debounceFrom env).bind fun delay => checked env disk (wanted env root marker delay) := by
  unfold load
  cases debounceFrom env with
  | error e => rfl
  | ok delay =>
    change (((ofValue (.object (fieldsFor env root marker delay))).mapError .invalid).bind fun s =>
      ((s.resolvedRootDir env).mapError .noHome).bind fun override => _) =
        checked env disk (wanted env root marker delay)
    rw [ofValue_fields, checked]
    generalize wanted env root marker delay = s
    change ((s.resolvedRootDir env).mapError SettingsError.noHome).bind _ = _
    cases s.resolvedRootDir env with
    | error e => rfl
    | ok override =>
      change (Except.ok override).bind _ = _
      rw [Except.bind]
      cases override with
      | none => cases isPlainName s.marker <;> simp <;> rfl
      | some dir =>
        cases hdir : disk.isDirectory dir <;> cases isPlainName s.marker <;> simp [hdir, Option.filter_some] <;> rfl

/-- Settings that can be used: the marker is a plain name, the quiet interval is not negative, and the root directory,
if one is set, is there. -/
structure Usable (env : Environment) (disk : Disk) (s : Settings) : Prop where
  marker : s.marker ≠ "" ∧ '/' ∉ s.marker.toList
  debounce : Binary64.zero.le s.debounce = true
  rootDir : s.resolvedRootDir env = .ok none ∨ ∃ dir, s.resolvedRootDir env = .ok (some dir) ∧
    disk.isDirectory dir = true

/-- Settings pass the check if they can be used, and are refused otherwise, unless the root directory cannot be made
out. -/
theorem checked_cases (env : Environment) (disk : Disk) {s : Settings}
    (hdebounce : Binary64.zero.le s.debounce = true) :
    (∃ e, s.resolvedRootDir env = .error e ∧ checked env disk s = .error (.noHome e)) ∨
    ∃ override, s.resolvedRootDir env = .ok override ∧
      ((∃ e, checked env disk s = .error e ∧ e.isRefusal = true) ∨ checked env disk s = .ok s ∧ s.Usable env disk) := by
  rw [checked]
  cases hroot : s.resolvedRootDir env with
  | error e => exact .inl ⟨e, rfl, rfl⟩
  | ok override =>
    refine .inr ⟨override, rfl, ?_⟩
    simp only
    cases hdir : override.filter fun dir => !disk.isDirectory dir with
    | some dir => exact .inl ⟨.notDirectory dir, rfl, rfl⟩
    | none =>
      cases hplain : isPlainName s.marker with
      | false => exact .inl ⟨.badMarker s.marker, rfl, rfl⟩
      | true =>
        have hmarker : s.marker ≠ "" ∧ '/' ∉ s.marker.toList := by simpa [isPlainName] using hplain
        refine .inr ⟨rfl, hmarker, hdebounce, ?_⟩
        cases override with
        | none => exact .inl hroot
        | some dir => exact .inr ⟨dir, hroot, by simpa using hdir⟩

/-- The root directory cannot be made out if there is no home to put for the tilde that it begins with. -/
theorem resolvedRootDir_eq_error_iff {s : Settings} {env : Environment} {e : FilePath.NoHome} :
    s.resolvedRootDir env = .error e ↔ ∃ dir, s.rootDir = some dir ∧ dir.Homeless env.homeOf? e := by
  simp only [resolvedRootDir, ← FilePath.expandHome_eq_error_iff]
  cases s.rootDir with
  | none => simp
  | some dir => cases hhome : dir.expandHome env.homeOf? <;> simp [hhome, bind, Except.bind, pure, Except.pure]

/-! ## The quiet interval -/

/-- A quotient of whole numbers that are not negative is not negative, nor is it none. -/
theorem zero_le_ofQuotient (num den : Nat) : Binary64.zero.le (.ofQuotient false num den) = true := by
  rw [Binary64.ofQuotient, Binary64.ofUnits]
  split
  · rfl
  · rw [Binary64.zero, Binary64.le]
    exact decide_eq_true (Int.natCast_nonneg _)

/-- The quiet interval that the variable for it stands for: the default while it is not set or blank, else so many
milliseconds. -/
inductive TakesDelay (env : Environment) (seconds : Binary64) : Prop
  | unset (h : env.vars.get? debounceVariable = none) (hseconds : seconds = .ofQuotient false 1 2)
  | blank (raw : String) (h : env.vars.get? debounceVariable = some raw) (hblank : raw.toList.all isSpacing = true)
      (hseconds : seconds = .ofQuotient false 1 2)
  | millis (raw : String) (n : Nat) (h : env.vars.get? debounceVariable = some raw)
      (hfilled : raw.toList.all isSpacing = false)
      (hn : Numeral.wholeNumber? raw.toList = some (n : Int)) (hseconds : seconds = .ofQuotient false n 1000)

/-- A filled variable stands for a quiet interval if it holds a number that is not negative. -/
theorem takesDelay_filled_iff {env : Environment} {raw : String} (h : env.vars.get? debounceVariable = some raw)
    (hfilled : raw.toList.all isSpacing = false) {seconds : Binary64} :
    TakesDelay env seconds ↔ ∃ n : Nat, Numeral.wholeNumber? raw.toList = some (n : Int) ∧
    seconds = .ofQuotient false n 1000 := by
  constructor
  · intro htakes
    cases htakes with
    | unset hunset hseconds =>
      rw [h] at hunset
      cases hunset
    | blank raw' hraw hblank hseconds =>
      obtain rfl := Option.some.inj (h.symm.trans hraw)
      rw [hfilled] at hblank
      cases hblank
    | millis raw' n hraw hfilled' hn hseconds =>
      obtain rfl := Option.some.inj (h.symm.trans hraw)
      exact ⟨n, hn, hseconds⟩
  · rintro ⟨n, hn, hseconds⟩
    exact .millis raw n h hfilled hn hseconds

/-- No quiet interval is negative. -/
theorem TakesDelay.zero_le {env : Environment} {seconds : Binary64} (h : TakesDelay env seconds) :
    Binary64.zero.le seconds = true := by
  cases h with
  | unset _ hseconds => exact hseconds ▸ zero_le_ofQuotient 1 2
  | blank _ _ _ hseconds => exact hseconds ▸ zero_le_ofQuotient 1 2
  | millis _ n _ _ _ hseconds => exact hseconds ▸ zero_le_ofQuotient n 1000

/-- A variable that is not set or blank stands for the default. -/
theorem TakesDelay.eq_default {env : Environment} {seconds : Binary64} (h : TakesDelay env seconds)
    (hblank : ∀ raw, env.vars.get? debounceVariable = some raw → raw.toList.all isSpacing = true) :
    seconds = .ofQuotient false 1 2 := by
  cases h with
  | unset _ hseconds => exact hseconds
  | blank _ _ _ hseconds => exact hseconds
  | millis raw _ hraw hfilled =>
    rw [hblank raw hraw] at hfilled
    cases hfilled

/-- The variable stands for one quiet interval at most. -/
theorem TakesDelay.unique {env : Environment} {a b : Binary64} (ha : TakesDelay env a)
    (hb : TakesDelay env b) : a = b := by
  by_cases hblank : ∀ raw, env.vars.get? debounceVariable = some raw → raw.toList.all isSpacing = true
  · rw [ha.eq_default hblank, hb.eq_default hblank]
  · obtain ⟨raw, hraw, hfilled⟩ : ∃ raw, env.vars.get? debounceVariable = some raw ∧
        raw.toList.all isSpacing = false := by
      simpa only [Classical.not_forall, Bool.not_eq_true, exists_prop] using hblank
    obtain ⟨m, hm, ha⟩ := (takesDelay_filled_iff hraw hfilled).1 ha
    obtain ⟨n, hn, hb⟩ := (takesDelay_filled_iff hraw hfilled).1 hb
    have hmn : m = n := Int.ofNat_inj.1 (Option.some.inj (hm.symm.trans hn))
    rw [ha, hb, hmn]

/-- The quiet interval is made out, refused, or too large. -/
theorem debounceFrom_cases (env : Environment) :
    (∃ delay seconds, debounceFrom env = .ok delay ∧ delay.getD (.ofQuotient false 1 2) = seconds ∧
      TakesDelay env seconds ∧ seconds ≠ .infinite false) ∨
    (∃ e, debounceFrom env = .error e ∧ e.isRefusal = true ∧ ∀ seconds, ¬ TakesDelay env seconds) ∨
    debounceFrom env = .error .tooLarge ∧ TakesDelay env (.infinite false) := by
  have hdefault : Binary64.ofQuotient false 1 2 ≠ .infinite false := by decide +kernel
  rw [debounceFrom]
  cases hraw : env.vars.get? debounceVariable with
  | none => exact .inl ⟨none, _, rfl, Option.getD_none, .unset hraw rfl, hdefault⟩
  | some raw =>
    simp only
    cases hblank : raw.toList.all isSpacing with
    | true => exact .inl ⟨none, _, rfl, Option.getD_none, .blank raw hraw hblank rfl, hdefault⟩
    | false =>
      rw [if_neg Bool.false_ne_true]
      cases hnumber : Numeral.wholeNumber? raw.toList with
      | none =>
        refine .inr (.inl ⟨.notWhole raw, rfl, rfl, fun seconds htakes => ?_⟩)
        obtain ⟨n, hn, -⟩ := (takesDelay_filled_iff hraw hblank).1 htakes
        rw [hnumber] at hn
        cases hn
      | some millis =>
        simp only
        split
        · rename_i hneg
          refine .inr (.inl ⟨.negative millis, rfl, rfl, fun seconds htakes => ?_⟩)
          obtain ⟨n, hn, -⟩ := (takesDelay_filled_iff hraw hblank).1 htakes
          obtain rfl := Option.some.inj (hnumber.symm.trans hn)
          omega
        · rename_i hnonneg
          have hmillis : some millis = some ((millis.natAbs : Nat) : Int) := congrArg some (by omega)
          split
          · rename_i negative hinfinite
            have hsign := zero_le_ofQuotient millis.natAbs 1000
            rw [hinfinite, Binary64.zero, Binary64.le, Bool.not_eq_true'] at hsign
            rw [hsign] at hinfinite
            exact .inr (.inr ⟨rfl, .millis raw millis.natAbs hraw hblank (hnumber.trans hmillis) hinfinite.symm⟩)
          · rename_i hfinite
            exact .inl ⟨_, _, rfl, Option.getD_some, .millis raw millis.natAbs hraw hblank (hnumber.trans hmillis) rfl,
              hfinite false⟩

/-! ## What comes of loading -/

/-- Whether the root directory that is asked for begins with a tilde and a name for which there is no home to put, and
why not. -/
def HomeUnknown (env : Environment) (root : Option String) (e : FilePath.NoHome) : Prop :=
  ∃ dir, root.or (filled env rootVariable) = some dir ∧ (FilePath.ofString dir).Homeless env.homeOf? e

/-- There is one cause at most. -/
theorem HomeUnknown.unique {env : Environment} {root : Option String} {e e' : FilePath.NoHome}
    (h : HomeUnknown env root e) (h' : HomeUnknown env root e') : e = e' := by
  obtain ⟨dir, hdir, he⟩ := h
  obtain ⟨dir', hdir', he'⟩ := h'
  obtain rfl := Option.some.inj (hdir.symm.trans hdir')
  rw [← FilePath.expandHome_eq_error_iff] at he he'
  exact Except.error.inj (he.symm.trans he')

/-- Settings as they are asked for, each from its option if that is given, else from its variable if that is filled,
else the default, and fit for use. -/
structure Loaded (env : Environment) (disk : Disk) (root marker : Option String) (s : Settings) : Prop where
  rootDir : s.rootDir = (root.or (filled env rootVariable)).map .ofString
  workspaceRoot : s.workspaceRoot = (filled env workspaceVariable).map .ofString
  marker : s.marker = (marker.or (filled env markerVariable)).getD "mkdocs.yml"
  debounce : TakesDelay env s.debounce
  suffixes : s.suffixes = [".md", ".markdown"]
  usable : s.Usable env disk

/-- Settings are refused for their quiet interval, or that is too large; otherwise the root directory cannot be made
out, or they are refused for what else they ask for, or they are loaded. -/
theorem load_cases (env : Environment) (disk : Disk) (root marker : Option String) :
    (∃ e, load env disk (optionsFor root marker) = .error e ∧ e.isRefusal = true ∧
      ∀ seconds, ¬ TakesDelay env seconds) ∨
    (load env disk (optionsFor root marker) = .error .tooLarge ∧ TakesDelay env (.infinite false)) ∨
    ((∃ seconds, TakesDelay env seconds ∧ seconds ≠ .infinite false) ∧
      ((∃ e, load env disk (optionsFor root marker) = .error (.noHome e) ∧ HomeUnknown env root e) ∨
      (∀ e, ¬ HomeUnknown env root e) ∧ ((∃ e, load env disk (optionsFor root marker) = .error e ∧ e.isRefusal = true) ∨
        ∃ s, load env disk (optionsFor root marker) = .ok s ∧ Loaded env disk root marker s))) := by
  rw [load_eq]
  rcases debounceFrom_cases env with ⟨delay, seconds, hdelay, hseconds, htakes, hfinite⟩ |
    ⟨e, he, hrefusal, hnone⟩ | ⟨he, hlarge⟩
  · rw [hdelay, Except.bind]
    have hhome : ∀ e, (wanted env root marker delay).resolvedRootDir env = .error e ↔ HomeUnknown env root e := by
      intro e
      rw [resolvedRootDir_eq_error_iff, HomeUnknown, wanted]
      simp only [Option.map_eq_some_iff]
      constructor
      · rintro ⟨_, ⟨dir, hdir, rfl⟩, he⟩
        exact ⟨dir, hdir, he⟩
      · rintro ⟨dir, hdir, he⟩
        exact ⟨_, ⟨dir, hdir, rfl⟩, he⟩
    have hdebounce : (wanted env root marker delay).debounce = seconds := hseconds
    rw [← hdebounce] at htakes hfinite
    refine .inr (.inr ⟨⟨_, htakes, hfinite⟩, ?_⟩)
    rcases checked_cases env disk htakes.zero_le with ⟨e, he, hchecked⟩ | ⟨override, hoverride, hchecked⟩
    · exact .inl ⟨e, hchecked, (hhome e).1 he⟩
    · refine .inr ⟨fun e hunknown => ?_, hchecked.imp_right fun ⟨hok, husable⟩ =>
        ⟨_, hok, rfl, rfl, rfl, htakes, rfl, husable⟩⟩
      have he := (hhome e).2 hunknown
      rw [hoverride] at he
      cases he
  · rw [he, Except.bind]
    exact .inl ⟨e, rfl, hrefusal, hnone⟩
  · rw [he, Except.bind]
    exact .inr (.inl ⟨rfl, hlarge⟩)

variable {env : Environment} {disk : Disk} {root marker : Option String}

/-- A number of milliseconds whose seconds are too large a number ends the loading. -/
theorem load_of_tooLarge (h : TakesDelay env (.infinite false)) :
    load env disk (optionsFor root marker) = .error .tooLarge := by
  rcases load_cases env disk root marker with ⟨e, -, -, hnone⟩ | ⟨he, -⟩ | ⟨⟨seconds, htakes, hfinite⟩, -⟩
  · exact absurd h (hnone _)
  · exact he
  · exact absurd (htakes.unique h) hfinite

/-- A root directory below a home that is not known ends the loading, unless it has ended before. -/
theorem load_of_homeUnknown {e : FilePath.NoHome} (h : HomeUnknown env root e) {seconds : Binary64}
    (htakes : TakesDelay env seconds) (hfinite : seconds ≠ .infinite false) :
    load env disk (optionsFor root marker) = .error (.noHome e) := by
  rcases load_cases env disk root marker with ⟨_, -, -, hnone⟩ | ⟨-, hlarge⟩ | ⟨-, ⟨e', he', hunknown⟩ | ⟨hknown, -⟩⟩
  · exact absurd htakes (hnone _)
  · exact absurd (htakes.unique hlarge) hfinite
  · rw [h.unique hunknown]
    exact he'
  · exact absurd h (hknown e)

end Settings

end DocRefs
