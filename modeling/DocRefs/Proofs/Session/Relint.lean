import DocRefs.Proofs.Assoc
import DocRefs.Proofs.Collect
import DocRefs.Proofs.Files.Disk
import DocRefs.Proofs.Workspace.Lint
import DocRefs.Session

/-!
# Linting one document again

What a session knows of the path of a document is current (`Session.Current`) when the stored diagnostics there are
those of the text that is there now, taken when the document was linted last, and when there are none at a path that
leads to nothing. Linting a document makes its own path current (`Session.current_lintOne`) and leaves every other path
as current as it was (`Session.follows_lintOne`).
-/

namespace DocRefs.Session

/-- For each document the workspace in which it was linted last. -/
abbrev Lints := String → Option (Workspace Disk)

/-- The document that is linted at a path, if something is there that can be read. -/
def readable? (s : Session) (path : FilePath) : Option Document :=
  match s.workspace.fs.lookUp path.toString with
  | .ok (some _) => (Document.load s.workspace.fs path.toString none).toOption
  | _ => none

/-- Takes down in which workspace a document is linted. -/
def noteOne (s : Session) (last : Lints) (path : FilePath) : Lints :=
  match s.readable? path with
  | some d => fun key => if key = d.path then some s.workspace else last key
  | none => last

/-- Whether a path is that of a document which is collected from the session's directory on a disk. -/
def IsBelow (s : Session) (disk : Disk) (key : String) : Prop :=
  ∃ paths, collectDocuments disk s.workspace.settings [s.directory] = .ok paths ∧
    ∃ p ∈ paths, key = Path.absolute disk.cwd p.toString

/-- What is stored under a path is right: nothing if nothing is there, and for the text of a document below the
directory the diagnostics that it had when it was linted last. -/
structure Current (s : Session) (last : Lints) (key : String) : Prop where
  present : s.workspace.diagnostics.contains key = true → s.workspace.fs.pathExists key = true
  linted : s.IsBelow s.workspace.fs key → ∀ text, Document.readText s.workspace.fs key = .ok text →
    ∃ w, last key = some w ∧ w.env = s.workspace.env ∧ w.settings = s.workspace.settings ∧
      ∀ a, w.lint ⟨key, text⟩ = .ok a → s.workspace.diagnostics.get? key = some a.value

/-- Every path with stored diagnostics was found on some disk. -/
def Found (s : Session) : Prop :=
  ∀ key, s.workspace.diagnostics.contains key = true →
    ∃ disk : Disk, disk.cwd = s.workspace.env.cwd ∧ ∃ place, disk.find key = .ok place

/-- A path that is linted as its absolute form: a text is found at it as long as the session's directory is there, and
it is seen whether something is there, at least if diagnostics are stored for it. -/
structure Leads (s : Session) (path : FilePath) : Prop where
  found : (∃ here, s.workspace.fs.find s.directory.toString = .ok here) →
    ∀ place, s.workspace.fs.find (s.workspace.absolute path.toString) = .ok place →
      s.workspace.fs.find path.toString = .ok place
  seen : s.workspace.diagnostics.contains (s.workspace.absolute path.toString) = true →
    ∀ e, s.workspace.fs.lookUp path.toString ≠ .error e

/-- A session on the same disk, with the same settings and the same directory. -/
structure SameSite (s s' : Session) : Prop where
  fs : s'.workspace.fs = s.workspace.fs
  env : s'.workspace.env = s.workspace.env
  settings : s'.workspace.settings = s.workspace.settings
  directory : s'.directory = s.directory

theorem SameSite.rfl {s : Session} : SameSite s s := ⟨Eq.refl _, Eq.refl _, Eq.refl _, Eq.refl _⟩

theorem SameSite.trans {s s' s'' : Session} (h : SameSite s s') (h' : SameSite s' s'') : SameSite s s'' :=
  ⟨h'.fs.trans h.fs, h'.env.trans h.env, h'.settings.trans h.settings, h'.directory.trans h.directory⟩

/-- A session that comes from another by linting: what was current stays so, and the same events are under way. -/
structure Follows (s : Session) (last : Lints) (s' : Session) (last' : Lints) : Prop where
  site : SameSite s s'
  debouncer : s'.debouncer = s.debouncer
  found : s.Found → s'.Found
  kept : ∀ key, s.Current last key → s'.Current last' key

theorem Follows.rfl {s : Session} {last : Lints} : Follows s last s last :=
  ⟨.rfl, Eq.refl _, id, fun _ => id⟩

theorem Follows.trans {s s' s'' : Session} {last last' last'' : Lints} (h : Follows s last s' last')
    (h' : Follows s' last' s'' last'') : Follows s last s'' last'' :=
  ⟨h.site.trans h'.site, h'.debouncer.trans h.debouncer, h'.found ∘ h.found,
    fun key hkey => h'.kept key (h.kept key hkey)⟩

variable {s s' : Session} {last last' : Lints} {path : FilePath}

/-- A path is current in another session if the same is stored under it and it was linted last in the same workspace. -/
theorem Current.congr {key : String} (h : s.Current last key) (hsite : SameSite s s')
    (hget : s'.workspace.diagnostics.get? key = s.workspace.diagnostics.get? key) (hlast : last' key = last key) :
    s'.Current last' key := by
  refine ⟨?_, ?_⟩
  · intro hcontains
    rw [Assoc.contains_iff, hget, ← Assoc.contains_iff] at hcontains
    rw [hsite.fs]
    exact h.present hcontains
  · intro hbelow text htext
    rw [IsBelow, hsite.fs, hsite.settings, hsite.directory] at hbelow
    rw [hsite.fs] at htext
    rw [hlast, hget, hsite.env, hsite.settings]
    exact h.linted hbelow text htext

/-! ## What a lint of one document does -/

/-- A document can be read if something is at its path and can be loaded. -/
theorem readable?_eq_some_iff {d : Document} :
    s.readable? path = some d ↔
      (∃ node, s.workspace.fs.lookUp path.toString = .ok (some node)) ∧
      Document.load s.workspace.fs path.toString none = .ok d := by
  unfold readable?
  split
  · rename_i node hnode
    cases Document.load s.workspace.fs path.toString none <;> simp [hnode, Except.toOption]
  · rename_i hnone
    simp only [reduceCtorEq, false_iff, not_and]
    rintro ⟨node, hnode⟩
    exact absurd hnode (hnone node)

/-- The path cannot be looked up, or nothing is there, or something that cannot be read, or a document that cannot be
linted, or one that is linted. -/
theorem lintOne_eq (s : Session) (path : FilePath) :
    (∃ e, s.workspace.fs.lookUp path.toString = .error e ∧ s.lintOne path = ⟨s, {}, .error (.file e)⟩) ∨
    (s.workspace.fs.lookUp path.toString = .ok none ∧
      s.lintOne path = ⟨{ s with workspace := s.workspace.dropDiagnostics (s.workspace.absolute path.toString) },
        {}, .ok ()⟩) ∨
    (∃ node e, s.workspace.fs.lookUp path.toString = .ok (some node) ∧
      Document.load s.workspace.fs path.toString none = .error e ∧
      s.lintOne path = ⟨s, .say (skipNotice path e), .ok ()⟩) ∨
    (∃ d e, s.readable? path = some d ∧ s.workspace.lint d = .error e ∧ s.lintOne path = ⟨s, {}, .error (.failed e)⟩) ∨
    ∃ d a, s.readable? path = some d ∧ s.workspace.lint d = .ok a ∧
      s.lintOne path = ⟨{ s with workspace := a.workspace },
        ⟨(changeLines path (s.workspace.diagnosticsOf d.path) a.value).map .line, a.log⟩, .ok ()⟩ := by
  unfold readable?
  cases hlook : s.workspace.fs.lookUp path.toString with
  | error e => exact .inl ⟨e, rfl, by simp [lintOne, hlook]⟩
  | ok seen =>
    cases seen with
    | none => exact .inr (.inl ⟨rfl, by simp [lintOne, hlook]⟩)
    | some node =>
      cases hload : Document.load s.workspace.fs path.toString none with
      | error e => exact .inr (.inr (.inl ⟨node, e, rfl, rfl, by simp [lintOne, hlook, hload]⟩))
      | ok d =>
        cases hlint : s.workspace.lint d with
        | error e => exact .inr (.inr (.inr (.inl ⟨d, e, rfl, hlint, by simp [lintOne, hlook, hload, hlint]⟩)))
        | ok a => exact .inr (.inr (.inr (.inr ⟨d, a, rfl, hlint, by simp [lintOne, hlook, hload, hlint]⟩)))

/-- A document that is read is linted, which may fail; where nothing is there the diagnostics are dropped; and nothing
happens where something is there that is not read. -/
theorem lintOne_cases (s : Session) (path : FilePath) :
    (∃ d a, s.readable? path = some d ∧ s.workspace.lint d = .ok a ∧
      (s.lintOne path).session = { s with workspace := a.workspace }) ∨
    (∃ d e, s.readable? path = some d ∧ s.workspace.lint d = .error e ∧ (s.lintOne path).session = s) ∨
    (s.readable? path = none ∧ s.workspace.fs.lookUp path.toString = .ok none ∧
      (s.lintOne path).session =
        { s with workspace := s.workspace.dropDiagnostics (s.workspace.absolute path.toString) }) ∨
    (s.readable? path = none ∧ s.workspace.fs.lookUp path.toString ≠ .ok none ∧ (s.lintOne path).session = s) := by
  rcases s.lintOne_eq path with ⟨e, hlook, hs⟩ | ⟨hlook, hs⟩ | ⟨node, e, hlook, hload, hs⟩ | ⟨d, e, hread, hlint, hs⟩ |
    ⟨d, a, hread, hlint, hs⟩
  · exact .inr (.inr (.inr ⟨by rw [readable?, hlook], by simp [hlook], by rw [hs]⟩))
  · exact .inr (.inr (.inl ⟨by rw [readable?, hlook], hlook, by rw [hs]⟩))
  · exact .inr (.inr (.inr ⟨by simp [readable?, hlook, hload, Except.toOption], by simp [hlook], by rw [hs]⟩))
  · exact .inr (.inl ⟨d, e, hread, hlint, by rw [hs]⟩)
  · exact .inl ⟨d, a, hread, hlint, by rw [hs]⟩

/-- A document that is read and linted leaves nothing to be reported. -/
theorem lintOne_of_lint {d : Document} {a : Answer Disk (List Diagnostic)} (h : s.readable? path = some d)
    (hlint : s.workspace.lint d = .ok a) :
    (s.lintOne path).session = { s with workspace := a.workspace } ∧ (s.lintOne path).result = .ok () := by
  obtain ⟨⟨node, hlook⟩, hload⟩ := readable?_eq_some_iff.1 h
  constructor <;> simp [lintOne, hlook, hload, hlint]

/-- A lint of one document leaves the site and the debouncer as they are. -/
theorem sameSite_lintOne (s : Session) (path : FilePath) :
    SameSite s (s.lintOne path).session ∧ (s.lintOne path).session.debouncer = s.debouncer := by
  rcases s.lintOne_cases path with ⟨d, a, -, hlint, hs⟩ | ⟨d, e, -, -, hs⟩ | ⟨-, -, hs⟩ | ⟨-, -, hs⟩
  · have hsame := (Workspace.lint_eq hlint).2
    rw [hs]
    exact ⟨⟨hsame.fs, hsame.env, hsame.settings, rfl⟩, rfl⟩
  · rw [hs]
    exact ⟨.rfl, rfl⟩
  · rw [hs]
    exact ⟨⟨rfl, rfl, rfl, rfl⟩, rfl⟩
  · rw [hs]
    exact ⟨.rfl, rfl⟩

/-! ## What becomes of the paths -/

/-- A document is read as the text at the absolute form of its path. -/
theorem of_readable?_eq_some (hcwd : s.workspace.fs.cwd = s.workspace.env.cwd) {d : Document}
    (h : s.readable? path = some d) :
    d.path = s.workspace.absolute path.toString ∧ Document.readText s.workspace.fs d.path = .ok d.text := by
  obtain ⟨hpath, htext⟩ := Document.load_eq_ok_iff.1 (readable?_eq_some_iff.1 h).2
  rw [Workspace.absolute, ← hcwd]
  exact ⟨hpath, hpath ▸ htext⟩

/-- Where no document is read there is no text at the absolute form of the path either, as long as the session's
directory is there. -/
theorem readText_ne_ok (hcwd : s.workspace.fs.cwd = s.workspace.env.cwd) (hleads : s.Leads path)
    (hthere : ∃ here, s.workspace.fs.find s.directory.toString = .ok here)
    (h : s.readable? path = none) (text : String) :
    Document.readText s.workspace.fs (s.workspace.absolute path.toString) ≠ .ok text := by
  intro htext
  obtain ⟨place, node, hfind, hnode⟩ := Disk.exists_of_readText htext
  have hfind' := hleads.found hthere place hfind
  have hlook : s.workspace.fs.lookUp path.toString = .ok (some node) := by simp [Disk.lookUp, hfind', hnode]
  rw [Workspace.absolute, ← hcwd] at htext
  have hread := readable?_eq_some_iff.2 ⟨⟨node, hlook⟩, Document.load_eq_ok_iff (d := ⟨_, text⟩).2 ⟨rfl, htext⟩⟩
  rw [h] at hread
  simp at hread

/-- A text that is read is at a path that leads to something. -/
theorem pathExists_of_readText {disk : Disk} {key text : String} (h : Document.readText disk key = .ok text) :
    disk.pathExists key = true :=
  Disk.pathExists_iff.2 (Disk.exists_of_readText h)

/-- Something that is seen at a path is seen at its absolute form, if that was found before. -/
theorem pathExists_absolute (hcwd : s.workspace.fs.cwd = s.workspace.env.cwd) (hclean : Path.Clean s.workspace.env.cwd)
    (hseen : ∀ e, s.workspace.fs.lookUp path.toString ≠ .error e) (hfound : s.Found)
    (hstored : s.workspace.diagnostics.contains (s.workspace.absolute path.toString) = true)
    (h : s.workspace.fs.lookUp path.toString ≠ .ok none) :
    s.workspace.fs.pathExists (s.workspace.absolute path.toString) = true := by
  rcases s.workspace.fs.lookUp_cases path.toString with ⟨-, e, he⟩ | ⟨-, hnone⟩ | ⟨place', node, hfind', hnode, -⟩
  · exact absurd he (hseen e)
  · exact absurd hnone h
  · obtain ⟨disk, hdisk, place, hfind⟩ := hfound _ hstored
    have habsolute := Disk.find_absolute (hcwd ▸ hclean.absolute) hfind'
    rw [hcwd] at habsolute
    rcases habsolute with habsolute | hlong
    · exact Disk.pathExists_iff.2 ⟨place', node, habsolute, hnode⟩
    · exact absurd hlong (Disk.find_ne_tooLong (hcwd.trans hdisk.symm) hfind)

/-- What is below the session's directory is there only as long as the directory is. -/
theorem IsBelow.exists_find {disk : Disk} {key : String} (h : s.IsBelow disk key) :
    ∃ here, disk.find s.directory.toString = .ok here := by
  obtain ⟨paths, hpaths, -⟩ := h
  exact exists_find_of_collectDocuments hpaths

/-- A lint of one document makes its path current. -/
theorem current_lintOne (last : Lints) (hcwd : s.workspace.fs.cwd = s.workspace.env.cwd)
    (hclean : Path.Clean s.workspace.env.cwd) (hleads : s.Leads path) (hfound : s.Found) :
    (s.lintOne path).session.Current (s.noteOne last path) (s.workspace.absolute path.toString) := by
  have hunread : s.readable? path = none → s.IsBelow s.workspace.fs (s.workspace.absolute path.toString) →
      ∀ text, Document.readText s.workspace.fs (s.workspace.absolute path.toString) ≠ .ok text :=
    fun hread hbelow => readText_ne_ok hcwd hleads hbelow.exists_find hread
  rcases s.lintOne_cases path with ⟨d, a, hread, hlint, hs⟩ | ⟨d, e, hread, hlint, hs⟩ |
    ⟨hread, hlook, hs⟩ | ⟨hread, hlook, hs⟩
  · obtain ⟨hpath, htext⟩ := of_readable?_eq_some hcwd hread
    have hsame := (Workspace.lint_eq hlint).2
    rw [hs, noteOne, hread, ← hpath]
    refine ⟨?_, fun _ text htext' => ⟨s.workspace, by simp, hsame.env.symm, hsame.settings.symm, ?_⟩⟩
    · intro _
      rw [hsame.fs]
      exact pathExists_of_readText htext
    · intro b hb
      rw [hsame.fs, htext] at htext'
      obtain rfl := Except.ok.inj htext'
      obtain rfl := Except.ok.inj (hlint.symm.trans hb)
      rw [hsame.diagnostics, Assoc.get?_insert, if_pos rfl]
  · obtain ⟨hpath, htext⟩ := of_readable?_eq_some hcwd hread
    rw [hs, noteOne, hread, ← hpath]
    refine ⟨fun _ => pathExists_of_readText htext, fun _ text htext' => ⟨s.workspace, by simp, rfl, rfl, ?_⟩⟩
    intro b hb
    obtain rfl := Except.ok.inj (htext.symm.trans htext')
    nomatch hlint.symm.trans hb
  · rw [hs, noteOne, hread]
    refine ⟨?_, fun hbelow text htext => absurd htext (hunread hread hbelow text)⟩
    intro hstored
    rw [Workspace.dropDiagnostics, Assoc.contains_iff, Assoc.get?_erase, if_pos rfl] at hstored
    simp at hstored
  · rw [hs, noteOne, hread]
    exact ⟨fun hstored => pathExists_absolute hcwd hclean (hleads.seen hstored) hfound hstored hlook,
      fun hbelow text htext => absurd htext (hunread hread hbelow text)⟩

/-- A lint of one document touches what is stored and taken down under its own path only. -/
theorem lintOne_of_ne (last : Lints) (hcwd : s.workspace.fs.cwd = s.workspace.env.cwd) {key : String}
    (hkey : key ≠ s.workspace.absolute path.toString) :
    (s.lintOne path).session.workspace.diagnostics.get? key = s.workspace.diagnostics.get? key ∧
      s.noteOne last path key = last key := by
  rcases s.lintOne_cases path with ⟨d, a, hread, hlint, hs⟩ | ⟨d, e, hread, -, hs⟩ | ⟨hread, -, hs⟩ | ⟨hread, -, hs⟩
  · have hne : key ≠ d.path := (of_readable?_eq_some hcwd hread).1 ▸ hkey
    rw [hs, (Workspace.lint_eq hlint).2.diagnostics, Assoc.get?_insert, if_neg hne, noteOne, hread]
    exact ⟨rfl, if_neg hne⟩
  · have hne : key ≠ d.path := (of_readable?_eq_some hcwd hread).1 ▸ hkey
    rw [hs, noteOne, hread]
    exact ⟨rfl, if_neg hne⟩
  · rw [hs, Workspace.dropDiagnostics, Assoc.get?_erase, if_neg hkey, noteOne, hread]
    exact ⟨rfl, rfl⟩
  · rw [hs, noteOne, hread]
    exact ⟨rfl, rfl⟩

/-- Diagnostics are stored only under a path that was found. -/
theorem found_lintOne (hcwd : s.workspace.fs.cwd = s.workspace.env.cwd) (hfound : s.Found) :
    (s.lintOne path).session.Found := by
  intro key hkey
  rw [(s.sameSite_lintOne path).1.env]
  rcases s.lintOne_cases path with ⟨d, a, hread, hlint, hs⟩ | ⟨d, e, -, -, hs⟩ | ⟨-, -, hs⟩ | ⟨-, -, hs⟩
  · rw [hs, (Workspace.lint_eq hlint).2.diagnostics, Assoc.contains_iff, Assoc.get?_insert] at hkey
    split at hkey
    · rename_i hpath
      obtain ⟨place, -, hfind, -⟩ := Disk.exists_of_readText (of_readable?_eq_some hcwd hread).2
      exact ⟨s.workspace.fs, hcwd, place, hpath ▸ hfind⟩
    · exact hfound key (Assoc.contains_iff.2 hkey)
  · exact hfound key (hs ▸ hkey)
  · rw [hs, Workspace.dropDiagnostics, Assoc.contains_iff, Assoc.get?_erase] at hkey
    split at hkey
    · simp at hkey
    · exact hfound key (Assoc.contains_iff.2 hkey)
  · exact hfound key (hs ▸ hkey)

/-- A lint of one document leaves what is current as it is. -/
theorem follows_lintOne (last : Lints) (hcwd : s.workspace.fs.cwd = s.workspace.env.cwd)
    (hclean : Path.Clean s.workspace.env.cwd)
    (hleads : s.Leads path) (hfound : s.Found) : Follows s last (s.lintOne path).session (s.noteOne last path) := by
  obtain ⟨hsite, hdebouncer⟩ := s.sameSite_lintOne path
  refine ⟨hsite, hdebouncer, found_lintOne hcwd, ?_⟩
  intro key hkey
  by_cases hpath : key = s.workspace.absolute path.toString
  · exact hpath ▸ current_lintOne last hcwd hclean hleads hfound
  · obtain ⟨hget, hlast⟩ := lintOne_of_ne last hcwd hpath
    exact hkey.congr hsite hget hlast

end DocRefs.Session
