import DocRefs.Proofs.Collect
import DocRefs.Proofs.Debouncer
import DocRefs.Proofs.Files.Direct
import DocRefs.Proofs.Session.Relint
import DocRefs.Proofs.Workspace.Requests
import Mathlib

/-!
# What a session knows once it is quiet

A session over a changing disk is told of documents that came, went, or read differently, and lints each of them again
after a while. Once nothing is left to be told and nothing waits, it has stored nothing under a path that leads to
nothing, and under the path of each document below its directory the diagnostics that the present text had when the
document was linted last (`Session.Watched.stored`). They are those of a new workspace exactly if every reference of the
document has a target now that had one then, and the other way round. A document that comes or goes does not have the
documents linted again that refer to it, so this may fail (`Session.Watched.stale`).
-/

namespace DocRefs.Session

/-! ## Runs -/

/-- Takes down in which workspaces documents are linted, up to the first failure. -/
def noteEach (s : Session) (last : Lints) : List FilePath → Lints
  | [] => last
  | p :: ps =>
    match (s.lintOne p).result with
    | .error _ => s.noteOne last p
    | .ok () => noteEach (s.lintOne p).session (s.noteOne last p) ps

/-- Takes down in which workspaces the documents are linted that an event names. -/
def noteRelint (s : Session) (last : Lints) : Relint → Lints
  | .one path => s.noteOne last path
  | .all =>
    match s.documents.result with
    | .ok paths => s.noteEach last paths
    | .error _ => last

/-- Takes down in which workspaces documents are linted as the debouncer lets events through. -/
def noteAll (s : Session) (last : Lints) : List (Emission String Relint) → Lints
  | [] => last
  | .failed _ :: rest => noteAll s last rest
  | .effect target :: rest => noteAll (s.carryOut target).1 (s.noteRelint last target) rest

/-- The debouncer with what changed paths ask for, and what it lets through at once. -/
def scheduled (s : Session) (paths : List FilePath) : Debouncer String Relint × List (Emission String Relint) :=
  ((relintsFor s.workspace.settings paths).foldl
    (fun d target => d.schedule target.key [.emit target]) s.debouncer).settle

/-- The same session with other events under way. -/
def withDebouncer (s : Session) (d : Debouncer String Relint) : Session :=
  { s with debouncer := d }

/-- A report is taken in, what it names is scheduled, and what comes of that is carried out. -/
theorem onChange_session (s : Session) (paths : List FilePath) :
    (s.onChange paths).1 =
      (((s.takeIn paths).1.withDebouncer (s.scheduled paths).1).carryOutAll (s.scheduled paths).2).1 := rfl

/-- The clock moves, and what comes of that is carried out. -/
theorem advance_session (s : Session) (seconds : Binary64) :
    (s.advance seconds).1 =
      ((s.withDebouncer (s.debouncer.advance seconds).1).carryOutAll (s.debouncer.advance seconds).2).1 := rfl

/-- The paths that a session must be told of when its disk becomes another one: those of documents that come below its
directory or read differently, and those that have stored diagnostics and lead to nothing any more. -/
def Altered (s : Session) (disk : Disk) : Set String :=
  {key | s.IsBelow disk key ∧
      ¬ (s.IsBelow s.workspace.fs key ∧ Document.readText disk key = Document.readText s.workspace.fs key) ∨
    s.workspace.diagnostics.contains key = true ∧ disk.pathExists key = false}

/-- The states that a session can come to which is told of documents and of nothing else, with the workspaces in which
documents were linted last and the altered paths that it was not told of since. It begins with a lint of every document
below its directory; then the disk may become any other one, any documents may be reported by paths that lead where
their absolute forms lead, and time may go by. -/
inductive Watched : Session → Lints → Set String → Prop
  | begin {disk : Disk} {env : Environment} {settings : Settings} {directory : FilePath} (hdisk : disk.Proper)
      (hcwd : disk.cwd = env.cwd) (hpath : directory.WellFormed)
      (hdirectory : disk.isDirectory directory.toString = true)
      (hok : (new (.new disk env settings) directory).lintAll.result = .ok ()) :
      Watched (new (.new disk env settings) directory).lintAll.session
        ((new (.new disk env settings) directory).noteRelint (fun _ => none) .all) ∅
  | change {s : Session} {last : Lints} {untold : Set String} (h : Watched s last untold) (disk : Disk)
      (hcwd : disk.cwd = s.workspace.fs.cwd) : Watched (s.withDisk disk) last (untold ∪ s.Altered disk)
  | report {s : Session} {last : Lints} {untold : Set String} (h : Watched s last untold) {paths : List FilePath}
      (hdocuments : ∀ p ∈ paths, s.workspace.settings.isDocument p = true)
      (hdirect : ∀ p ∈ paths, Disk.Direct s.workspace.env.cwd s.directory.toString p.toString) :
      Watched (s.onChange paths).1
        (noteAll ((s.takeIn paths).1.withDebouncer (s.scheduled paths).1) last (s.scheduled paths).2)
        (untold \ {key | ∃ p ∈ paths, key = s.workspace.absolute p.toString})
  | advance {s : Session} {last : Lints} {untold : Set String} (h : Watched s last untold) (seconds : Binary64) :
      Watched (s.advance seconds).1
        (noteAll (s.withDebouncer (s.debouncer.advance seconds).1) last (s.debouncer.advance seconds).2) untold

/-! ## The invariant -/

/-- An event names the document that its key shows, which leads where its absolute form leads. -/
def Stands (cwd directory key : String) : Relint → Prop
  | .one path => key = path.toString ∧ Disk.Direct cwd directory key
  | .all => False

/-- Every path is current, or waits to be linted, or is one that the session was not told of. -/
structure Converging (s : Session) (last : Lints) (untold : Set String) : Prop where
  cwd : s.workspace.fs.cwd = s.workspace.env.cwd
  clean : Path.Clean s.workspace.env.cwd
  events : s.debouncer.Telling (Stands s.workspace.env.cwd s.directory.toString)
  found : s.Found
  keys : ∀ key, key ∈ untold ∨ (∃ p, key = s.workspace.absolute p ∧ s.isPending p = true) ∨ s.Current last key

variable {s : Session} {last : Lints} {untold : Set String}

/-! ## Several lints -/

theorem SameSite.absolute {s' : Session} (h : SameSite s s') (p : String) :
    s'.workspace.absolute p = s.workspace.absolute p := by
  rw [Workspace.absolute, Workspace.absolute, h.env]

/-- A direct path is linted as its absolute form. -/
theorem leads_of_direct (hcwd : s.workspace.fs.cwd = s.workspace.env.cwd) (hfound : s.Found) {path : FilePath}
    (h : Disk.Direct s.workspace.env.cwd s.directory.toString path.toString) : s.Leads path := by
  refine ⟨h.found s.workspace.fs hcwd, ?_⟩
  intro hstored e he
  obtain ⟨disk, hdisk, place, hfind⟩ := hfound _ hstored
  rcases s.workspace.fs.lookUp_cases path.toString with ⟨hlong, -⟩ | ⟨-, hnone⟩ | ⟨place', node, -, -, hsome⟩
  · exact h.short disk hdisk place hfind s.workspace.fs hcwd hlong
  · nomatch he.symm.trans hnone
  · nomatch he.symm.trans hsome

/-- A path that was linted without a failure is linted as its absolute form, if it leads where that leads unless it is
too long. -/
theorem leads_of_lintOne {path : FilePath} (hok : (s.lintOne path).result = .ok ())
    (h : ∀ place, s.workspace.fs.find (s.workspace.absolute path.toString) = .ok place →
      s.workspace.fs.find path.toString = .ok place ∨
      s.workspace.fs.find path.toString = .error .nameTooLong) : s.Leads path := by
  have hseen : ∀ e, s.workspace.fs.lookUp path.toString ≠ .error e := by
    intro e he
    simp [lintOne, he] at hok
  refine ⟨fun _ place hplace => (h place hplace).resolve_right fun hlong => ?_, fun _ => hseen⟩
  exact hseen ⟨.nameTooLong, path.toString⟩ (by rw [Disk.lookUp, hlong])

/-- A lint of several documents that succeeds makes their paths current and leaves the others as current as they
were. -/
theorem follows_lintEach (last : Lints) (hcwd : s.workspace.fs.cwd = s.workspace.env.cwd)
    (hclean : Path.Clean s.workspace.env.cwd) (hfound : s.Found) {paths : List FilePath}
    (hpaths : ∀ p ∈ paths, ∀ place, s.workspace.fs.find (s.workspace.absolute p.toString) = .ok place →
      s.workspace.fs.find p.toString = .ok place ∨ s.workspace.fs.find p.toString = .error .nameTooLong)
    (hok : (s.lintEach paths).result = .ok ()) :
    Follows s last (s.lintEach paths).session (s.noteEach last paths) ∧
      ∀ p ∈ paths, (s.lintEach paths).session.Current (s.noteEach last paths) (s.workspace.absolute p.toString) := by
  induction paths generalizing s last with
  | nil => exact ⟨.rfl, by simp⟩
  | cons p ps ih =>
    rw [lintEach] at hok ⊢
    rw [noteEach]
    cases hresult : (s.lintOne p).result with
    | error stop => simp [hresult] at hok
    | ok _ =>
      have hleads := leads_of_lintOne hresult (hpaths p List.mem_cons_self)
      have hfirst := follows_lintOne last hcwd hclean hleads hfound
      have hown := current_lintOne last hcwd hclean hleads hfound
      have hsite := hfirst.site
      simp only [hresult] at hok ⊢
      obtain ⟨hrest, hothers⟩ := ih (s.noteOne last p) (by rw [hsite.fs, hsite.env, hcwd])
        (hsite.env ▸ hclean) (hfirst.found hfound)
        (fun q hq => by rw [hsite.absolute, hsite.fs]; exact hpaths q (List.mem_cons_of_mem _ hq)) hok
      refine ⟨hfirst.trans hrest, ?_⟩
      intro q hq
      rcases List.mem_cons.1 hq with rfl | hq
      · exact hrest.kept _ hown
      · have hcurrent := hothers q hq
        rwa [hsite.absolute] at hcurrent

/-- The lints that a debouncer lets through make the paths current that they name and leave the others as current as
they were. -/
theorem follows_carryOutAll (last : Lints) (hcwd : s.workspace.fs.cwd = s.workspace.env.cwd)
    (hclean : Path.Clean s.workspace.env.cwd) (hfound : s.Found) {out : List (Emission String Relint)}
    (htold : ∀ x ∈ out, ∃ key e, Stands s.workspace.env.cwd s.directory.toString key e ∧ x = .effect e) :
    Follows s last (s.carryOutAll out).1 (s.noteAll last out) ∧
      ∀ key e, Stands s.workspace.env.cwd s.directory.toString key e → .effect e ∈ out →
        (s.carryOutAll out).1.Current (s.noteAll last out) (s.workspace.absolute key) := by
  induction out generalizing s last with
  | nil => exact ⟨.rfl, by simp⟩
  | cons x out ih =>
    obtain ⟨key, e, hstands, rfl⟩ := htold _ List.mem_cons_self
    cases e with
    | all => exact hstands.elim
    | one p =>
      obtain ⟨rfl, hdirect⟩ := hstands
      have hleads := leads_of_direct hcwd hfound hdirect
      have hfirst := follows_lintOne last hcwd hclean hleads hfound
      have hown := current_lintOne last hcwd hclean hleads hfound
      have hsite := hfirst.site
      obtain ⟨hrest, hothers⟩ := ih (s.noteOne last p) (by rw [hsite.fs, hsite.env, hcwd])
        (hsite.env ▸ hclean) (hfirst.found hfound)
        (fun y hy => by rw [hsite.env, hsite.directory]; exact htold y (List.mem_cons_of_mem _ hy))
      refine ⟨hfirst.trans hrest, ?_⟩
      intro key e hstands he
      rcases List.mem_cons.1 he with he | he
      · obtain rfl := Emission.effect.inj he
        obtain ⟨rfl, -⟩ := hstands
        exact hrest.kept _ hown
      · rw [← hsite.absolute]
        exact hothers key e (by rwa [hsite.env, hsite.directory]) he

/-! ## Steps -/

/-- What is stored does not depend on the debouncer. -/
theorem current_withDebouncer {key : String} (h : s.Current last key) (d : Debouncer String Relint) :
    (s.withDebouncer d).Current last key :=
  ⟨h.present, h.linted⟩

/-- What a debouncer lets through makes current what waited for it. -/
theorem Converging.carryOutAll (h : Converging s last untold)
    {done : Debouncer String Relint × List (Emission String Relint)}
    (hbrings : s.debouncer.Brings (Stands s.workspace.env.cwd s.directory.toString) done) :
    Converging ((s.withDebouncer done.1).carryOutAll done.2).1
      (noteAll (s.withDebouncer done.1) last done.2) untold := by
  obtain ⟨hfollows, htold⟩ := follows_carryOutAll (s := s.withDebouncer done.1) last h.cwd h.clean h.found hbrings.told
  have hsite := hfollows.site
  refine ⟨?_, hsite.env ▸ h.clean, ?_, hfollows.found h.found, ?_⟩
  · rw [hsite.fs, hsite.env]
    exact h.cwd
  · rw [hfollows.debouncer, hsite.env, hsite.directory]
    exact hbrings.after
  · intro key
    rcases h.keys key with hkey | ⟨p, rfl, hp⟩ | hkey
    · exact .inl hkey
    · rcases hbrings.kept p hp with hp | ⟨e, hstands, he⟩
      · refine .inr (.inl ⟨p, (hsite.absolute p).symm, ?_⟩)
        rw [isPending, hfollows.debouncer]
        exact hp
      · exact .inr (.inr (htold p e hstands he))
    · exact .inr (.inr (hfollows.kept key (current_withDebouncer hkey _)))

/-- A path that is collected from a directory leads where its absolute form leads, unless it is too long. -/
theorem find_of_mem_filePathsBelow {disk : Disk} (hdisk : disk.Proper) {directory p : FilePath}
    (hpath : directory.WellFormed)
    {here place : Place} (hhere : disk.find directory.toString = .ok here) (hp : p ∈ disk.filePathsBelow directory)
    (hplace : disk.find (Path.absolute disk.cwd p.toString) = .ok place) :
    disk.find p.toString = .ok place ∨ disk.find p.toString = .error .nameTooLong := by
  obtain ⟨names, hne, hnames, rfl⟩ := exists_names_of_mem_filePathsBelow hdisk hp
  exact (Disk.find_below hdisk.cwd hpath hnames hne hhere hplace).imp_right And.right

/-- A session that has linted every document below its directory waits for nothing. -/
theorem converging_begin {disk : Disk} {env : Environment} {settings : Settings}
    {directory : FilePath} (hdisk : disk.Proper)
    (hcwd : disk.cwd = env.cwd) (hpath : directory.WellFormed) (hdirectory : disk.isDirectory directory.toString = true)
    (hok : (new (.new disk env settings) directory).lintAll.result = .ok ()) :
    Converging (new (.new disk env settings) directory).lintAll.session
      ((new (.new disk env settings) directory).noteRelint (fun _ => none) .all) ∅ := by
  have hclean : Path.Clean env.cwd := hcwd ▸ hdisk.cwd
  have hcollected : collectDocuments disk settings [directory] = _ := collectDocuments_directory hdirectory
  have hdocuments : (new (.new disk env settings) directory).documents =
      ⟨new (.new disk env settings) directory, {},
          .ok ((disk.filePathsBelow directory).filter settings.isDocument)⟩ := by
    unfold documents
    simp only [new, Workspace.new, hcollected]
  rw [lintAll, hdocuments] at hok ⊢
  rw [noteRelint, hdocuments]
  obtain ⟨here, hhere⟩ := exists_find_of_collectDocuments hcollected
  have hpaths : ∀ p ∈ (disk.filePathsBelow directory).filter settings.isDocument,
      ∀ place, disk.find (Path.absolute env.cwd p.toString) = .ok place →
        disk.find p.toString = .ok place ∨ disk.find p.toString = .error .nameTooLong :=
    fun p hp place hplace => find_of_mem_filePathsBelow hdisk hpath hhere (List.mem_filter.1 hp).1 (hcwd ▸ hplace)
  have hnothing : (new (.new disk env settings) directory).Found := by
    intro key hkey
    simp [new, Workspace.new, Assoc.contains, Assoc.empty] at hkey
  obtain ⟨hfollows, hlinted⟩ := follows_lintEach (s := new (.new disk env settings) directory) (fun _ => none)
    hcwd hclean hnothing hpaths hok
  have hsite := hfollows.site
  refine ⟨?_, hsite.env ▸ hclean, ?_, hfollows.found hnothing, fun key => .inr (.inr ?_)⟩
  · rw [hsite.fs, hsite.env]
    exact hcwd
  · rw [hfollows.debouncer]
    exact ⟨by simp [new], by simp [new]⟩
  · by_cases hbelow : (new (.new disk env settings) directory).IsBelow disk key
    · obtain ⟨paths, hpaths, p, hp, rfl⟩ := hbelow
      obtain rfl := Except.ok.inj (hcollected.symm.trans hpaths)
      rw [hcwd]
      exact hlinted p hp
    · refine hfollows.kept key ⟨?_, fun habove => absurd habove hbelow⟩
      intro hstored
      simp [new, Workspace.new, Assoc.contains, Assoc.empty] at hstored

/-- What is not altered by a change of the disk is as current as it was. -/
theorem Converging.change (h : Converging s last untold) {disk : Disk} (hcwd : disk.cwd = s.workspace.fs.cwd) :
    Converging (s.withDisk disk) last (untold ∪ s.Altered disk) := by
  refine ⟨hcwd.trans h.cwd, h.clean, h.events, h.found, ?_⟩
  intro key
  rcases h.keys key with hkey | ⟨p, hp, hpending⟩ | hkey
  · exact .inl (.inl hkey)
  · exact .inr (.inl ⟨p, hp, hpending⟩)
  · by_cases haltered : key ∈ s.Altered disk
    · exact .inl (.inr haltered)
    · obtain ⟨hsame, hgone⟩ := not_or.1 haltered
      refine .inr (.inr ⟨?_, ?_⟩)
      · intro hstored
        exact Bool.of_not_eq_false fun hno => hgone ⟨hstored, hno⟩
      · intro hbelow text htext
        obtain ⟨hbefore, hread⟩ := Classical.not_not.1 fun hnot => hsame ⟨hbelow, hnot⟩
        exact hkey.linted hbefore text (hread ▸ htext)

/-- A report alone changes nothing that is stored. -/
theorem sameSite_takeIn (s : Session) (paths : List FilePath) :
    SameSite s (s.takeIn paths).1 ∧ (s.takeIn paths).1.workspace.diagnostics = s.workspace.diagnostics :=
  ⟨⟨rfl, rfl, rfl, rfl⟩, rfl⟩

/-- What is stored stays when a report is taken in. -/
theorem current_takeIn {key : String} (h : s.Current last key) (paths : List FilePath) :
    (s.takeIn paths).1.Current last key :=
  h.congr (s.sameSite_takeIn paths).1 (congrArg (Assoc.get? · key) (s.sameSite_takeIn paths).2) rfl

/-- Events that are scheduled join those under way, and their keys those that wait. -/
theorem telling_foldl {Says : String → Relint → Prop} {targets : List Relint} (htargets : ∀ t ∈ targets, Says t.key t)
    {d : Debouncer String Relint} (h : d.Telling Says) :
    (targets.foldl (fun d t => d.schedule t.key [.emit t]) d).Telling Says ∧
      ∀ key, (targets.foldl (fun d t => d.schedule t.key [.emit t]) d).isPending key = true ↔
        (∃ t ∈ targets, key = t.key) ∨ d.isPending key = true := by
  induction targets generalizing d with
  | nil => exact ⟨h, by simp⟩
  | cons t ts ih =>
    obtain ⟨htelling, hpending⟩ := ih (fun u hu => htargets u (List.mem_cons_of_mem _ hu))
      (h.schedule (htargets t List.mem_cons_self))
    refine ⟨htelling, ?_⟩
    intro key
    rw [List.foldl_cons, hpending, Debouncer.isPending_schedule]
    simp only [List.mem_cons, exists_eq_or_imp]
    exact or_left_comm.trans or_assoc.symm

/-- A report of documents has each of them wait to be linted. -/
theorem Converging.report (h : Converging s last untold) {paths : List FilePath}
    (hdocuments : ∀ p ∈ paths, s.workspace.settings.isDocument p = true)
    (hdirect : ∀ p ∈ paths, Disk.Direct s.workspace.env.cwd s.directory.toString p.toString) :
    Converging (s.onChange paths).1
      (noteAll ((s.takeIn paths).1.withDebouncer (s.scheduled paths).1) last (s.scheduled paths).2)
      (untold \ {key | ∃ p ∈ paths, key = s.workspace.absolute p.toString}) := by
  have hones : relintsFor s.workspace.settings paths = paths.map .one := by
    have hall : paths.all s.workspace.settings.isDocument = true := List.all_eq_true.2 hdocuments
    rw [relintsFor, List.filter_eq_self.2 hdocuments]
    simp [hall]
  have hstands : ∀ t ∈ paths.map Relint.one, Stands s.workspace.env.cwd s.directory.toString t.key t := by
    intro t ht
    obtain ⟨p, hp, rfl⟩ := List.mem_map.1 ht
    exact ⟨rfl, hdirect p hp⟩
  obtain ⟨htelling, hpending⟩ := telling_foldl hstands h.events
  rw [onChange_session, scheduled, hones]
  generalize (paths.map Relint.one).foldl (fun d t => d.schedule t.key [.emit t]) s.debouncer = d at htelling hpending
  have hwaiting : Converging ((s.takeIn paths).1.withDebouncer d) last
      (untold \ {key | ∃ p ∈ paths, key = s.workspace.absolute p.toString}) := by
    refine ⟨h.cwd, h.clean, htelling, h.found, ?_⟩
    intro key
    rcases h.keys key with hkey | ⟨p, hp, hwaits⟩ | hkey
    · by_cases htold : ∃ p ∈ paths, key = s.workspace.absolute p.toString
      · obtain ⟨p, hp, hpath⟩ := htold
        exact .inr (.inl ⟨p.toString, hpath, (hpending _).2 (.inl ⟨.one p, List.mem_map_of_mem hp, rfl⟩)⟩)
      · exact .inl ⟨hkey, htold⟩
    · exact .inr (.inl ⟨p, hp, (hpending p).2 (.inr hwaits)⟩)
    · exact .inr (.inr (current_withDebouncer (current_takeIn hkey paths) d))
  exact hwaiting.carryOutAll htelling.settle

/-- The invariant holds in every state that a session comes to. -/
theorem Watched.converging (h : Watched s last untold) : Converging s last untold := by
  induction h with
  | begin hdisk hcwd hpath hdirectory hok => exact converging_begin hdisk hcwd hpath hdirectory hok
  | change _ disk hcwd ih => exact ih.change hcwd
  | report _ hdocuments hdirect ih => exact ih.report hdocuments hdirect
  | advance _ seconds ih =>
    rw [advance_session]
    exact ih.carryOutAll (ih.events.advance seconds)

/-! ## A document that comes unseen -/

/-- A disk with one document, which refers to another one. -/
def lonely : Disk := { nodes := [(["a.md"], .file "{* b.md *}".toUTF8.toList)] }

/-- The disk with both documents. -/
def joined : Disk := { nodes := lonely.nodes ++ [(["b.md"], .file [])] }

/-- Settings under which no interval is waited for. -/
def prompt : Settings := { debounce := .zero }

/-- A session over the root of the disk with one document. -/
def begun : Session := new (.new lonely {} prompt) ⟨1, []⟩

theorem scan_referring : Reference.scan "{* b.md *}" = .ok [⟨"b.md", none, none, ⟨0, 10⟩⟩] := by cbv

/-- The document that refers to the other one is linted over either disk. -/
theorem exists_lint_referring {w : Workspace Disk} (henv : w.env = {}) (hsettings : w.settings = prompt) :
    ∃ a, w.lint ⟨"/a.md", "{* b.md *}"⟩ = .ok a := by
  refine Workspace.lint_isOk_iff.2 (Workspace.resolve_isOk_iff.2 ⟨⟨none, ?_⟩, _, scan_referring⟩)
  rw [Workspace.rootOverride, henv, hsettings]
  rfl

/-- What is collected from the disk with one document. -/
theorem collectDocuments_lonely : collectDocuments lonely prompt [⟨1, []⟩] = .ok [⟨1, ["a.md"]⟩] := by
  have hpaths : lonely.filePathsBelow ⟨1, []⟩ = [⟨1, ["a.md"]⟩] := by cbv
  rw [collectDocuments_directory (by decide), hpaths]
  rfl

/-- What is collected from the disk with both documents. -/
theorem collectDocuments_joined : collectDocuments joined prompt [⟨1, []⟩] = .ok [⟨1, ["a.md"]⟩, ⟨1, ["b.md"]⟩] := by
  have hpaths : joined.filePathsBelow ⟨1, []⟩ = [⟨1, ["a.md"]⟩, ⟨1, ["b.md"]⟩] := by cbv
  rw [collectDocuments_directory (by decide), hpaths]
  rfl

theorem readable_begun : begun.readable? ⟨1, ["a.md"]⟩ = some ⟨"/a.md", "{* b.md *}"⟩ := by cbv

/-- The first pass lints the one document. -/
theorem lintAll_begun :
    ∃ a, begun.workspace.lint ⟨"/a.md", "{* b.md *}"⟩ = .ok a ∧ begun.lintAll.result = .ok () ∧
      begun.lintAll.session = { begun with workspace := a.workspace } ∧
      begun.noteRelint (fun _ => none) .all "/a.md" = some begun.workspace := by
  have hdocuments : begun.documents = ⟨begun, {}, .ok [⟨1, ["a.md"]⟩]⟩ := by
    unfold documents
    simp only [begun, new, Workspace.new, collectDocuments_lonely]
  obtain ⟨a, ha⟩ := exists_lint_referring (w := begun.workspace) rfl rfl
  obtain ⟨hsession, hresult⟩ := lintOne_of_lint readable_begun ha
  refine ⟨a, ha, ?_, ?_, ?_⟩
  · simp [lintAll, hdocuments, lintEach, hresult]
  · simp [lintAll, hdocuments, lintEach, hresult, hsession]
  · simp [noteRelint, hdocuments, noteEach, hresult, noteOne, readable_begun]

theorem proper_lonely : lonely.Proper := by
  refine ⟨⟨rfl, by cbv⟩, ?_⟩
  intro e he c hc
  rw [List.mem_singleton.1 he] at hc
  rw [List.mem_singleton.1 hc]
  decide

/-- When the other document comes, its path alone is to be told. -/
theorem altered_joined (hfs : s.workspace.fs = lonely) (hsettings : s.workspace.settings = prompt)
    (hdirectory : s.directory = ⟨1, []⟩)
    (hstored : ∀ key, s.workspace.diagnostics.contains key = true → key = "/a.md") : s.Altered joined ⊆ {"/b.md"} := by
  rintro key (⟨hbelow, hsame⟩ | ⟨hcontains, hgone⟩)
  · obtain ⟨paths, hpaths, p, hp, rfl⟩ := hbelow
    rw [hsettings, hdirectory, collectDocuments_joined] at hpaths
    obtain rfl := Except.ok.inj hpaths
    rcases List.mem_cons.1 hp with rfl | hp
    · refine absurd ⟨⟨[⟨1, ["a.md"]⟩], ?_, ⟨1, ["a.md"]⟩, List.mem_cons_self, ?_⟩, ?_⟩ hsame
      · rw [hfs, hsettings, hdirectory, collectDocuments_lonely]
      · rw [hfs]
        rfl
      · rw [hfs]
        cbv
    · rw [List.mem_singleton.1 hp]
      cbv
  · rw [hstored key hcontains] at hgone
    exact absurd hgone (by decide)

/-- A session over both documents after the first pass over the one, which was not told of the other. -/
theorem exists_untold :
    ∃ s last untold, Watched s last untold ∧ s.workspace.fs = joined ∧ s.workspace.env = {} ∧
      s.workspace.settings = prompt ∧
      s.directory = ⟨1, []⟩ ∧ s.debouncer = { delay := .zero } ∧ last "/a.md" = some begun.workspace ∧
      untold ⊆ {"/b.md"} ∧
      ∃ a, begun.workspace.lint ⟨"/a.md", "{* b.md *}"⟩ = .ok a ∧ s.workspace.diagnosticsOf "/a.md" = a.value := by
  obtain ⟨a, ha, hok, hsession, hlast⟩ := lintAll_begun
  have hbegin : Watched begun.lintAll.session (begun.noteRelint (fun _ => none) .all) ∅ :=
    .begin proper_lonely rfl ⟨by decide, by simp⟩ (by decide) hok
  have hsame := (Workspace.lint_eq ha).2
  have hfs : a.workspace.fs = lonely := hsame.fs
  have hstored : a.workspace.diagnostics = Assoc.empty.insert "/a.md" a.value := hsame.diagnostics
  rw [hsession] at hbegin
  refine ⟨_, _, _, hbegin.change joined (by rw [hfs]; rfl), rfl, hsame.env, hsame.settings, rfl,
    rfl, hlast, ?_, a, ha, ?_⟩
  · rw [Set.empty_union]
    refine altered_joined hfs hsame.settings rfl ?_
    intro key hkey
    rw [hstored, Assoc.contains_iff, Assoc.get?_insert] at hkey
    by_contra hne
    simp [hne, Assoc.get?_empty] at hkey
  · change (a.workspace.diagnostics.get? "/a.md").getD [] = a.value
    rw [hstored, Assoc.get?_insert, if_pos rfl, Option.getD_some]

/-- The path of the new document leads where its absolute form leads. -/
theorem direct_created (directory : String) : Disk.Direct "/" directory (FilePath.toString ⟨1, ["b.md"]⟩) := by
  refine Disk.direct_of_plain ⟨by decide, ?_⟩ (by decide) ⟨by decide, by cbv⟩ directory
  intro c hc
  rw [List.mem_singleton.1 hc]
  decide

/-- When the other document comes and is reported, nothing is left untold and nothing waits, and the document that
refers to it is not linted again. -/
theorem exists_unseen :
    ∃ s last, Watched s last ∅ ∧ (∀ key, s.isPending key = false) ∧ s.workspace.fs = joined ∧ s.workspace.env = {} ∧
      s.workspace.settings = prompt ∧ s.directory = ⟨1, []⟩ ∧ last "/a.md" = some begun.workspace ∧
      ∃ a, begun.workspace.lint ⟨"/a.md", "{* b.md *}"⟩ = .ok a ∧ s.workspace.diagnosticsOf "/a.md" = a.value := by
  obtain ⟨s, last, untold, hwatched, hfs, henv, hsettings, hdirectory, hdebouncer, hlast, huntold, a, ha, hstored⟩ :=
    exists_untold
  have hdocuments : ∀ p ∈ [(⟨1, ["b.md"]⟩ : FilePath)], s.workspace.settings.isDocument p = true := by
    rw [hsettings]
    decide
  have hdirect : ∀ p ∈ [(⟨1, ["b.md"]⟩ : FilePath)],
      Disk.Direct s.workspace.env.cwd s.directory.toString p.toString := by
    intro p hp
    rw [List.mem_singleton.1 hp, henv]
    exact direct_created _
  have hscheduled : s.scheduled [⟨1, ["b.md"]⟩] = ({ delay := .zero, tasks := 1 }, [.effect (.one ⟨1, ["b.md"]⟩)]) := by
    have hone : relintsFor prompt [⟨1, ["b.md"]⟩] = [.one ⟨1, ["b.md"]⟩] := by decide
    rw [scheduled, hsettings, hdebouncer, hone]
    cbv
  have habsolute : s.workspace.absolute (FilePath.toString ⟨1, ["b.md"]⟩) = "/b.md" := by
    rw [Workspace.absolute, henv]
    cbv
  have hall : untold \ {key | ∃ p ∈ [(⟨1, ["b.md"]⟩ : FilePath)], key = s.workspace.absolute p.toString} = ∅ := by
    refine Set.eq_empty_iff_forall_notMem.2 fun key hkey => hkey.2 ⟨_, List.mem_singleton.2 rfl, ?_⟩
    rw [habsolute]
    exact huntold hkey.1
  have hreported := hwatched.report hdocuments hdirect
  rw [hall, onChange_session, hscheduled] at hreported
  obtain ⟨⟨hfs', henv', hsettings', hdirectory'⟩, hdiagnostics⟩ := s.sameSite_takeIn [⟨1, ["b.md"]⟩]
  generalize (s.takeIn [⟨1, ["b.md"]⟩]).1 = told at hreported hfs' henv' hsettings' hdirectory' hdiagnostics
  have hcwd : told.workspace.fs.cwd = told.workspace.env.cwd := by
    rw [hfs', henv', hfs, henv]
    rfl
  have hne : "/a.md" ≠ told.workspace.absolute (FilePath.toString ⟨1, ["b.md"]⟩) := by
    rw [Workspace.absolute, henv', ← Workspace.absolute, habsolute]
    decide
  obtain ⟨hsite, hwaits⟩ := (told.withDebouncer { delay := .zero, tasks := 1 }).sameSite_lintOne ⟨1, ["b.md"]⟩
  obtain ⟨hget, hnote⟩ := lintOne_of_ne (s := told.withDebouncer { delay := .zero, tasks := 1 }) last hcwd hne
  refine ⟨_, _, hreported, fun key => ?_, hsite.fs.trans (hfs'.trans hfs), hsite.env.trans (henv'.trans henv),
    hsite.settings.trans (hsettings'.trans hsettings), hsite.directory.trans (hdirectory'.trans hdirectory),
      hnote.trans hlast, a, ha, ?_⟩
  · change Debouncer.isPending (lintOne _ _).session.debouncer key = false
    rw [hwaits]
    rfl
  · change (Assoc.get? (lintOne _ _).session.workspace.diagnostics "/a.md").getD [] = a.value
    rw [hget]
    change (told.workspace.diagnostics.get? "/a.md").getD [] = a.value
    rw [hdiagnostics]
    exact hstored

/-- The reference has no target in the workspace in which its document is linted first. -/
theorem sees_begun : begun.workspace.sees ⟨"/a.md", "{* b.md *}"⟩ ⟨"b.md", none, none, ⟨0, 10⟩⟩ = false := by cbv

/-- The reference has a target once the other document is there. -/
theorem sees_joined :
    (Workspace.new joined {} prompt).sees ⟨"/a.md", "{* b.md *}"⟩ ⟨"b.md", none, none, ⟨0, 10⟩⟩ = true := by cbv

theorem load_joined : Document.load joined (FilePath.toString ⟨1, ["a.md"]⟩) none = .ok ⟨"/a.md", "{* b.md *}"⟩ := by
  cbv

/-! ## Quiet sessions -/

/-- Once nothing is left to be told and nothing waits, a session has stored for each document below its directory that
can be read the diagnostics of a new workspace exactly if each of the document's references has a target now if and only
if it had one when the document was linted last; and it has stored nothing under a path that leads to nothing. -/
theorem Watched.stored (h : Watched s last ∅) (hquiet : ∀ key, s.isPending key = false) :
    (∀ paths, s.documents.result = .ok paths → ∀ p ∈ paths, ∀ d, Document.load s.workspace.fs p.toString none = .ok d →
      ∀ fresh, (Workspace.new s.workspace.fs s.workspace.env s.workspace.settings).lint d = .ok fresh →
        ∃ w, last d.path = some w ∧
          (s.workspace.diagnosticsOf d.path = fresh.value ↔
            ∀ refs, Reference.scan d.text = .ok refs → ∀ r ∈ refs,
              w.sees d r = (Workspace.new s.workspace.fs s.workspace.env s.workspace.settings).sees d r)) ∧
    ∀ key, s.workspace.diagnostics.contains key = true → s.workspace.fs.pathExists key = true := by
  have hcurrent : ∀ key, s.Current last key := by
    intro key
    rcases h.converging.keys key with hkey | ⟨p, -, hp⟩ | hkey
    · exact absurd hkey (Set.notMem_empty key)
    · exact absurd hp (by simp [hquiet p])
    · exact hkey
  refine ⟨?_, fun key => (hcurrent key).present⟩
  intro paths hpaths p hp d hd fresh hfresh
  obtain ⟨hpath, htext⟩ := Document.load_eq_ok_iff.1 hd
  have hcollected : collectDocuments s.workspace.fs s.workspace.settings [s.directory] = .ok paths := by
    unfold documents at hpaths
    split at hpaths
    · rename_i found hfound
      rw [hfound, Except.ok.inj hpaths]
    · simp at hpaths
    · simp at hpaths
  obtain ⟨w, hlast, henv, hsettings, hlint⟩ :=
    (hcurrent d.path).linted ⟨paths, hcollected, p, hp, hpath⟩ d.text (hpath ▸ htext)
  have hanswered : ∃ a, w.lint d = .ok a := by
    have hfreshOk := Workspace.resolve_isOk_iff.1 (Workspace.lint_isOk_iff.1 ⟨fresh, hfresh⟩)
    refine Workspace.lint_isOk_iff.2 (Workspace.resolve_isOk_iff.2 ⟨?_, hfreshOk.2⟩)
    rw [Workspace.rootOverride, henv, hsettings]
    exact hfreshOk.1
  obtain ⟨a, ha⟩ := hanswered
  refine ⟨w, hlast, ?_⟩
  rw [← Workspace.lint_value_eq_iff ha hfresh, Workspace.diagnosticsOf, hlint a ha, Option.getD_some]

/-- Where a document came and was reported, the one that refers to it has diagnostics that a new workspace would not
give it. -/
theorem Watched.stored_unseen :
    ∃ s last, Watched s last ∅ ∧ (∀ key, s.isPending key = false) ∧
      ∃ fresh, (Workspace.new s.workspace.fs s.workspace.env s.workspace.settings).lint ⟨"/a.md",
        "{* b.md *}"⟩ = .ok fresh ∧ s.workspace.diagnosticsOf "/a.md" ≠ fresh.value ∧
        ∀ key, s.workspace.diagnostics.contains key = true → s.workspace.fs.pathExists key = true := by
  obtain ⟨s, last, hwatched, hquiet, hfs, henv, hsettings, hdirectory, hlast, -⟩ := exists_unseen
  obtain ⟨fresh, hfresh⟩ := exists_lint_referring (w := .new joined {} prompt) rfl rfl
  rw [← hfs, ← henv, ← hsettings] at hfresh
  have hpaths : s.documents.result = .ok [⟨1, ["a.md"]⟩, ⟨1, ["b.md"]⟩] := by
    rw [documents, hfs, hsettings, hdirectory, collectDocuments_joined]
  obtain ⟨hdocuments, hpresent⟩ := hwatched.stored hquiet
  obtain ⟨w, hw, hiff⟩ := hdocuments _ hpaths _ List.mem_cons_self _ (hfs ▸ load_joined) fresh hfresh
  obtain rfl := Option.some.inj (hlast.symm.trans hw)
  refine ⟨s, last, hwatched, hquiet, fresh, hfresh, ?_, hpresent⟩
  intro hsame
  have hseen := hiff.1 hsame _ scan_referring _ List.mem_cons_self
  rw [sees_begun, hfs, henv, hsettings, sees_joined] at hseen
  exact Bool.noConfusion hseen

/-- A document that comes and is reported does not have the documents linted again that refer to it: they keep the
diagnostics that they had, and a new workspace gives them others. -/
theorem Watched.stale :
    ∃ s last, Watched s last ∅ ∧ (∀ key, s.isPending key = false) ∧
      ∃ paths, s.documents.result = .ok paths ∧ ∃ p ∈ paths, ∃ d, Document.load s.workspace.fs p.toString none = .ok d ∧
        ∃ fresh, (Workspace.new s.workspace.fs s.workspace.env s.workspace.settings).lint d = .ok fresh ∧
          s.workspace.diagnosticsOf d.path ≠ fresh.value := by
  obtain ⟨s, last, hwatched, hquiet, hfs, henv, hsettings, hdirectory, -, a, ha, hstored⟩ := exists_unseen
  obtain ⟨fresh, hfresh⟩ := exists_lint_referring (w := .new joined {} prompt) rfl rfl
  refine ⟨s, last, hwatched, hquiet, [⟨1, ["a.md"]⟩, ⟨1, ["b.md"]⟩], ?_, ⟨1, ["a.md"]⟩, List.mem_cons_self,
    ⟨"/a.md", "{* b.md *}"⟩, ?_, fresh, ?_, ?_⟩
  · rw [documents, hfs, hsettings, hdirectory, collectDocuments_joined]
  · rw [hfs]
    exact load_joined
  · rw [hfs, henv, hsettings]
    exact hfresh
  · rw [hstored, Ne, Workspace.lint_value_eq_iff ha hfresh]
    intro hsame
    have hseen := hsame _ scan_referring _ List.mem_cons_self
    rw [sees_begun, sees_joined] at hseen
    exact Bool.noConfusion hseen

end DocRefs.Session
