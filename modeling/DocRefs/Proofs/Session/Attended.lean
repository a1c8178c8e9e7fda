import DocRefs.Proofs.Debouncer.Order
import DocRefs.Proofs.Session.Pass

/-!
# What a session knows that is told of everything

A session over a changing disk is told of every place that is altered, in batches none of which is made of documents
alone. Each batch has all documents linted again, after everything that was scheduled before (`Session.Attending.last`).
So once nothing is left to be told and nothing waits, every document has the diagnostics of a new workspace, wherever
markers came or went, and under the path of a document that is gone nothing is stored (`Session.Attended.converges`).
One path is excepted: a document that is shown as `*` waits under the key of the event for all documents, which takes
its place (`Session.Attended.outdated`).
-/

namespace DocRefs.Session

/-! ## Runs -/

/-- A path that can be looked up on every disk that is seen from a working directory. -/
def Findable (cwd path : String) : Prop :=
  ∀ disk : Disk, disk.cwd = cwd → ∀ e, disk.lookUp path ≠ .error e

/-- The places that a batch tells of: those that its paths name, as long as it names every document of which something
is stored by the path under which it is. -/
def told (s : Session) (paths : List FilePath) : Set Place :=
  {place | (∃ p ∈ paths, s.workspace.fs.placeOf p.toString = place) ∧
    ∀ key, s.workspace.diagnostics.contains key = true → s.workspace.settings.isDocument (.ofString key) = true →
      s.workspace.fs.placeOf key = place →
      ∃ p ∈ paths, key = s.workspace.absolute p.toString ∧ s.workspace.settings.isDocument p = true ∧
        Findable s.workspace.env.cwd p.toString}

/-- The states that a session can come to which is told in batches that are not made of documents alone, with the
altered places that it was not told of since. It begins with a lint of every document below its directory; then the disk
may become any other one on which these can be linted, any paths may be reported, and time may go by. -/
inductive Attended : Session → Set Place → Prop
  | begin {disk : Disk} {env : Environment} {settings : Settings} {directory : FilePath} (hdisk : disk.Proper)
      (hcwd : disk.cwd = env.cwd) (hpath : directory.WellFormed) (hmarker : Path.IsName settings.marker.toList)
      (hoverride : ∃ o, settings.resolvedRootDir env = .ok o)
      (hlintable : (new (.new disk env settings) directory).Lintable disk) :
      Attended (new (.new disk env settings) directory).lintAll.session ∅
  | change {s : Session} {untold : Set Place} (h : Attended s untold) {disk : Disk} (hdisk : disk.Proper)
      (hcwd : disk.cwd = s.workspace.fs.cwd) (hlintable : s.Lintable disk) :
      Attended (s.withDisk disk) (untold ∪ s.workspace.fs.Altered disk)
  | report {s : Session} {untold : Set Place} (h : Attended s untold) {paths : List FilePath}
      (hother : ∃ p ∈ paths, s.workspace.settings.isDocument p = false) :
      Attended (s.onChange paths).1 (untold \ s.told paths)
  | advance {s : Session} {untold : Set Place} (h : Attended s untold) {seconds : Binary64}
      (hforward : Binary64.zero.le seconds = true) : Attended (s.advance seconds).1 untold

/-! ## The invariant -/

/-- Something is there under a stored path, or the session was not told that nothing is, or the document waits to be
linted. -/
def Watches (s : Session) (untold : Set Place) (key : String) : Prop :=
  s.Present key ∨ s.workspace.fs.placeOf key ∈ untold ∨
    ∃ text, key = s.workspace.absolute text ∧ Findable s.workspace.env.cwd text ∧ s.isPending text = true

/-- What comes last lints all documents, and all is fresh unless something was not told or is still to come. -/
structure Attending (s : Session) (untold : Set Place) : Prop where
  workable : s.Workable
  marker : Path.IsName s.workspace.settings.marker.toList ∧ s.workspace.roots.marker = s.workspace.settings.marker
  found : s.Found
  tidy : s.Tidy
  steady : s.debouncer.Steady fun key target => key = target.key
  last : ∀ x, s.debouncer.coming.getLast? = some x → x = (Relint.all.key, .all)
  recalls : s.workspace.Recalls ∨ ∃ above, above ++ [s.workspace.settings.marker] ∈ untold
  fresh : untold.Nonempty ∨ s.isPending Relint.all.key = true ∨ s.Fresh
  watches : ∀ key, s.workspace.settings.isDocument (.ofString key) = true → key ≠ s.workspace.absolute Relint.all.key →
    s.Watches untold key

variable {s s' : Session} {untold : Set Place} {path : FilePath}

/-! ## What is let through -/

/-- What is let through leaves all fresh if a lint of all documents comes last in it. -/
theorem fresh_carryOutAll (h : s.Workable) (hfound : s.Found) (hrecalls : s.workspace.Recalls)
    {out : List (Emission String Relint)} : (s.carryOutAll (out ++ [.effect .all])).1.Fresh := by
  have hkeeps := keeps_carryOutAll h.sited out
  rw [carryOutAll_append]
  exact (h.congr hkeeps.site).fresh_lintAll (hkeeps.found hfound) (hkeeps.recalls hrecalls)

section Deliver

variable {d : Debouncer String Relint} {told : List (String × Relint)}

/-- A session stays workable whatever its debouncer. -/
theorem Attending.workable_withDebouncer (h : Attending s untold) (d : Debouncer String Relint) :
    (s.withDebouncer d).Workable :=
  h.workable.congr ⟨rfl, rfl, rfl, rfl⟩

/-- If nothing is still to come, the last that was told, if anything, was the event for all documents. -/
theorem Attending.fresh_deliver (h : Attending s untold) (hsteady : d.Steady fun key target => key = target.key)
    (hparted : s.debouncer.coming = told ++ d.coming) :
    untold.Nonempty ∨ d.isPending Relint.all.key = true ∨
    ((s.withDebouncer d).carryOutAll (told.map (.effect ·.2))).1.Fresh := by
  cases hcoming : d.coming.getLast? with
  | some x =>
    have hx : x = (Relint.all.key, .all) := h.last x (by rw [hparted, List.getLast?_append, hcoming]; rfl)
    exact .inr (.inl (hsteady.isPending_iff.2 ⟨.all, hx ▸ List.mem_of_getLast? hcoming⟩))
  | none =>
    rw [List.getLast?_eq_none_iff.1 hcoming, List.append_nil] at hparted
    cases htold : told.getLast? with
    | none =>
      rw [List.getLast?_eq_none_iff.1 htold] at hparted ⊢
      rcases h.fresh with hnonempty | hpending | hfresh
      · exact .inl hnonempty
      · obtain ⟨target, htarget⟩ := h.steady.isPending_iff.1 hpending
        simp [hparted] at htarget
      · exact .inr (.inr hfresh)
    | some x =>
      obtain rfl := h.last x (hparted ▸ htold)
      obtain ⟨before, rfl⟩ := List.getLast?_eq_some_iff.1 htold
      rcases h.recalls with hrecalls | ⟨above, habove⟩
      · rw [List.map_append]
        exact .inr (.inr (fresh_carryOutAll (h.workable_withDebouncer d) h.found hrecalls))
      · exact .inl ⟨_, habove⟩

/-- A document that waited still waits, or was linted. -/
theorem Attending.watches_deliver (h : Attending s untold) (hsteady : d.Steady fun key target => key = target.key)
    (hparted : s.debouncer.coming = told ++ d.coming) (key : String)
    (hdocument : s.workspace.settings.isDocument (.ofString key) = true)
    (hne : key ≠ s.workspace.absolute Relint.all.key) :
    ((s.withDebouncer d).carryOutAll (told.map (.effect ·.2))).1.Present key ∨ s.workspace.fs.placeOf key ∈ untold ∨
      ∃ text, key = s.workspace.absolute text ∧ Findable s.workspace.env.cwd text ∧ d.isPending text = true := by
  have hsited := (h.workable_withDebouncer d).sited
  rcases h.watches key hdocument hne with hpresent | huntold | ⟨text, hkey, hfindable, hpending⟩
  · exact .inl ((keeps_carryOutAll hsited _).present key hpresent)
  · exact .inr (.inl huntold)
  · obtain ⟨target, htarget⟩ := h.steady.isPending_iff.1 hpending
    have hstands : text = target.key := h.steady.stands_of_mem htarget
    rw [hparted] at htarget
    rcases List.mem_append.1 htarget with htold | hcoming
    · cases target with
      | all => exact absurd (hstands ▸ hkey) hne
      | one path =>
        obtain rfl : text = path.toString := hstands
        rw [hkey]
        exact .inl (present_carryOutAll hsited h.found (hfindable _ h.workable.cwd) (List.mem_map.2 ⟨_, htold, rfl⟩))
    · exact .inr (.inr ⟨text, hkey, hfindable, hsteady.isPending_iff.2 ⟨target, hcoming⟩⟩)

/-- What a debouncer lets through leaves the session attending. -/
theorem Attending.deliver (h : Attending s untold) {done : Debouncer String Relint × List (Emission String Relint)}
    (hdone : s.debouncer.Delivers (fun key target => key = target.key) done) :
    Attending ((s.withDebouncer done.1).carryOutAll done.2).1 untold := by
  obtain ⟨d, out⟩ := done
  obtain ⟨told, rfl, hparted⟩ := hdone.parted
  have hwork := h.workable_withDebouncer d
  have hkeeps := keeps_carryOutAll hwork.sited (told.map (.effect ·.2))
  have hfresh := h.fresh_deliver hdone.steady hparted
  have hwatches := h.watches_deliver hdone.steady hparted
  have hlast : ∀ x, d.coming.getLast? = some x → x = (Relint.all.key, .all) := by
    intro x hx
    refine h.last x ?_
    rw [hparted, List.getLast?_append, hx]
    rfl
  dsimp only
  generalize ((s.withDebouncer d).carryOutAll (told.map (.effect ·.2))).1 = s' at hkeeps hfresh hwatches ⊢
  have hsite := hkeeps.site
  have hdebouncer : s'.debouncer = d := hkeeps.debouncer
  refine ⟨hwork.congr hsite, ?_, hkeeps.found h.found, hkeeps.tidy h.tidy, ?_, ?_, ?_, ?_, ?_⟩
  · rw [hkeeps.marker, hsite.settings]
    exact h.marker
  · rw [hdebouncer]
    exact hdone.steady
  · rw [hdebouncer]
    exact hlast
  · rw [hsite.settings]
    exact h.recalls.imp_left hkeeps.recalls
  · rw [isPending, hdebouncer]
    exact hfresh
  · intro key hdocument hne
    rw [hsite.settings] at hdocument
    rw [hsite.absolute] at hne
    unfold Watches isPending
    rw [hsite.fs, hsite.env, hdebouncer]
    simp only [hsite.absolute]
    exact hwatches key hdocument hne

end Deliver

/-! ## Steps -/

/-- A session that has linted every document below its directory is attending. -/
theorem attending_begin {disk : Disk} {env : Environment} {settings : Settings}
    {directory : FilePath} (hdisk : disk.Proper)
    (hcwd : disk.cwd = env.cwd) (hpath : directory.WellFormed) (hmarker : Path.IsName settings.marker.toList)
    (hoverride : ∃ o, settings.resolvedRootDir env = .ok o)
    (hlintable : (new (.new disk env settings) directory).Lintable disk) :
    Attending (new (.new disk env settings) directory).lintAll.session ∅ := by
  have hwork : (new (.new disk env settings) directory).Workable := ⟨hdisk, hcwd, hpath, hlintable, hoverride⟩
  have hnothing : ∀ key, (new (.new disk env settings) directory).workspace.diagnostics.contains key ≠ true := by
    simp [new, Workspace.new, Assoc.contains, Assoc.empty]
  have hfound : (new (.new disk env settings) directory).Found := fun key hkey => absurd hkey (hnothing key)
  have hfresh := hwork.fresh_lintAll hfound (Workspace.recalls_new _ _ _)
  have hkeeps := keeps_lintAll hwork.sited
  have hsite := hkeeps.site
  generalize (new (.new disk env settings) directory).lintAll.session = s at hfresh hkeeps hsite ⊢
  refine ⟨hwork.congr hsite, ?_, hkeeps.found hfound, hkeeps.tidy fun key hkey => absurd hkey (hnothing key), ?_, ?_,
    .inl (hkeeps.recalls (Workspace.recalls_new _ _ _)), .inr (.inr hfresh),
    fun key _ _ => .inl (hkeeps.present key fun hkey => absurd hkey (hnothing key))⟩
  · rw [hkeeps.marker, hsite.settings]
    exact ⟨hmarker, rfl⟩
  · rw [hkeeps.debouncer]
    exact Debouncer.steady_idle _
  · rw [hkeeps.debouncer]
    simp [new, Debouncer.coming, Debouncer.upcoming]

/-- Where no place is altered, all stays fresh. -/
theorem Fresh.change (h : s.Fresh) (hwork : s.Workable) {disk : Disk} (hdisk : disk.Proper)
    (hagrees : s.workspace.fs.Agrees disk) (hlintable : s.Lintable disk) : (s.withDisk disk).Fresh := by
  intro key hbelow text htext
  obtain ⟨paths, hpaths, p, hp, rfl⟩ := hbelow
  obtain rfl := Except.ok.inj ((collectDocuments_directory hlintable.directory).symm.trans hpaths)
  obtain ⟨hmem, hdocument⟩ := List.mem_filter.1 hp
  have hmem' := hagrees.symm.mem_filePathsBelow hdisk hwork.directory hmem htext
  have hplace : s.workspace.fs.placeOf p.toString ∉ s.workspace.fs.Altered disk := by
    rw [hagrees.altered]
    exact Set.notMem_empty _
  change Document.readText disk (Path.absolute disk.cwd p.toString) = .ok text at htext
  rw [hagrees.cwd] at htext
  obtain ⟨old, hold, hstored⟩ := h (Path.absolute s.workspace.fs.cwd p.toString)
    ⟨_, collectDocuments_directory hwork.lintable.directory, p, List.mem_filter.2 ⟨hmem', hdocument⟩, rfl⟩ text
    (Disk.readText_of_notMem_altered hwork.disk hdisk hagrees.cwd hplace htext)
  have hanswered := Workspace.resolve_isOk_iff.1 (Workspace.lint_isOk_iff.1 ⟨old, hold⟩)
  obtain ⟨fresh, hfresh⟩ := Workspace.lint_isOk_iff.2
    ((Workspace.resolve_isOk_iff (w := Workspace.new disk s.workspace.env s.workspace.settings)).2 hanswered)
  have hexists := hagrees.pathExists_eq hwork.disk.cwd.absolute
  have hvalue := (Workspace.knows_new _ _ _).lint_value_eq (Workspace.knows_new _ _ _) hexists rfl rfl hold hfresh
  change ∃ fresh, (Workspace.new disk s.workspace.env s.workspace.settings).lint
    ⟨Path.absolute disk.cwd p.toString, text⟩ = .ok fresh ∧
    s.workspace.diagnostics.get? (Path.absolute disk.cwd p.toString) = some fresh.value
  rw [hagrees.cwd]
  exact ⟨fresh, hfresh, hstored.trans (congrArg some hvalue.symm)⟩

/-- What is altered by a change of the disk was not told, and everything else is as it was. -/
theorem Attending.change (h : Attending s untold) {disk : Disk} (hdisk : disk.Proper)
    (hcwd : disk.cwd = s.workspace.fs.cwd)
    (hlintable : s.Lintable disk) : Attending (s.withDisk disk) (untold ∪ s.workspace.fs.Altered disk) := by
  have hwork : (s.withDisk disk).Workable := ⟨hdisk, hcwd.trans h.workable.cwd, h.workable.directory,
    ⟨hlintable.directory, hlintable.seen, hlintable.scanned⟩, h.workable.override⟩
  refine ⟨hwork, h.marker, h.found, h.tidy, h.steady, h.last, ?_, ?_, ?_⟩
  · by_cases hsame : ∀ above, above ++ [s.workspace.settings.marker] ∉ s.workspace.fs.Altered disk
    · rcases h.recalls with hrecalls | ⟨above, habove⟩
      · have hmarker := hrecalls.marker
        refine .inl ⟨hmarker, hrecalls.roots.of_altered h.workable.disk hdisk hcwd ?_ ?_⟩
        · rw [hmarker]
          exact h.marker.1
        · rw [hmarker]
          exact hsame
      · exact .inr ⟨above, .inl habove⟩
    · obtain ⟨above, habove⟩ := not_forall.1 hsame
      exact .inr ⟨above, .inr (not_not.1 habove)⟩
  · rcases (s.workspace.fs.Altered disk).eq_empty_or_nonempty with hnone | hsome
    · rcases h.fresh with hnonempty | hpending | hfresh
      · exact .inl hnonempty.inl
      · exact .inr (.inl hpending)
      · exact .inr (.inr (hfresh.change h.workable hdisk ⟨hcwd, hnone⟩ hlintable))
    · exact .inl hsome.inr
  · intro key hdocument hne
    rcases h.watches key hdocument hne with hpresent | huntold | hwaits
    · by_cases haltered : s.workspace.fs.placeOf key ∈ s.workspace.fs.Altered disk
      · exact .inr (.inl (.inr (by rw [← Disk.placeOf_eq hcwd] at haltered; exact haltered)))
      · refine .inl fun hstored => ?_
        have hexists := Disk.pathExists_eq_of_notMem_altered h.workable.disk hdisk hcwd haltered
        rw [(h.tidy key hstored).absolute_eq] at hexists
        exact hexists.trans (hpresent hstored)
    · exact .inr (.inl (.inl (by rw [← Disk.placeOf_eq hcwd] at huntold; exact huntold)))
    · exact .inr (.inr hwaits)

/-- Targets that are scheduled under their own keys leave a steady debouncer. -/
theorem steady_foldl (targets : List Relint) {d : Debouncer String Relint}
    (h : d.Steady fun key target => key = target.key) :
    (targets.foldl (fun d t => d.schedule t.key [.emit t]) d).Steady fun key target => key = target.key := by
  induction targets generalizing d with
  | nil => exact h
  | cons t ts ih => exact ih (h.schedule rfl)

/-- A batch in which not all paths are documents asks for its documents, and for everything last. -/
theorem relintsFor_of_other {settings : Settings} {paths : List FilePath}
    (h : ∃ p ∈ paths, settings.isDocument p = false) :
    relintsFor settings paths = (paths.filter settings.isDocument).map .one ++ [.all] := by
  obtain ⟨p, hp, hother⟩ := h
  have hall : paths.all settings.isDocument = false := List.all_eq_false.2 ⟨p, hp, by simp [hother]⟩
  rw [relintsFor, hall]
  rfl

/-- A report that tells of a marker has every remembered root forgotten. -/
theorem Attending.recalls_takeIn (h : Attending s untold) (paths : List FilePath) :
    (s.takeIn paths).1.workspace.Recalls ∨ ∃ above, above ++ [s.workspace.settings.marker] ∈ untold \ s.told paths := by
  obtain ⟨hname, hmarker⟩ := h.marker
  have hforgets : (s.workspace.roots.Recalls s.workspace.fs ∨
      ∃ p ∈ (paths.map (·.toString)).map s.workspace.absolute, Path.basename p = s.workspace.roots.marker) →
      (s.takeIn paths).1.workspace.Recalls := by
    intro hroots
    exact ⟨(Roots.invalidate_marker _ _).trans hmarker, Roots.recalls_invalidate hroots⟩
  rcases h.recalls with hrecalls | ⟨above, habove⟩
  · exact .inl (hforgets (.inl hrecalls.roots))
  · by_cases htold : above ++ [s.workspace.settings.marker] ∈ s.told paths
    · obtain ⟨⟨p, hp, hplace⟩, -⟩ := htold
      have hbase := Disk.basename_absolute h.workable.disk.cwd.absolute hname hplace
      rw [h.workable.cwd] at hbase
      exact .inl (hforgets (.inr ⟨_, List.mem_map.2 ⟨_, List.mem_map_of_mem hp, rfl⟩, hbase.trans hmarker.symm⟩))
    · exact .inr ⟨above, habove, htold⟩

/-- A report has all documents linted after everything that was scheduled before. -/
theorem Attending.report (h : Attending s untold) {paths : List FilePath}
    (hother : ∃ p ∈ paths, s.workspace.settings.isDocument p = false) :
    Attending (s.onChange paths).1 (untold \ s.told paths) := by
  have htargets := relintsFor_of_other hother
  have hones := steady_foldl ((paths.filter s.workspace.settings.isDocument).map .one) h.steady
  have hpending := (telling_foldl (fun t (_ : t ∈ relintsFor s.workspace.settings paths) => rfl) h.steady.telling).2
  have hsteady := steady_foldl (relintsFor s.workspace.settings paths) h.steady
  have hlast := hones.coming_schedule Relint.all.key .all
  rw [onChange_session, scheduled]
  rw [htargets, List.foldl_append, List.foldl_cons, List.foldl_nil] at hsteady hpending ⊢
  generalize (((paths.filter s.workspace.settings.isDocument).map Relint.one).foldl
    (fun d t => d.schedule t.key [.emit t])
    s.debouncer).schedule Relint.all.key [.emit .all] = d at hsteady hpending hlast ⊢
  have hwaiting : Attending ((s.takeIn paths).1.withDebouncer d) (untold \ s.told paths) := by
    refine ⟨h.workable.congr ⟨rfl, rfl, rfl, rfl⟩, ⟨h.marker.1, (Roots.invalidate_marker _ _).trans h.marker.2⟩,
      h.found, h.tidy, hsteady, ?_, h.recalls_takeIn paths, ?_, ?_⟩
    · intro x hx
      change d.coming.getLast? = some x at hx
      rw [hlast, List.getLast?_concat] at hx
      exact (Option.some.inj hx).symm
    · exact .inr (.inl ((hpending _).2 (.inl ⟨.all, by simp, rfl⟩)))
    · intro key hdocument hne
      rcases h.watches key hdocument hne with hpresent | huntold | ⟨text, hkey, hfindable, hwaits⟩
      · exact .inl hpresent
      · by_cases htold : s.workspace.fs.placeOf key ∈ s.told paths
        · by_cases hstored : s.workspace.diagnostics.contains key = true
          · obtain ⟨p, hp, hkey, hisDocument, hfindable⟩ := htold.2 key hstored hdocument rfl
            refine .inr (.inr ⟨p.toString, hkey, hfindable, (hpending _).2 (.inl ⟨.one p, ?_, rfl⟩)⟩)
            exact List.mem_append_left _ (List.mem_map_of_mem (List.mem_filter.2 ⟨hp, hisDocument⟩))
          · exact .inl fun hkey => absurd hkey hstored
        · exact .inr (.inl ⟨huntold, htold⟩)
      · exact .inr (.inr ⟨text, hkey, hfindable, (hpending _).2 (.inr hwaits)⟩)
  exact hwaiting.deliver hsteady.settle

/-- The invariant holds in every state that a session comes to. -/
theorem Attended.attending (h : Attended s untold) : Attending s untold := by
  induction h with
  | begin hdisk hcwd hpath hmarker hoverride hlintable =>
    exact attending_begin hdisk hcwd hpath hmarker hoverride hlintable
  | change _ hdisk hcwd hlintable ih => exact ih.change hdisk hcwd hlintable
  | report _ hother ih => exact ih.report hother
  | advance _ hforward ih =>
    rw [advance_session]
    exact ih.deliver (ih.steady.advance hforward)

/-! ## A marker that goes -/

/-- A path that leads somewhere can be found. -/
theorem findable_of_find {disk : Disk} {path : String} {place : Place} (h : disk.find path = .ok place) :
    Findable disk.cwd path := by
  intro other hcwd e he
  rcases other.lookUp_cases path with ⟨hlong, -⟩ | ⟨-, hnone⟩ | ⟨place', node, -, -, hsome⟩
  · exact Disk.find_ne_tooLong hcwd h hlong
  · nomatch he.symm.trans hnone
  · nomatch he.symm.trans hsome

/-- Where no interval is waited for, a batch that leaves nothing untold has all documents linted at once, and then
nothing waits. -/
theorem Attended.report_all (h : Attended s untold) {paths : List FilePath}
    (hother : ∃ p ∈ paths, s.workspace.settings.isDocument p = false) (hall : untold ⊆ s.told paths)
    {d : Debouncer String Relint} (hscheduled : s.scheduled paths = (d, [.effect .all])) (hd : d.pending = .empty) :
    (∀ key, (s.onChange paths).1.isPending key = false) ∧ Attended (s.onChange paths).1 ∅ ∧
      SameSite s (s.onChange paths).1 ∧
      ∃ taken, SameSite s taken ∧ taken.workspace.diagnostics = s.workspace.diagnostics ∧
        (s.onChange paths).1 = taken.lintAll.session := by
  have hreport := h.report hother
  have hsite : SameSite s ((s.takeIn paths).1.withDebouncer d) := ⟨rfl, rfl, rfl, rfl⟩
  have hkeeps := keeps_lintAll (h.attending.workable.congr hsite).sited
  have hsession : (s.onChange paths).1 = ((s.takeIn paths).1.withDebouncer d).lintAll.session := by
    rw [onChange_session, hscheduled]
    rfl
  rw [Set.sdiff_eq_empty.2 hall] at hreport
  refine ⟨?_, hreport, ?_, _, hsite, rfl, hsession⟩
  · intro key
    rw [hsession, isPending, hkeeps.debouncer]
    change d.pending.contains key = false
    rw [hd]
    rfl
  · rw [hsession]
    exact hsite.trans hkeeps.site

/-- A pass over one document that is read stores its diagnostics and nothing else. -/
theorem lintAll_of_one (hdocuments : s.documents.result = .ok [path]) {d : Document} (hread : s.readable? path = some d)
    {a : Answer Disk (List Diagnostic)} (hlint : s.workspace.lint d = .ok a) :
    s.lintAll.session = { s with workspace := a.workspace } := by
  obtain ⟨hsession, hresult⟩ := lintOne_of_lint hread hlint
  unfold lintAll
  simp only [hdocuments, documents_session]
  simp [lintEach, hresult, hsession]

/-- A pass over no document changes nothing. -/
theorem lintAll_of_none (h : collectDocuments s.workspace.fs s.workspace.settings [s.directory] = .ok []) :
    s.lintAll.session = s := by
  unfold lintAll documents
  rw [h]
  rfl

/-- A pass over one document leaves nothing stored but under its path, if nothing was stored before. -/
theorem eq_of_contains_insert {w : Workspace Disk} {path : String} {diagnostics : List Diagnostic}
    (h : w.diagnostics = Assoc.empty.insert path diagnostics) {key : String}
    (hkey : w.diagnostics.contains key = true) : key = path := by
  rw [h, Assoc.contains_iff, Assoc.get?_insert] at hkey
  by_contra hne
  simp [hne] at hkey

/-- A session that has linted one document, and whose disk then became another. -/
structure Changed (s : Session) (before after : Disk) (setting : Settings) (below : FilePath) (path : String)
    (diagnostics : List Diagnostic) : Prop where
  attended : Attended s (before.Altered after)
  fs : s.workspace.fs = after
  env : s.workspace.env = {}
  settings : s.workspace.settings = setting
  directory : s.directory = below
  debouncer : s.debouncer = { delay := setting.debounce }
  stored : s.workspace.diagnostics = Assoc.empty.insert path diagnostics

/-- A session whose first pass stores the diagnostics of one document comes to be one over another disk. -/
theorem exists_changed {disk disk' : Disk} {settings : Settings} {directory : FilePath} {d : Document}
    {a : Answer Disk (List Diagnostic)} (hdisk : disk.Proper) (hdisk' : disk'.Proper) (hcwd : disk.cwd = "/")
    (hcwd' : disk'.cwd = "/") (hdirectory : directory.WellFormed) (hmarker : Path.IsName settings.marker.toList)
    (hoverride : ∃ o, settings.resolvedRootDir {} = .ok o)
    (hlintable : (new (.new disk {} settings) directory).Lintable disk)
    (hlintable' : (new (.new disk {} settings) directory).Lintable disk')
    (ha : (Workspace.new disk {} settings).lint d = .ok a)
    (hlinted : (new (.new disk {} settings) directory).lintAll.session =
      { new (.new disk {} settings) directory with workspace := a.workspace }) :
    ∃ s, Changed s disk disk' settings directory d.path a.value := by
  have hsame := (Workspace.lint_eq ha).2
  have hbegin := Attended.begin hdisk hcwd hdirectory hmarker hoverride hlintable
  obtain ⟨s, hs⟩ : ∃ s, s = { new (.new disk {} settings) directory with workspace := a.workspace } := ⟨_, rfl⟩
  rw [hlinted, ← hs] at hbegin
  have hfs : s.workspace.fs = disk := by rw [hs]; exact hsame.fs
  have hsettings : s.workspace.settings = settings := by rw [hs]; exact hsame.settings
  have hstays : s.directory = directory := by rw [hs]; rfl
  obtain ⟨hthere, hseen, hscanned⟩ := hlintable'
  have hchange := hbegin.change hdisk' (hcwd'.trans (hfs ▸ hcwd.symm))
    ⟨hstays ▸ hthere, fun p hp hdocument => hseen p (hstays ▸ hp) (hsettings ▸ hdocument),
      fun p hp hdocument => hscanned p (hstays ▸ hp) (hsettings ▸ hdocument)⟩
  rw [hfs, Set.empty_union] at hchange
  refine ⟨s.withDisk disk', hchange, rfl, ?_, hsettings, hstays, ?_, ?_⟩
  · rw [hs]
    exact hsame.env
  · rw [hs]; rfl
  · rw [hs]
    exact hsame.diagnostics

/-- A disk with a document that refers to itself by its name, below the directory that the marker is in. -/
def marked : Disk :=
  { nodes := [(["mkdocs.yml"], .file []), (["d"], .directory), (["d", "a.md"], .file "{* a.md *}".toUTF8.toList)] }

/-- The disk without the marker. -/
def unmarked : Disk := marked.delete ["mkdocs.yml"]

/-- The document that refers to itself. -/
def selfish : Document := ⟨"/d/a.md", "{* a.md *}"⟩

/-- A session over the directory of the document on the disk with the marker. -/
def guided : Session := new (.new marked {} prompt) ⟨1, ["d"]⟩

theorem scan_selfish : Reference.scan selfish.text = .ok [⟨"a.md", none, none, ⟨0, 10⟩⟩] := by cbv

/-- The document that refers to itself is linted over either disk. -/
theorem exists_lint_selfish {w : Workspace Disk} (henv : w.env = {}) (hsettings : w.settings = prompt) :
    ∃ a, w.lint selfish = .ok a := by
  refine Workspace.lint_isOk_iff.2 (Workspace.resolve_isOk_iff.2 ⟨⟨none, ?_⟩, _, scan_selfish⟩)
  rw [Workspace.rootOverride, henv, hsettings]
  rfl

theorem proper_marked : marked.Proper := by
  refine ⟨⟨rfl, by cbv⟩, ?_⟩
  decide

theorem load_selfish {disk : Disk} (hdisk : disk = marked ∨ disk = unmarked) :
    Document.load disk (FilePath.toString ⟨1, ["d", "a.md"]⟩) none = .ok selfish := by
  rcases hdisk with rfl | rfl <;> cbv

/-- The one document is below its directory on either disk. -/
theorem filePathsBelow_selfish {disk : Disk} (hdisk : disk = marked ∨ disk = unmarked) :
    disk.filePathsBelow ⟨1, ["d"]⟩ = [⟨1, ["d", "a.md"]⟩] := by
  rcases hdisk with rfl | rfl <;> cbv

/-- The one document can be linted, whether the marker is there or not. -/
theorem lintable_selfish {disk : Disk} (hdisk : disk = marked ∨ disk = unmarked)
    (hdirectory : s.directory = ⟨1, ["d"]⟩) : s.Lintable disk := by
  refine ⟨?_, ?_, ?_⟩
  · rw [hdirectory]
    rcases hdisk with rfl | rfl <;> decide
  · intro p hp _ e he
    rw [hdirectory, filePathsBelow_selfish hdisk] at hp
    obtain rfl := List.mem_singleton.1 hp
    have hlook : disk.lookUp (FilePath.toString ⟨1, ["d", "a.md"]⟩) =
        .ok (some (.file "{* a.md *}".toUTF8.toList)) := by
      rcases hdisk with rfl | rfl <;> cbv
    cases he.symm.trans hlook
  · intro p hp _ d hd
    rw [hdirectory, filePathsBelow_selfish hdisk] at hp
    obtain rfl := List.mem_singleton.1 hp
    obtain rfl := Except.ok.inj (hd.symm.trans (load_selfish hdisk))
    exact ⟨_, scan_selfish⟩

/-- When the marker goes, its place alone is altered. -/
theorem altered_unmarked : marked.Altered unmarked ⊆ {["mkdocs.yml"]} := by
  intro place hplace
  have hdenied : unmarked.denied = marked.denied := rfl
  obtain ⟨hreach, entry, hentry, rfl⟩ := Disk.exists_node_of_mem_altered hdenied hplace
  have hplaces : ∀ e ∈ marked.nodes ++ unmarked.nodes, e.1 = ["mkdocs.yml"] ∨ e.1 = ["d"] ∨
    e.1 = ["d", "a.md"] := by decide
  rcases hplaces entry hentry with h | h | h
  · exact h
  · rw [h] at hreach
    exact absurd (by cbv) hreach
  · rw [h] at hreach
    exact absurd (by cbv) hreach

/-- The first pass stores the diagnostics of the one document. -/
theorem lintAll_guided :
    ∃ a, guided.workspace.lint selfish = .ok a ∧ guided.lintAll.session = { guided with workspace := a.workspace } := by
  obtain ⟨a, ha⟩ := exists_lint_selfish (w := guided.workspace) rfl rfl
  have hcollected : collectDocuments marked prompt [⟨1, ["d"]⟩] = .ok [⟨1, ["d", "a.md"]⟩] := by
    rw [collectDocuments_directory (by decide), filePathsBelow_selfish (.inl rfl)]
    rfl
  have hdocuments : guided.documents.result = .ok [⟨1, ["d", "a.md"]⟩] := by
    unfold documents
    simp only [guided, new, Workspace.new, hcollected]
  have hread : guided.readable? ⟨1, ["d", "a.md"]⟩ = some selfish := by cbv
  exact ⟨a, ha, lintAll_of_one hdocuments hread ha⟩

/-- A session that is told that the marker went, and lints the document again. -/
theorem exists_unguided :
    ∃ s, Attended s ∅ ∧ (∀ key, s.isPending key = false) ∧ s.workspace.fs = unmarked ∧ s.workspace.env = {} ∧
      s.workspace.settings = prompt ∧ s.directory = ⟨1, ["d"]⟩ := by
  obtain ⟨a, ha, hlinted⟩ := lintAll_guided
  have hname : Path.IsName prompt.marker.toList := by decide
  obtain ⟨s, h⟩ := exists_changed proper_marked (proper_marked.delete _) rfl rfl
    ⟨by decide, by decide⟩ hname ⟨none, rfl⟩
    (lintable_selfish (.inl rfl) rfl) (lintable_selfish (.inr rfl) rfl) ha hlinted
  have htold : ["mkdocs.yml"] ∈ s.told [⟨1, ["mkdocs.yml"]⟩] := by
    refine ⟨⟨_, List.mem_singleton.2 rfl, by rw [h.fs]; cbv⟩, ?_⟩
    intro key hkey _ hplace
    rw [eq_of_contains_insert h.stored hkey, h.fs] at hplace
    exact absurd hplace (by cbv; decide)
  have hall : marked.Altered unmarked ⊆ s.told [⟨1, ["mkdocs.yml"]⟩] :=
    altered_unmarked.trans (Set.singleton_subset_iff.2 htold)
  have hother : ∃ p ∈ [(⟨1, ["mkdocs.yml"]⟩ : FilePath)], s.workspace.settings.isDocument p = false :=
    ⟨_, List.mem_singleton.2 rfl, by rw [h.settings]; decide⟩
  have hscheduled : s.scheduled [⟨1, ["mkdocs.yml"]⟩] = ({ delay := .zero, tasks := 1 }, [.effect .all]) := by
    have htargets : relintsFor prompt [⟨1, ["mkdocs.yml"]⟩] = [.all] := by decide
    rw [scheduled, h.settings, h.debouncer, htargets]
    cbv
  obtain ⟨hquiet, hattended, hsite, -⟩ := h.attended.report_all hother hall hscheduled rfl
  exact ⟨_, hattended, hquiet, hsite.fs.trans h.fs, hsite.env.trans h.env, hsite.settings.trans h.settings,
    hsite.directory.trans h.directory⟩

/-! ## A document that is shown as a star -/

/-- A disk with an empty document whose name is a star. -/
def starred : Disk := { nodes := [(["*"], .file [])] }

/-- Settings under which a name without a suffix is that of a document. -/
def suffixless : Settings := { debounce := .zero, suffixes := [""] }

/-- A session over the working directory. -/
def starry : Session := new (.new starred {} suffixless) ⟨0, []⟩

theorem proper_starred : starred.Proper := by
  refine ⟨⟨rfl, by cbv⟩, ?_⟩
  decide

theorem filePathsBelow_starred : starred.filePathsBelow ⟨0, []⟩ = [⟨0, ["*"]⟩] := by cbv

theorem lintable_starred : starry.Lintable starred := by
  have hload : Document.load starred (FilePath.toString ⟨0, ["*"]⟩) none = .ok ⟨"/*", ""⟩ := by cbv
  have hlook : starred.lookUp (FilePath.toString ⟨0, ["*"]⟩) = .ok (some (.file [])) := by cbv
  have hscan : Reference.scan "" = .ok [] := by cbv
  refine ⟨by decide, ?_, ?_⟩
  · intro p hp _ e he
    obtain rfl := List.mem_singleton.1 (filePathsBelow_starred ▸ hp)
    cases he.symm.trans hlook
  · intro p hp _ d hd
    obtain rfl := List.mem_singleton.1 (filePathsBelow_starred ▸ hp)
    obtain rfl := Except.ok.inj (hd.symm.trans hload)
    exact ⟨_, hscan⟩

/-- The first pass stores the diagnostics of the one document. -/
theorem lintAll_starry :
    ∃ a, starry.workspace.lint ⟨"/*", ""⟩ = .ok a ∧
    starry.lintAll.session = { starry with workspace := a.workspace } := by
  have hscan : Reference.scan "" = .ok [] := by cbv
  obtain ⟨a, ha⟩ : ∃ a, starry.workspace.lint ⟨"/*", ""⟩ = .ok a :=
    Workspace.lint_isOk_iff.2 (Workspace.resolve_isOk_iff.2 ⟨⟨none, rfl⟩, _, hscan⟩)
  have hcollected : collectDocuments starred suffixless [⟨0, []⟩] = .ok [⟨0, ["*"]⟩] := by
    rw [collectDocuments_directory (by decide), filePathsBelow_starred]
    rfl
  have hdocuments : starry.documents.result = .ok [⟨0, ["*"]⟩] := by
    unfold documents
    simp only [starry, new, Workspace.new, hcollected]
  have hread : starry.readable? ⟨0, ["*"]⟩ = some ⟨"/*", ""⟩ := by cbv
  exact ⟨a, ha, lintAll_of_one hdocuments hread ha⟩

theorem filePathsBelow_empty : ({} : Disk).filePathsBelow ⟨0, []⟩ = [] := by cbv

/-- When the document goes, its place alone is altered. -/
theorem altered_starred : starred.Altered {} ⊆ {["*"]} := by
  intro place hplace
  have hdenied : ({} : Disk).denied = starred.denied := rfl
  obtain ⟨-, entry, hentry, rfl⟩ := Disk.exists_node_of_mem_altered hdenied hplace
  have hplaces : ∀ e ∈ starred.nodes ++ ({} : Disk).nodes, e.1 = ["*"] := by decide
  exact hplaces entry hentry

theorem lintable_empty : starry.Lintable {} :=
  ⟨by decide, fun _ hp => absurd (filePathsBelow_empty ▸ hp) List.not_mem_nil,
    fun _ hp => absurd (filePathsBelow_empty ▸ hp) List.not_mem_nil⟩

/-- A batch that tells of the document, and of something that is no document. -/
def starReport : List FilePath := [⟨0, ["*"]⟩, ⟨0, ["b.txt"]⟩]

theorem told_starReport {diagnostics : List Diagnostic} (h : Changed s starred {} suffixless ⟨0, []⟩ "/*" diagnostics) :
    ["*"] ∈ s.told starReport := by
  refine ⟨⟨_, List.mem_cons_self, by rw [h.fs]; cbv⟩, ?_⟩
  intro key hkey hdocument _
  obtain rfl := eq_of_contains_insert h.stored hkey
  have habsolute : s.workspace.absolute (FilePath.toString ⟨0, ["*"]⟩) = "/*" := by
    rw [Workspace.absolute, h.env]
    cbv
  have hfind : starred.find (FilePath.toString ⟨0, ["*"]⟩) = .ok ["*"] := by cbv
  refine ⟨_, List.mem_cons_self, habsolute.symm, by rw [h.settings]; decide, ?_⟩
  rw [h.env]
  exact findable_of_find hfind

/-- The event for all documents takes the place of that for the document. -/
theorem scheduled_starReport {diagnostics : List Diagnostic}
    (h : Changed s starred {} suffixless ⟨0, []⟩ "/*" diagnostics) :
    s.scheduled starReport = ({ delay := .zero, tasks := 2 }, [.effect .all]) := by
  have htargets : relintsFor suffixless starReport = [.one ⟨0, ["*"]⟩, .all] := by decide
  rw [scheduled, h.settings, h.debouncer, htargets]
  cbv

/-! ## Quiet sessions -/

/-- Once nothing is left to be told and nothing waits, a session has stored for each document below its directory that
can be read the diagnostics of a new workspace, and nothing under the path of a document that is gone, unless the
document is shown as the key of the event for all documents. -/
theorem Attended.converges (h : Attended s ∅) (hquiet : ∀ key, s.isPending key = false) :
    (∃ paths, s.documents.result = .ok paths ∧
      ∀ p ∈ paths, ∀ d, Document.load s.workspace.fs p.toString none = .ok d →
        ∃ fresh, (Workspace.new s.workspace.fs s.workspace.env s.workspace.settings).lint d = .ok fresh ∧
          s.workspace.diagnostics.get? d.path = some fresh.value) ∧
    ∀ key, s.workspace.diagnostics.contains key = true → s.workspace.settings.isDocument (.ofString key) = true →
      key ≠ s.workspace.absolute Relint.all.key → s.workspace.fs.pathExists key = true := by
  have hattending := h.attending
  refine ⟨?_, ?_⟩
  · obtain ⟨paths, hcollected, hpaths, -⟩ := hattending.workable.exists_documents
    refine ⟨paths, hpaths, ?_⟩
    intro p hp d hd
    obtain ⟨hpath, htext⟩ := Document.load_eq_ok_iff.1 hd
    have hfresh : s.Fresh := by
      rcases hattending.fresh with hnonempty | hpending | hfresh
      · exact absurd hnonempty Set.not_nonempty_empty
      · rw [hquiet] at hpending
        exact Bool.noConfusion hpending
      · exact hfresh
    exact hfresh d.path ⟨paths, hcollected, p, hp, hpath⟩ d.text (hpath ▸ htext)
  · intro key hstored hdocument hne
    rcases hattending.watches key hdocument hne with hpresent | huntold | ⟨text, -, -, hpending⟩
    · exact hpresent hstored
    · exact absurd huntold (Set.notMem_empty _)
    · rw [hquiet] at hpending
      exact Bool.noConfusion hpending

/-- Where the marker went, the document has the diagnostics of a new workspace, which are not those that it had
before. -/
theorem Attended.converges_unmarked :
    ∃ s, Attended s ∅ ∧ (∀ key, s.isPending key = false) ∧ s.workspace.fs = unmarked ∧
      ∃ before fresh, guided.workspace.lint selfish = .ok before ∧
        (Workspace.new s.workspace.fs s.workspace.env s.workspace.settings).lint selfish = .ok fresh ∧
        before.value ≠ fresh.value ∧ s.workspace.diagnostics.get? "/d/a.md" = some fresh.value := by
  obtain ⟨s, hattended, hquiet, hfs, henv, hsettings, hdirectory⟩ := exists_unguided
  obtain ⟨before, hbefore, -⟩ := lintAll_guided
  obtain ⟨⟨paths, hpaths, hfresh⟩, -⟩ := hattended.converges hquiet
  have hcollected : collectDocuments unmarked prompt [⟨1, ["d"]⟩] = .ok [⟨1, ["d", "a.md"]⟩] := by
    rw [collectDocuments_directory (by decide), filePathsBelow_selfish (.inr rfl)]
    rfl
  have hdocuments : s.documents.result = .ok [⟨1, ["d", "a.md"]⟩] := by
    rw [documents, hfs, hsettings, hdirectory, hcollected]
  obtain rfl := Except.ok.inj (hdocuments.symm.trans hpaths)
  have hload : Document.load s.workspace.fs (FilePath.toString ⟨1, ["d", "a.md"]⟩) none = .ok selfish := by
    rw [hfs]
    exact load_selfish (.inr rfl)
  obtain ⟨fresh, hlint, hstored⟩ := hfresh _ List.mem_cons_self selfish hload
  refine ⟨s, hattended, hquiet, hfs, before, fresh, hbefore, hlint, ?_, hstored⟩
  rw [Ne, Workspace.lint_value_eq_iff hbefore hlint]
  intro hsame
  have hseen := hsame _ scan_selfish _ List.mem_cons_self
  have hthere : (Workspace.new unmarked {} prompt).sees selfish ⟨"a.md", none, none, ⟨0, 10⟩⟩ = true := by cbv
  have hmissing : guided.workspace.sees selfish ⟨"a.md", none, none, ⟨0, 10⟩⟩ = false := by cbv
  rw [hfs, henv, hsettings, hthere, hmissing] at hseen
  exact Bool.noConfusion hseen

/-- A document that is shown as a star keeps its diagnostics when it goes: the event for all documents takes the place
of its own, and a pass over the documents that are left does not come to it. -/
theorem Attended.outdated :
    ∃ s, Attended s ∅ ∧ (∀ key, s.isPending key = false) ∧
      ∃ key, s.workspace.diagnostics.contains key = true ∧ s.workspace.settings.isDocument (.ofString key) = true ∧
        s.workspace.fs.pathExists key = false := by
  obtain ⟨a, ha, hlinted⟩ := lintAll_starry
  have hname : Path.IsName suffixless.marker.toList := by decide
  obtain ⟨s, h⟩ := exists_changed proper_starred ⟨⟨rfl, by cbv⟩, by simp⟩ rfl rfl
    ⟨by decide, by decide⟩ hname ⟨none, rfl⟩
    lintable_starred lintable_empty ha hlinted
  have hall : starred.Altered {} ⊆ s.told starReport :=
    altered_starred.trans (Set.singleton_subset_iff.2 (told_starReport h))
  have hother : ∃ p ∈ starReport, s.workspace.settings.isDocument p = false :=
    ⟨_, List.mem_cons_of_mem _ List.mem_cons_self, by rw [h.settings]; decide⟩
  obtain ⟨hquiet, hattended, hsite, taken, htaken, hkept, hafter⟩ :=
    h.attended.report_all hother hall (scheduled_starReport h) rfl
  have hnone : collectDocuments taken.workspace.fs taken.workspace.settings [taken.directory] = .ok [] := by
    rw [htaken.fs, htaken.settings, htaken.directory, h.fs, h.settings, h.directory,
      collectDocuments_directory (by decide), filePathsBelow_empty]
    rfl
  have hstored : (s.onChange starReport).1.workspace.diagnostics.contains "/*" = true := by
    rw [hafter, lintAll_of_none hnone, hkept, h.stored, Assoc.contains_iff, Assoc.get?_insert]
    simp
  refine ⟨_, hattended, hquiet, "/*", hstored, ?_, ?_⟩
  · rw [hsite.settings, h.settings]
    decide
  · rw [hsite.fs, h.fs]
    cbv

end DocRefs.Session
