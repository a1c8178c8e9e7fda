import DocRefs.Proofs.Files.Store
import DocRefs.Proofs.Listings
import Mathlib

/-!
# Listings that are read at the same time

A request for a listing looks up what is remembered, then reads the directory, then stores what it read, and other
requests, changes of the files and reports of these come between. A report drops what is remembered, and leaves alone
what a request has read and not stored: the request stores it afterwards, and it is remembered though it is outdated
(`Interleaved.stale_listings`). Where no request was overtaken so, all that is remembered is what the directory lists
now (`Interleaved.listings_right`).

Over a disk that holds for directories that are named from the root and with one slash before every name. A listing is
remembered by the name that it was asked by, and a report drops it by the name that a changed path gives it.
-/

namespace DocRefs

namespace Listings

/-- Remembers what was read of a directory, unless that is an error. -/
def keep (l : Listings) (directory : String) : Except FileError (List DirectoryEntry) → Listings
  | .ok entries => l.store directory entries
  | .error _ => l

/-- A listing is kept under the normal form of its path. -/
@[simp]
theorem keep_normalize (l : Listings) (directory : String) (reading : Except FileError (List DirectoryEntry)) :
    l.keep (Path.normalize directory) reading = l.keep directory reading := by
  cases reading with
  | ok entries => rw [keep, store, Path.normalize_normalize, keep, store]
  | error e => rfl

/-- A request that nothing comes between reads the directory and keeps what it read if it is not remembered. -/
theorem get_eq_keep {σ : Type} [FileSystem σ] (l : Listings) (fs : σ) {directory : String}
    (hunknown : l.isCached directory = false) :
    (l.get fs directory).2 = (l.keep directory (FileSystem.listDirectory fs (Path.normalize directory)).1,
      (FileSystem.listDirectory fs (Path.normalize directory)).2) := by
  have hnone : l.lookup? directory = none := by
    rw [isCached, Bool.eq_false_iff, ne_eq, Assoc.contains_iff, not_exists] at hunknown
    exact Option.eq_none_iff_forall_ne_some.2 hunknown
  rw [get, hnone]
  generalize FileSystem.listDirectory fs (Path.normalize directory) = read
  obtain ⟨entries | e, fs⟩ := read <;> rfl

/-- A report drops the listings that it touches and no other. -/
theorem get?_invalidate (l : Listings) (changed : List String) (directory : String) :
    (l.invalidate changed).2.known.get? directory =
      if directory ∈ changed.flatMap touchedBy then none else l.known.get? directory := by
  refine (Assoc.get?_filter l.known (fun d => !(changed.flatMap touchedBy).contains d) directory).trans ?_
  by_cases htouched : directory ∈ changed.flatMap touchedBy <;> simp [htouched]

end Listings

/-- A request for a listing that was not remembered, and what it has read, if it has. -/
structure Fetch where
  directory : String
  reading : Option (Except FileError (List DirectoryEntry))

/-- What requests for listings share, and the requests that have not ended. -/
structure Shared where
  fs : Store
  listings : Listings
  fetches : List Fetch

namespace Shared

/-- A request begins. It ends at once if the listing is remembered. -/
def request (s : Shared) (directory : String) : Shared :=
  if s.listings.isCached directory then s else { s with fetches := s.fetches ++ [⟨Path.normalize directory, none⟩] }

/-- A request has read a directory that lists something else now. -/
def HoldsOutdated (s : Shared) (directory : String) : Prop :=
  ∃ entries, ⟨directory, some (.ok entries)⟩ ∈ s.fetches ∧ s.fs.listing directory ≠ .ok entries

/-- The directories of which a request was overtaken, after one more report: of those that it touches, the ones that a
request has read and that list something else now; of the others, the ones of before. -/
def overtaken (s : Shared) (before : Set String) (paths : List String) : Set String :=
  {d | if d ∈ paths.flatMap Listings.touchedBy then s.HoldsOutdated d else d ∈ before}

/-- While no request is under way none is overtaken. -/
theorem overtaken_of_fetches {s : Shared} (h : s.fetches = []) (paths : List String) : s.overtaken ∅ paths = ∅ := by
  refine Set.eq_empty_iff_forall_notMem.2 fun d hd => ?_
  rw [overtaken, Set.mem_ofPred_eq] at hd
  split at hd
  · obtain ⟨entries, hf, -⟩ := hd
    rw [h] at hf
    exact List.not_mem_nil hf
  · exact hd

end Shared

/-- The states that requests can come to, with the paths that came or went and were not reported since, and the
directories of which a request was overtaken by a report. Each request begins, reads its directory and stores what it
read; files come and go and any paths are reported, at any moment. -/
inductive Interleaved : Shared → Set String → Set String → Prop
  | start {fs : Store} (hfs : fs.Regular) : Interleaved ⟨fs, {}, []⟩ ∅ ∅
  | request {s : Shared} {unreported overtaken : Set String} (h : Interleaved s unreported overtaken)
      (directory : String) : Interleaved (s.request directory) unreported overtaken
  | read {s : Shared} {unreported overtaken : Set String} (h : Interleaved s unreported overtaken)
      {before after : List Fetch} {directory : String} (hfetch : s.fetches = before ++ ⟨directory, none⟩ :: after) :
      Interleaved { s with
        fs := (s.fs.listDirectory directory).2
        fetches := before ++ ⟨directory, some (s.fs.listDirectory directory).1⟩ :: after } unreported overtaken
  | store {s : Shared} {unreported overtaken : Set String} (h : Interleaved s unreported overtaken)
      {before after : List Fetch} {directory : String} {reading : Except FileError (List DirectoryEntry)}
      (hfetch : s.fetches = before ++ ⟨directory, some reading⟩ :: after) :
      Interleaved { s with listings := s.listings.keep directory reading, fetches := before ++ after }
      unreported overtaken
  | mutate {s : Shared} {unreported overtaken : Set String} (h : Interleaved s unreported overtaken)
      {fs : Store} {came : Set String} (hm : s.fs.Mutated fs came) :
      Interleaved { s with fs := fs } (unreported ∪ came) overtaken
  | report {s : Shared} {unreported overtaken : Set String} (h : Interleaved s unreported overtaken)
      (paths : List String) :
      Interleaved { s with listings := (s.listings.invalidate paths).2 }
        (unreported \ {p | p ∈ paths.map Path.normalize}) (s.overtaken overtaken paths)

namespace Shared

variable {s : Shared} {unreported overtaken : Set String} {directory : String} {entries : List DirectoryEntry}

/-- Entries are what a directory lists now, but for what was not reported. -/
def Current (s : Shared) (unreported : Set String) (directory : String) (entries : List DirectoryEntry) : Prop :=
  s.fs.listing directory = .ok entries ∨ ∃ p ∈ unreported, p = directory ∨ Path.dirname p = directory

/-- What is remembered and what requests have read is current, but for directories of which a request was overtaken. -/
structure Attended (s : Shared) (unreported overtaken : Set String) : Prop where
  regular : s.fs.Regular
  normal : ∀ directory reading, ⟨directory, reading⟩ ∈ s.fetches → Path.normalize directory = directory
  knownNormal : ∀ directory entries, s.listings.known.get? directory = some entries →
    Path.normalize directory = directory
  known : ∀ directory entries, s.listings.known.get? directory = some entries →
    s.fs.NamesAlike directory → directory ∉ overtaken →
    s.Current unreported directory entries
  fetched : ∀ directory entries, ⟨directory, some (.ok entries)⟩ ∈ s.fetches →
    s.fs.NamesAlike directory → directory ∉ overtaken →
    s.Current unreported directory entries

/-- What is current stays so, but for what comes or goes. -/
theorem Current.mutate (h : s.Current unreported directory entries) (hfs : s.fs.Regular)
    (hnormal : Path.normalize directory = directory)
    (hnames : s.fs.NamesAlike directory) {fs : Store} {came : Set String} (hm : s.fs.Mutated fs came) :
    ({ s with fs := fs } : Shared).Current (unreported ∪ came) directory entries := by
  rcases h with hnow | ⟨p, hp, hplace⟩
  · by_cases hsame : ∃ p ∈ came, p = directory ∨ Path.dirname p = directory
    · obtain ⟨p, hp, hplace⟩ := hsame
      exact .inr ⟨p, .inr hp, hplace⟩
    · refine .inl (hm.listing hfs hnormal hnames (fun p hp => ?_) hnow)
      rw [← not_or]
      exact fun hplace => hsame ⟨p, hp, hplace⟩
  · exact .inr ⟨p, .inl hp, hplace⟩

/-- What is current stays so after a report that does not touch its directory. -/
theorem Current.report (h : s.Current unreported directory entries) {paths : List String}
    (huntouched : directory ∉ paths.flatMap Listings.touchedBy) (listings : Listings) :
    ({ s with listings := listings } : Shared).Current
      (unreported \ {p | p ∈ paths.map Path.normalize}) directory entries := by
  refine h.imp_right ?_
  rintro ⟨p, hp, hplace⟩
  refine ⟨p, ⟨hp, fun hreported => ?_⟩, hplace⟩
  obtain ⟨path, hpath, rfl⟩ := List.mem_map.1 hreported
  refine huntouched (List.mem_flatMap.2 ⟨path, hpath, ?_⟩)
  rcases hplace with rfl | rfl <;> simp [Listings.touchedBy]

namespace Attended

/-- What is remembered and read stays current when a request begins. -/
theorem request (h : s.Attended unreported overtaken) (directory : String) :
    (s.request directory).Attended unreported overtaken := by
  unfold Shared.request
  split
  · exact h
  · refine ⟨h.regular, ?_, h.knownNormal, h.known, ?_⟩
    · intro d reading hf
      rcases List.mem_append.1 hf with hf | hf
      · exact h.normal d reading hf
      · rw [(Fetch.mk.inj (List.mem_singleton.1 hf)).1]
        exact Path.normalize_normalize directory
    · intro d entries hf
      rcases List.mem_append.1 hf with hf | hf
      · exact h.fetched d entries hf
      · simp at hf

/-- It stays so when a request reads its directory. -/
theorem read (h : s.Attended unreported overtaken) {before after : List Fetch}
    (hfetch : s.fetches = before ++ ⟨directory, none⟩ :: after) :
    ({ s with
        fs := (s.fs.listDirectory directory).2
        fetches := before ++ ⟨directory, some (s.fs.listDirectory directory).1⟩ :: after } : Shared).Attended
            unreported overtaken := by
  have hthere : ⟨directory, none⟩ ∈ s.fetches := hfetch ▸ List.mem_append_right _ List.mem_cons_self
  have hold : ∀ f ∈ before ++ after, f ∈ s.fetches :=
    fun f hf => hfetch ▸ List.perm_middle.mem_iff.2 (List.mem_cons_of_mem _ hf)
  have hcurrent : ∀ {d entries}, s.Current unreported d entries →
      ∀ fetches, (⟨(s.fs.listDirectory directory).2, s.listings, fetches⟩ : Shared).Current unreported d entries := by
    intro d entries hd fetches
    exact hd.imp_left (s.fs.listing_listDirectory directory d).trans
  refine ⟨h.regular.listDirectory directory, ?_, h.knownNormal, ?_, ?_⟩
  · intro d reading hf
    rcases List.mem_cons.1 (List.perm_middle.mem_iff.1 hf) with hf | hf
    · rw [(Fetch.mk.inj hf).1]
      exact h.normal directory _ hthere
    · exact h.normal d reading (hold _ hf)
  · intro d entries hknown hnames hnot
    exact hcurrent (h.known d entries hknown ((s.fs.namesAlike_listDirectory directory d).1 hnames) hnot) _
  · intro d entries hf hnames hnot
    rcases List.mem_cons.1 (List.perm_middle.mem_iff.1 hf) with hf | hf
    · obtain ⟨rfl, hreading⟩ := Fetch.mk.inj hf
      exact .inl ((s.fs.listing_listDirectory d d).trans (Option.some.inj hreading).symm)
    · exact hcurrent (h.fetched d entries (hold _ hf) ((s.fs.namesAlike_listDirectory directory d).1 hnames) hnot) _

/-- It stays so when a request stores what it has read. -/
theorem store (h : s.Attended unreported overtaken) {before after : List Fetch}
    {reading : Except FileError (List DirectoryEntry)}
    (hfetch : s.fetches = before ++ ⟨directory, some reading⟩ :: after) :
    ({ s with listings := s.listings.keep directory reading, fetches := before ++ after } : Shared).Attended
      unreported overtaken := by
  have hthere : ⟨directory, some reading⟩ ∈ s.fetches := hfetch ▸ List.mem_append_right _ List.mem_cons_self
  have hold : ∀ f ∈ before ++ after, f ∈ s.fetches :=
    fun f hf => hfetch ▸ List.perm_middle.mem_iff.2 (List.mem_cons_of_mem _ hf)
  have hnormal := h.normal directory _ hthere
  have hkept : ∀ d entries, (s.listings.keep directory reading).known.get? d = some entries →
      s.listings.known.get? d = some entries ∨ d = directory ∧ reading = .ok entries := by
    intro d entries hknown
    cases reading with
    | error e => exact .inl hknown
    | ok read =>
      rw [Listings.keep, Listings.store, Assoc.get?_insert, hnormal] at hknown
      split at hknown
      · rename_i hd
        exact .inr ⟨hd, congrArg Except.ok (Option.some.inj hknown)⟩
      · exact .inl hknown
  refine ⟨h.regular, fun d reading hf => h.normal d reading (hold _ hf), ?_, ?_,
    fun d entries hf => h.fetched d entries (hold _ hf)⟩
  · intro d entries hknown
    rcases hkept d entries hknown with hknown | ⟨rfl, -⟩
    · exact h.knownNormal d entries hknown
    · exact hnormal
  · intro d entries hknown
    rcases hkept d entries hknown with hknown | ⟨rfl, rfl⟩
    · exact h.known d entries hknown
    · exact h.fetched d entries hthere

/-- It stays so when files come and go, but for their paths, which are not reported yet. -/
theorem mutate (h : s.Attended unreported overtaken) {fs : Store} {came : Set String} (hm : s.fs.Mutated fs came) :
    ({ s with fs := fs } : Shared).Attended (unreported ∪ came) overtaken := by
  refine ⟨hm.regular h.regular, h.normal, h.knownNormal, ?_, ?_⟩
  · intro d entries hknown hnames hnot
    have hnames := hm.namesAlike.1 hnames
    exact (h.known d entries hknown hnames hnot).mutate h.regular (h.knownNormal d entries hknown) hnames hm
  · intro d entries hf hnames hnot
    have hnames := hm.namesAlike.1 hnames
    exact (h.fetched d entries hf hnames hnot).mutate h.regular (h.normal d _ hf) hnames hm

/-- It stays so when paths are reported, but for the requests that are overtaken. -/
theorem report (h : s.Attended unreported overtaken) (paths : List String) :
    ({ s with listings := (s.listings.invalidate paths).2 } : Shared).Attended
      (unreported \ {p | p ∈ paths.map Path.normalize}) (s.overtaken overtaken paths) := by
  have hstays : ∀ d, d ∉ paths.flatMap Listings.touchedBy → d ∉ s.overtaken overtaken paths → d ∉ overtaken := by
    intro d huntouched hnot hbefore
    rw [Shared.overtaken, Set.mem_ofPred_eq, if_neg huntouched] at hnot
    exact hnot hbefore
  refine ⟨h.regular, h.normal, ?_, ?_, ?_⟩
  · intro d entries hknown
    rw [Listings.get?_invalidate] at hknown
    split at hknown
    · simp at hknown
    · exact h.knownNormal d entries hknown
  · intro d entries hknown hnames hnot
    rw [Listings.get?_invalidate] at hknown
    split at hknown
    · simp at hknown
    · rename_i huntouched
      exact (h.known d entries hknown hnames (hstays d huntouched hnot)).report huntouched _
  · intro d entries hf hnames hnot
    by_cases htouched : d ∈ paths.flatMap Listings.touchedBy
    · rw [Shared.overtaken, Set.mem_ofPred_eq, if_pos htouched] at hnot
      refine .inl ?_
      by_contra houtdated
      exact hnot ⟨entries, hf, houtdated⟩
    · exact (h.fetched d entries hf hnames (hstays d htouched hnot)).report htouched _

end Attended

end Shared

namespace Interleaved

variable {s : Shared} {unreported overtaken : Set String}

/-- Whatever happens, what is remembered and read is current but for what was overtaken or not reported. -/
theorem attended (h : Interleaved s unreported overtaken) : s.Attended unreported overtaken := by
  induction h with
  | start hfs => exact ⟨hfs, by simp, by simp, by simp, by simp⟩
  | request _ directory ih => exact ih.request directory
  | read _ hfetch ih => exact ih.read hfetch
  | store _ hfetch ih => exact ih.store hfetch
  | mutate _ hm ih => exact ih.mutate hm
  | report _ paths ih => exact ih.report paths

/-- Wherever every change was reported, what is remembered of a directory is what it lists now, unless a request for it
was overtaken, and a request that is made then is answered so. -/
theorem listings_right (h : Interleaved s ∅ overtaken) {directory : String}
    (hnames : s.fs.NamesAlike (Path.normalize directory)) (hnot : Path.normalize directory ∉ overtaken) :
    (∀ entries, s.listings.lookup? directory = some entries → s.fs.listing (Path.normalize directory) = .ok entries) ∧
      (s.listings.get s.fs directory).1.entries =
        match s.fs.listing (Path.normalize directory) with
        | .ok entries => entries
        | .error _ => [] := by
  have hknown : ∀ entries, s.listings.lookup? directory = some entries →
      s.fs.listing (Path.normalize directory) = .ok entries := by
    intro entries hlookup
    rcases h.attended.known _ entries hlookup hnames hnot with hnow | ⟨p, hp, -⟩
    · exact hnow
    · exact absurd hp (Set.notMem_empty p)
  refine ⟨hknown, ?_⟩
  unfold Listings.get
  split
  · rename_i entries hlookup
    rw [hknown entries hlookup]
  · have hread : (FileSystem.listDirectory s.fs (Path.normalize directory)).1 =
      s.fs.listing (Path.normalize directory) := rfl
    rw [← hread]
    generalize FileSystem.listDirectory s.fs (Path.normalize directory) = read
    obtain ⟨entries | e, fs⟩ := read <;> rfl

/-- A request that nothing comes between does what looking a listing up does. -/
theorem get (h : Interleaved s unreported overtaken) (directory : String) :
    Interleaved { s with fs := (s.listings.get s.fs directory).2.2, listings := (s.listings.get s.fs directory).2.1 }
      unreported overtaken := by
  have hrequested := h.request directory
  unfold Shared.request at hrequested
  split at hrequested
  · rename_i hcached
    obtain ⟨entries, hknown⟩ := Assoc.contains_iff.1 hcached
    have hlookup : s.listings.lookup? directory = some entries := hknown
    rw [Listings.get, hlookup]
    exact hrequested
  · rename_i hunknown
    have hread := hrequested.read (show s.fetches ++ [Fetch.mk (Path.normalize directory) none] =
      s.fetches ++ ⟨Path.normalize directory, none⟩ :: [] from rfl)
    have hstored := hread.store rfl
    rw [List.append_nil] at hstored
    rw [Listings.get_eq_keep s.listings s.fs (Bool.eq_false_iff.2 hunknown), ← Listings.keep_normalize]
    exact hstored

/-! ## Runs with one request -/

/-- A report of all that came or went leaves nothing unreported. -/
theorem reportAll (h : Interleaved s unreported overtaken) (paths : List String)
    (hall : ∀ p ∈ unreported, p ∈ paths.map Path.normalize) :
    Interleaved { s with listings := (s.listings.invalidate paths).2 } ∅ (s.overtaken overtaken paths) := by
  have hnone : unreported \ {p | p ∈ paths.map Path.normalize} = ∅ :=
    Set.eq_empty_iff_forall_notMem.2 fun p hp => hp.2 (hall p hp.1)
  rw [← hnone]
  exact h.report paths

/-- A request for a directory of which nothing is remembered. -/
theorem request_unknown {fs : Store} (h : Interleaved ⟨fs, {}, []⟩ unreported overtaken) (directory : String) :
    Interleaved ⟨fs, {}, [⟨Path.normalize directory, none⟩]⟩ unreported overtaken :=
  h.request directory

/-- The one request reads its directory. -/
theorem read_only {fs : Store} {listings : Listings} {directory : String}
    (h : Interleaved ⟨fs, listings, [⟨directory, none⟩]⟩ unreported overtaken) :
    Interleaved ⟨(fs.listDirectory directory).2, listings,
      [⟨directory, some (fs.listing directory)⟩]⟩ unreported overtaken :=
  h.read (show [Fetch.mk directory none] = [] ++ ⟨directory, none⟩ :: [] from rfl)

/-- The one request stores what it read. -/
theorem store_only {fs : Store} {listings : Listings} {directory : String} {entries : List DirectoryEntry}
    (h : Interleaved ⟨fs, listings, [⟨directory, some (.ok entries)⟩]⟩ unreported overtaken) :
    Interleaved ⟨fs, listings.store directory entries, []⟩ unreported overtaken :=
  h.store (show [Fetch.mk directory (some (.ok entries))] = [] ++ ⟨directory, some (.ok entries)⟩ :: [] from rfl)

/-- A request that has read an empty directory in memory. -/
theorem exists_reading : ∃ t : Tree, Interleaved ⟨.memory t, {}, [⟨"/d", some (.ok [])⟩]⟩ ∅ ∅ ∧
    t.files = [] ∧ t.directories = ["/", "/d"] ∧ t.unreadable = [] := by
  obtain ⟨t, hclean, hfiles, hdirectories, hunreadable⟩ :
      ∃ t : Tree, t.AllClean ∧ t.files = [] ∧ t.directories = ["/", "/d"] ∧ t.unreadable = [] :=
    ⟨Tree.build ["/d"] [] [], Tree.allClean_build [] (by decide) (by simp), by cbv, by cbv, by cbv⟩
  have hd : Path.normalize "/d" = "/d" := by cbv
  have hempty : (Store.memory t).listing "/d" = .ok [] := by
    change t.listing (Path.normalize "/d") = .ok []
    rw [hd, Tree.listing, Tree.entriesOf, hfiles, hdirectories, hunreadable]
    cbv
  have hstart : Interleaved ⟨.memory t, {}, []⟩ ∅ ∅ := .start hclean
  have hread := (hstart.request_unknown "/d").read_only
  rw [hd, hempty] at hread
  have hagrees := t.agrees_listDirectory "/d"
  exact ⟨_, hread, hagrees.files.trans hfiles, hagrees.directories.trans hdirectories,
    hagrees.unreadable.trans hunreadable⟩

/-- A file comes into a directory that is empty otherwise. -/
theorem addFile_emptyDirectory {t : Tree} (hfiles : t.files = []) (hdirectories : t.directories = ["/", "/d"])
    (hunreadable : t.unreadable = []) :
    (∀ p ∈ (∅ ∪ {p | t.Changed (t.addFile "/d/x") p} : Set String), p ∈ ["/d/x"].map Path.normalize) ∧
      (Store.memory (t.addFile "/d/x")).listing "/d" = .ok [⟨"x", false⟩] := by
  have hd : Path.normalize "/d" = "/d" := by cbv
  have hx : ["/d/x"].map Path.normalize = ["/d/x"] := by cbv
  have hfiles' : (t.addFile "/d/x").files = ["/d/x"] := by
    rw [Tree.addFile, Tree.addDirectory, hfiles]
    cbv
  have hdirectories' : (t.addFile "/d/x").directories = ["/", "/d"] := by
    rw [Tree.addFile, Tree.addDirectory, hdirectories]
    cbv
  have hunreadable' : (t.addFile "/d/x").unreadable = [] := hunreadable
  constructor
  · intro p hp
    rw [hx]
    simpa [Tree.Changed, hfiles, hdirectories, hfiles', hdirectories'] using hp
  · change (t.addFile "/d/x").listing (Path.normalize "/d") = _
    rw [hd, Tree.listing, Tree.entriesOf, hfiles', hdirectories', hunreadable']
    cbv

/-- A request reads an empty directory and stores what it read, a file comes into it and is reported, and the directory
is asked for again. -/
theorem listings_right_again : ∃ s, Interleaved s ∅ ∅ ∧ s.fs.listing "/d" = .ok [⟨"x", false⟩] ∧
    (s.listings.get s.fs "/d").1.entries = [⟨"x", false⟩] := by
  obtain ⟨t, hread, hfiles, hdirectories, hunreadable⟩ := exists_reading
  obtain ⟨hchanged, hlisting⟩ := addFile_emptyDirectory hfiles hdirectories hunreadable
  have hadds : (Tree.Mutation.addFile "/d/x").AddsAbsolute := show Path.isAbsolute "/d/x" = true by decide
  have hreported := (hread.store_only.mutate (.memory t hadds)).reportAll ["/d/x"] hchanged
  rw [Shared.overtaken_of_fetches rfl] at hreported
  obtain ⟨s, hs, hnames, hlisting⟩ : ∃ s, Interleaved s ∅ ∅ ∧ s.fs.NamesAlike (Path.normalize "/d") ∧
      s.fs.listing "/d" = .ok [⟨"x", false⟩] :=
    ⟨_, hreported, trivial, hlisting⟩
  have hd : Path.normalize "/d" = "/d" := by cbv
  have hanswer := (hs.listings_right hnames (Set.notMem_empty _)).2
  rw [hd, hlisting] at hanswer
  exact ⟨s, hs, hlisting, hanswer⟩

/-- A request reads an empty directory, a file comes into it and is reported, and the request stores what it read. -/
theorem overtaken_request :
    ∃ s overtaken, Interleaved s ∅ overtaken ∧ s.fetches = [] ∧
      s.listings.lookup? "/d" = some [] ∧ s.fs.listing "/d" = .ok [⟨"x", false⟩] := by
  obtain ⟨t, hread, hfiles, hdirectories, hunreadable⟩ := exists_reading
  obtain ⟨hchanged, hlisting⟩ := addFile_emptyDirectory hfiles hdirectories hunreadable
  have hadds : (Tree.Mutation.addFile "/d/x").AddsAbsolute := show Path.isAbsolute "/d/x" = true by decide
  have hreported := (hread.mutate (.memory t hadds)).reportAll ["/d/x"] hchanged
  refine ⟨_, _, hreported.store_only, rfl, ?_, hlisting⟩
  rw [Listings.lookup?, Listings.store, Assoc.get?_insert, if_pos rfl]

/-- A disk that is seen from a directory with an empty directory in it. -/
def seenFromAbove : Disk where
  cwd := "/work"
  nodes := [(["work"], .directory), (["work", "docs"], .directory)]

/-- A disk on which a file came into that directory. -/
def seenFromAboveFilled : Disk :=
  { seenFromAbove with nodes := seenFromAbove.nodes ++ [(["work", "docs", "x"], .file [])] }

/-- The two disks are regular stores. -/
theorem regular_seenFromAbove : seenFromAbove.Regular ∧ seenFromAboveFilled.Regular := by
  have hcwd : Path.Clean "/work" := ⟨by decide, by cbv⟩
  exact ⟨⟨⟨hcwd, by decide⟩, by decide, by decide⟩, ⟨⟨hcwd, by decide⟩, by decide, by decide⟩⟩

/-- Nothing but the one file came or went. -/
theorem cameOrWent_seenFromAbove {place : Place} (h : place ∈ Disk.CameOrWent seenFromAbove seenFromAboveFilled) :
    place = ["work", "docs", "x"] := by
  have haltered : place ∈ Disk.Altered seenFromAbove seenFromAboveFilled := .inl fun hreach => h (congrArg _ hreach)
  have hdenied : seenFromAboveFilled.denied = seenFromAbove.denied := rfl
  obtain ⟨hreach, entry, hentry, rfl⟩ := Disk.exists_node_of_mem_altered hdenied haltered
  have hplaces : ∀ entry ∈ seenFromAbove.nodes ++ seenFromAboveFilled.nodes,
      entry.1 = ["work"] ∨ entry.1 = ["work", "docs"] ∨ entry.1 = ["work", "docs", "x"] := by decide
  have hwork : seenFromAboveFilled.reach ["work"] = seenFromAbove.reach ["work"] := by cbv
  have hdocs : seenFromAboveFilled.reach ["work", "docs"] = seenFromAbove.reach ["work", "docs"] := by cbv
  rcases hplaces entry hentry with hplace | hplace | hplace
  · exact absurd (hplace ▸ hwork) hreach
  · exact absurd (hplace ▸ hdocs) hreach
  · exact hplace

/-- A directory is asked for by its name in the working directory. A file comes into it and is reported, and the
directory is remembered to be empty. -/
theorem relative_request : ∃ s, Interleaved s ∅ ∅ ∧ s.fetches = [] ∧ s.listings.lookup? "docs" = some [] ∧
    s.fs.listing "docs" = .ok [⟨"x", false⟩] := by
  have hdocs : Path.normalize "docs" = "docs" := by cbv
  have hx : Path.normalize "/work/docs/x" = "/work/docs/x" := by cbv
  have hempty : (Listings.get {} (Store.disk seenFromAbove) "docs").2 = (Listings.store {} "docs" [],
    .disk seenFromAbove) := by cbv
  have hstart : Interleaved ⟨.disk seenFromAbove, {}, []⟩ ∅ ∅ := .start regular_seenFromAbove.1
  have hstored := hstart.get "docs"
  rw [hempty] at hstored
  have hreported := (hstored.mutate (.disk regular_seenFromAbove.2 rfl)).reportAll ["/work/docs/x"] fun p hp => by
    obtain ⟨place, hplace, rfl⟩ := hp.resolve_left (Set.notMem_empty p)
    rw [cameOrWent_seenFromAbove hplace, List.map_singleton, hx, List.mem_singleton]
    cbv
  rw [Shared.overtaken_of_fetches rfl] at hreported
  have htouched : ["/work/docs/x"].flatMap Listings.touchedBy = ["/work/docs/x", "/work/docs"] := by cbv
  refine ⟨_, hreported, rfl, ?_, by cbv⟩
  rw [Listings.lookup?, hdocs, Listings.get?_invalidate, htouched, if_neg (by decide), Listings.store,
    Assoc.get?_insert, hdocs, if_pos rfl]

/-- What is remembered may be outdated though every change was reported and no request is under way: where a report came
while a request held what it had read, and where a directory is not named as the changes in it are. -/
theorem stale_listings :
    (∃ s overtaken, Interleaved s ∅ overtaken ∧ s.fetches = [] ∧ s.listings.lookup? "/d" = some [] ∧
      s.fs.listing "/d" = .ok [⟨"x", false⟩]) ∧
    ∃ s, Interleaved s ∅ ∅ ∧ s.fetches = [] ∧ s.listings.lookup? "docs" = some [] ∧
    s.fs.listing "docs" = .ok [⟨"x", false⟩] :=
  ⟨overtaken_request, relative_request⟩

end Interleaved

end DocRefs
