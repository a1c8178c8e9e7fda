import DocRefs.Proofs.Listings.Interleaving
import DocRefs.Proofs.Path.FilePath
import DocRefs.Workspace

/-!
# What is remembered of directories, told by what has happened

While one request for a listing follows another, all that is remembered can be told from the past, without a look at the
memory. A directory is remembered as it was when it was first read successfully since it was last forgotten, and it is
forgotten when everything is or when a path is reported that is the directory or lies right in it
(`Listings.snapshot?`). Every request for a listing, every question whether one is known and every report is answered by
that (`Workspace.Snapshots`), whatever becomes of the files in the meantime (`Workspace.Listed.recalls`).
-/

namespace DocRefs

namespace Listings

/-! ## The past -/

/-- What has happened to remembered listings: one was requested of a place, as the place was then, paths were reported,
or everything was forgotten. -/
inductive Occasion (σ : Type)
  | requested (directory : String) (place : σ)
  | reported (changed : List String)
  | cleared

/-- A report names a directory or a path that lies right in it. -/
def Names (changed : List String) (directory : String) : Prop :=
  ∃ p ∈ changed, Path.normalize p = directory ∨ Path.IsChild directory (Path.normalize p)

instance (changed : List String) (directory : String) : Decidable (Names changed directory) :=
  inferInstanceAs (Decidable (∃ p ∈ changed, _))

namespace Occasion

variable {σ : Type}

/-- Whether a directory is forgotten by it. -/
def forgets (directory : String) : Occasion σ → Bool
  | requested _ _ => false
  | reported changed => decide (Names changed directory)
  | cleared => true

/-- What a request could read of a directory, if the directory is the one that it names and can be listed. -/
def read? [FileSystem σ] (directory : String) : Occasion σ → Option (List DirectoryEntry)
  | requested d place => if Path.normalize d = directory then
    (FileSystem.listDirectory place directory).1.toOption else none
  | _ => none

end Occasion

section

variable {σ : Type} [FileSystem σ]

/-- The entries of a directory as the first request found them that could read it since it was last forgotten. Of what
has happened the latest stands first. -/
def snapshot? (directory : String) (history : List (Occasion σ)) : Option (List DirectoryEntry) :=
  (history.takeWhile fun occasion => !occasion.forgets directory).reverse.findSome? (Occasion.read? directory)

theorem snapshot?_nil (directory : String) : snapshot? directory ([] : List (Occasion σ)) = none := rfl

/-- There is no snapshot of what has just been forgotten. -/
theorem snapshot?_of_forgets {directory : String} {occasion : Occasion σ} (h : occasion.forgets directory = true)
    (history : List (Occasion σ)) :
    snapshot? directory (occasion :: history) = none := by
  unfold snapshot?
  rw [List.takeWhile_cons_of_neg (by simp [h])]
  rfl

/-- What does not forget a directory adds what it reads, if nothing was read before. -/
theorem snapshot?_of_not_forgets {directory : String} {occasion : Occasion σ} (h : occasion.forgets directory = false)
    (history : List (Occasion σ)) :
    snapshot? directory (occasion :: history) = (snapshot? directory history).or (occasion.read? directory) := by
  unfold snapshot?
  rw [List.takeWhile_cons_of_pos (by simp [h]), List.reverse_cons, List.findSome?_append]
  cases hread : occasion.read? directory <;> simp [hread]

/-- A request of another directory takes nothing away and adds nothing. -/
theorem snapshot?_requested (directory d : String) (place : σ) (history : List (Occasion σ)) :
    snapshot? directory (.requested d place :: history) =
      if Path.normalize d = directory then
        (snapshot? directory history).or (FileSystem.listDirectory place directory).1.toOption
      else snapshot? directory history := by
  rw [snapshot?_of_not_forgets rfl, Occasion.read?]
  split
  · rfl
  · rw [Option.or_none]

/-- A report takes the snapshots of what it names. -/
theorem snapshot?_reported (directory : String) (changed : List String) (history : List (Occasion σ)) :
    snapshot? directory (.reported changed :: history) = if Names changed directory then none
      else snapshot? directory history := by
  split
  · rename_i hnames
    have hforgets : (Occasion.reported changed : Occasion σ).forgets directory = true := decide_eq_true hnames
    exact snapshot?_of_forgets hforgets history
  · rename_i hnames
    have hforgets : (Occasion.reported changed : Occasion σ).forgets directory = false := decide_eq_false hnames
    have hread : (Occasion.reported changed : Occasion σ).read? directory = none := rfl
    rw [snapshot?_of_not_forgets hforgets, hread, Option.or_none]

end

/-! ## What a report drops -/

variable {l : Listings} {changed : List String}

/-- A clean directory is touched by the reports that name it. -/
theorem mem_touched_iff (habsolute : ∀ p ∈ changed, Path.isAbsolute p = true) {directory : String}
    (hclean : Path.Clean directory) : directory ∈ changed.flatMap touchedBy ↔ Names changed directory := by
  have htouched : ∀ p ∈ changed, directory ∈ touchedBy p ↔
      Path.normalize p = directory ∨ Path.IsChild directory (Path.normalize p) := by
    intro p hp
    rw [Path.eq_or_isChild_iff hclean (Path.clean_normalize (habsolute p hp)), touchedBy,
      List.mem_cons, List.mem_singleton]
  rw [List.mem_flatMap]
  constructor
  · rintro ⟨p, hp, hdirectory⟩
    exact ⟨p, hp, (htouched p hp).1 hdirectory⟩
  · rintro ⟨p, hp, hdirectory⟩
    exact ⟨p, hp, (htouched p hp).2 hdirectory⟩

/-- A report says how many directories it drops, which are those that it touches of the remembered ones. -/
theorem exists_dropped (hkeys : l.known.keys.Nodup) (changed : List String) :
    ∃ dropped : List String, dropped.Nodup ∧ (l.invalidate changed).1 = dropped.length ∧
      ∀ directory, directory ∈ dropped ↔ (l.known.get? directory).isSome = true ∧
      directory ∈ changed.flatMap touchedBy := by
  refine ⟨l.known.keys.filter (changed.flatMap touchedBy).contains, hkeys.filter _, ?_, ?_⟩
  · -- What is dropped and what is kept are all that was remembered.
    have hall := List.length_eq_length_filter_add (l := l.known.entries) fun e =>
      (changed.flatMap touchedBy).contains e.1
    have hdropped : (l.known.keys.filter (changed.flatMap touchedBy).contains).length =
        (l.known.entries.filter fun e => (changed.flatMap touchedBy).contains e.1).length := by
      rw [Assoc.keys, List.filter_map, List.length_map]
      rfl
    rw [hdropped]
    unfold invalidate Assoc.size
    dsimp only
    omega
  · intro directory
    have hknown : directory ∈ l.known.keys ↔ (l.known.get? directory).isSome = true := by
      rw [Option.isSome_iff_exists, Assoc.keys, List.mem_map]
      constructor
      · rintro ⟨e, he, rfl⟩
        exact ⟨e.2, (Assoc.get?_eq_some_iff hkeys).2 he⟩
      · rintro ⟨entries, hentries⟩
        exact ⟨_, (Assoc.get?_eq_some_iff hkeys).1 hentries, rfl⟩
    rw [List.mem_filter, hknown, List.contains_iff_mem]

/-- No directory is remembered twice after a report. -/
theorem nodup_keys_invalidate (hkeys : l.known.keys.Nodup) (changed : List String) :
    (l.invalidate changed).2.known.keys.Nodup :=
  hkeys.sublist (List.filter_sublist.map _)

end Listings

/-! ## What a request finds -/

namespace Workspace

open Listings (Occasion Names snapshot? snapshot?_nil snapshot?_requested snapshot?_reported snapshot?_of_forgets)

section

variable {σ : Type} [FileSystem σ] {w : Workspace σ} {d : String}

/-- A remembered listing is the answer, and nothing is read. -/
theorem listing_of_known {entries : List DirectoryEntry} (h : w.listings.known.get? (Path.normalize d) = some entries) :
    w.listing d = ⟨⟨entries, false, none⟩, w, []⟩ := by
  unfold listing Listings.get Listings.lookup?
  rw [h]
  rfl

/-- A listing that is not remembered is read, and remembered as it is read. -/
theorem listing_of_read (h : w.listings.known.get? (Path.normalize d) = none)
    {entries : List DirectoryEntry} {place : σ}
    (hread : FileSystem.listDirectory w.fs (Path.normalize d) = (.ok entries, place)) :
    w.listing d = ⟨⟨entries, true, none⟩, { w with fs := place, listings := w.listings.store d entries }, []⟩ := by
  unfold listing Listings.get Listings.lookup?
  rw [h, hread]
  rfl

/-- If it cannot be read the failure is told, and nothing is remembered of it. -/
theorem listing_of_failure (h : w.listings.known.get? (Path.normalize d) = none) {e : FileError} {place : σ}
    (hread : FileSystem.listDirectory w.fs (Path.normalize d) = (.error e, place)) :
    w.listing d = ⟨⟨[], true, some e⟩, { w with fs := place }, [.listingFailed (Path.normalize d) e]⟩ := by
  unfold listing Listings.get Listings.lookup?
  rw [h, hread]
  rfl

/-- What is remembered after a request: what was, and what could be read of the directory if nothing was remembered of
it. -/
theorem get?_listing (w : Workspace σ) (d directory : String) :
    (w.listing d).workspace.listings.known.get? directory =
      if Path.normalize d = directory then
        (w.listings.known.get? directory).or (FileSystem.listDirectory w.fs directory).1.toOption
      else w.listings.known.get? directory := by
  cases hknown : w.listings.known.get? (Path.normalize d) with
  | some entries =>
    rw [listing_of_known hknown]
    split
    · rename_i hsame
      rw [← hsame, hknown, Option.some_or]
    · rfl
  | none =>
    cases hread : FileSystem.listDirectory w.fs (Path.normalize d) with
    | mk reading place =>
      cases reading with
      | ok entries =>
        rw [listing_of_read hknown hread, Listings.store, Assoc.get?_insert]
        split
        · rename_i hsame
          rw [if_pos hsame.symm, hsame, hknown, hread]
          rfl
        · rename_i hother
          rw [if_neg (Ne.symm hother)]
      | error e =>
        rw [listing_of_failure hknown hread]
        split
        · rename_i hsame
          rw [← hsame, hknown, hread]
          rfl
        · rfl

/-- The directories that are remembered stay apart. -/
theorem nodup_keys_listing (hkeys : w.listings.known.keys.Nodup) (d : String) :
    (w.listing d).workspace.listings.known.keys.Nodup := by
  cases hknown : w.listings.known.get? (Path.normalize d) with
  | some entries =>
    rw [listing_of_known hknown]
    exact hkeys
  | none =>
    cases hread : FileSystem.listDirectory w.fs (Path.normalize d) with
    | mk reading place =>
      cases reading with
      | ok entries =>
        rw [listing_of_read hknown hread]
        exact Assoc.nodup_keys_insert hkeys _ entries
      | error e =>
        rw [listing_of_failure hknown hread]
        exact hkeys

/-! ## Runs -/

/-- What becomes of a workspace while listings are requested and questions for them answered, paths are reported and
everything is forgotten, one after another, and the files change as they like; with what has happened, the latest
first. -/
inductive Listed : Workspace σ → List (Occasion σ) → Prop
  | start (place : σ) (env : Environment) (settings : Settings) : Listed (new place env settings) []
  | request {w : Workspace σ} {history : List (Occasion σ)} (h : Listed w history) {d : String}
      (habsolute : Path.isAbsolute d = true) :
    Listed (w.listing d).workspace (.requested d w.fs :: history)
  | report {w : Workspace σ} {history : List (Occasion σ)} (h : Listed w history) {changed : List String}
    (habsolute : ∀ p ∈ changed, Path.isAbsolute p = true) :
    Listed { w with listings := (w.listings.invalidate changed).2 } (.reported changed :: history)
  | clear {w : Workspace σ} {history : List (Occasion σ)} (h : Listed w history) :
    Listed { w with listings := w.listings.clear } (.cleared :: history)
  | mutate {w : Workspace σ} {history : List (Occasion σ)} (h : Listed w history) (place : σ) :
      Listed { w with fs := place } history

/-- What is remembered is what the past tells, directory by directory. -/
structure Told (w : Workspace σ) (history : List (Occasion σ)) : Prop where
  keys : w.listings.known.keys.Nodup
  known : ∀ directory, w.listings.known.get? directory = snapshot? directory history
  clean : ∀ directory, (snapshot? directory history).isSome = true → Path.Clean directory

variable {history : List (Occasion σ)}

/-- A new workspace remembers nothing, as a past without requests tells. -/
theorem told_new (place : σ) (env : Environment) (settings : Settings) : (new place env settings).Told [] where
  keys := List.nodup_nil
  known _ := rfl
  clean directory hsome := by simp [snapshot?_nil] at hsome

/-- After a request what is remembered is what the past tells. -/
theorem Told.request (h : w.Told history) (habsolute : Path.isAbsolute d = true) :
    (w.listing d).workspace.Told (.requested d w.fs :: history) where
  keys := nodup_keys_listing h.keys d
  known directory := by
    rw [get?_listing, snapshot?_requested, h.known]
  clean directory hsome := by
    rw [snapshot?_requested] at hsome
    split at hsome
    · rename_i hsame
      exact hsame ▸ Path.clean_normalize habsolute
    · exact h.clean directory hsome

/-- Only clean directories are remembered, so it is no matter what a report touches besides. -/
theorem Told.report (h : w.Told history) {changed : List String} (habsolute : ∀ p ∈ changed, Path.isAbsolute p = true) :
    Told { w with listings := (w.listings.invalidate changed).2 } (.reported changed :: history) where
  keys := Listings.nodup_keys_invalidate h.keys changed
  known directory := by
    rw [Listings.get?_invalidate, snapshot?_reported, h.known]
    cases hsnapshot : snapshot? directory history with
    | none => rw [ite_self, ite_self]
    | some entries =>
      have hclean : Path.Clean directory := h.clean directory (by rw [hsnapshot]; rfl)
      simp only [Listings.mem_touched_iff habsolute hclean]
  clean directory hsome := by
    rw [snapshot?_reported] at hsome
    split at hsome
    · simp at hsome
    · exact h.clean directory hsome

/-- After everything is forgotten nothing is remembered, as the past tells. -/
theorem Told.clear (history : List (Occasion σ)) (w : Workspace σ) :
    Told { w with listings := w.listings.clear } (.cleared :: history) where
  keys := List.nodup_nil
  known directory := (snapshot?_of_forgets rfl history).symm
  clean directory hsome := by
    have hforgets : (Occasion.cleared : Occasion σ).forgets directory = true := rfl
    simp [snapshot?_of_forgets hforgets history] at hsome

/-- In every run what is remembered is what the past tells. -/
theorem Listed.told (h : w.Listed history) : w.Told history := by
  induction h with
  | start place env settings => exact told_new place env settings
  | request _ habsolute ih => exact ih.request habsolute
  | report _ habsolute ih => exact ih.report habsolute
  | @clear w history _ _ => exact Told.clear history w
  | mutate _ place ih => exact ⟨ih.keys, ih.known, ih.clean⟩

/-- Requests, questions and reports are answered by what each directory was last seen as. -/
structure Snapshots (w : Workspace σ) (snapshot : String → Option (List DirectoryEntry)) : Prop where
  /-- A directory that was seen is answered as it was seen, and nothing is read, reported or changed. -/
  recalled : ∀ d entries, Path.isAbsolute d = true → snapshot (Path.normalize d) = some entries →
    w.listing d = ⟨⟨entries, false, none⟩, w, []⟩
  /-- Any other is read now. What is read is the answer and is remembered, and nothing else is remembered otherwise than
  before. -/
  loaded : ∀ d entries place, Path.isAbsolute d = true → snapshot (Path.normalize d) = none →
    FileSystem.listDirectory w.fs (Path.normalize d) = (.ok entries, place) →
      (w.listing d).value = ⟨entries, true, none⟩ ∧ (w.listing d).log = [] ∧ (w.listing d).workspace.fs = place ∧
      ∀ directory, (w.listing d).workspace.listings.known.get? directory =
        if directory = Path.normalize d then some entries else snapshot directory
  /-- If reading fails the answer is empty, one warning is written, and everything that is remembered stays as it is. -/
  failed : ∀ d e place, Path.isAbsolute d = true → snapshot (Path.normalize d) = none →
    FileSystem.listDirectory w.fs (Path.normalize d) = (.error e, place) →
      w.listing d = ⟨⟨[], true, some e⟩, { w with fs := place }, [.listingFailed (Path.normalize d) e]⟩ ∧
      (LogEvent.listingFailed (Path.normalize d) e).severity = .warning
  /-- A directory is known if it was seen, be it empty. -/
  isCached : ∀ d, Path.isAbsolute d = true → w.listings.isCached d = (snapshot (Path.normalize d)).isSome
  /-- A report tells how many of the directories that were seen it drops, and leaves every other one. -/
  invalidated : ∀ changed : List String, (∀ p ∈ changed, Path.isAbsolute p = true) →
    (∃ dropped : List String, dropped.Nodup ∧ (w.listings.invalidate changed).1 = dropped.length ∧
      ∀ directory, directory ∈ dropped ↔ (snapshot directory).isSome = true ∧ Names changed directory) ∧
    ∀ directory, (w.listings.invalidate changed).2.known.get? directory =
      if Names changed directory then none else snapshot directory
  /-- After everything is forgotten nothing is known. -/
  cleared : ∀ d, w.listings.clear.isCached d = false

/-- After every run everything is answered by the snapshots that the past tells. -/
theorem Listed.recalls (h : w.Listed history) : w.Snapshots fun directory => snapshot? directory history := by
  have htold := h.told
  refine ⟨?_, ?_, ?_, ?_, ?_, ?_⟩
  · intro d entries _ hsnapshot
    exact listing_of_known ((htold.known _).trans hsnapshot)
  · intro d entries place _ hsnapshot hread
    have hknown := (htold.known _).trans hsnapshot
    rw [listing_of_read hknown hread]
    refine ⟨rfl, rfl, rfl, fun directory => ?_⟩
    rw [Listings.store, Assoc.get?_insert, htold.known]
  · intro d e place _ hsnapshot hread
    exact ⟨listing_of_failure ((htold.known _).trans hsnapshot) hread, rfl⟩
  · intro d _
    rw [Bool.eq_iff_iff, Listings.isCached, Assoc.contains_iff, htold.known, Option.isSome_iff_exists]
  · intro changed habsolute
    have hnamed : ∀ directory, (snapshot? directory history).isSome = true →
        (directory ∈ changed.flatMap Listings.touchedBy ↔ Names changed directory) :=
      fun directory hsome => Listings.mem_touched_iff habsolute (htold.clean directory hsome)
    obtain ⟨dropped, hnodup, hcount, hdropped⟩ := Listings.exists_dropped htold.keys changed
    refine ⟨⟨dropped, hnodup, hcount, fun directory => ?_⟩, fun directory => ?_⟩
    · rw [hdropped, htold.known]
      exact and_congr_right fun hsome => hnamed directory hsome
    · rw [(htold.report habsolute).known, snapshot?_reported]
  · intro d
    rfl

end

/-- A directory is asked for while it cannot be read and again while it is empty, and then a file comes into it. -/
theorem exists_listed_empty : ∃ w : Workspace Tree, w.fs = Tree.empty.addFile "/d/a.md" ∧
    w.Listed [.requested "/d/" (Tree.empty.addDirectory "/d"),
      .requested "/e/../d" ((Tree.empty.addDirectory "/d").setUnreadable "/d")] :=
  ⟨_, rfl, .mutate (.request (.mutate (.request (.start _ {} {}) (by decide)) _) (by decide)) _⟩

/-- The directory is remembered as empty until a path right in it is reported. -/
theorem Listed.recalls_vacant :
    ∃ (w : Workspace Tree) (history : List (Occasion Tree)), w.Listed history ∧
      (w.fs.entriesAt "/d" = [⟨"a.md", false⟩] ∧ (w.listing "/d/.").value = ⟨[], false, none⟩) ∧
      (w.listing "/e").log = [.listingFailed "/e" ⟨.notFound, "/e"⟩] ∧
      (w.listings.invalidate ["/d/s/a.md"]).2.known.get? "/d" = some [] ∧
      (w.listings.invalidate ["/d/x/../a.md"]).2.known.get? "/d" = none := by
  obtain ⟨w, hfs, hrun⟩ := exists_listed_empty
  have hrecalls := hrun.recalls
  have hread : FileSystem.listDirectory w.fs (Path.normalize "/e") =
      (.error ⟨.notFound, "/e"⟩, (FileSystem.listDirectory w.fs (Path.normalize "/e")).2) := by
    refine Prod.ext ?_ rfl
    rw [hfs]
    cbv
  have hfailed := (hrecalls.failed "/e" _ _ (by decide) (by cbv) hread).1
  refine ⟨w, _, hrun, ⟨?_, ?_⟩, ?_, ?_, ?_⟩
  · rw [hfs]
    cbv
  · rw [hrecalls.recalled "/d/." [] (by decide) (by cbv)]
  · rw [hfailed]
    cbv
  · have hother : ¬ Names ["/d/s/a.md"] "/d" := by decide +kernel
    rw [(hrecalls.invalidated ["/d/s/a.md"] (by decide)).2, if_neg hother]
    cbv
  · have hnamed : Names ["/d/x/../a.md"] "/d" := by decide +kernel
    rw [(hrecalls.invalidated ["/d/x/../a.md"] (by decide)).2, if_pos hnamed]

end Workspace

end DocRefs
