import DocRefs.Proofs.Attempts
import DocRefs.Proofs.Files.Removal
import DocRefs.Proofs.Workspace.Coherence

/-!
# Taking out a directory

A directory goes with all that lies below it, and its own path is all that is reported. What is remembered of the
directories below it is not forgotten then: the answers stay those of a new workspace exactly if no root is remembered
whose marker went, and no entries of a directory that went (`Workspace.Reached.answers_after_removal`).

A question searches for roots, reads listings, asks whether paths exist and stores diagnostics; what all of these keep
is kept by every question (`Workspace.Kept.asked`).
-/

namespace DocRefs

namespace Roots

/-- Every directory of which a root is remembered is at or above a normalised path. -/
def Placed (r : Roots) : Prop :=
  ∀ d root, r.known.get? d = some root → ∃ path, d ∈ Path.ancestors (Path.normalize path)

variable {r : Roots}

/-- A search from a normalised path remembers directories at or above it. -/
theorem Placed.find (h : r.Placed) (t : Tree) (path : String) : (r.find t (Path.normalize path)).2.1.Placed := by
  intro d root hknown
  rw [Roots.find, get?_remember] at hknown
  split at hknown
  · rename_i hd
    exact ⟨path, r.mem_of_mem_probed t hd⟩
  · exact h d root hknown

/-- An absolute directory of which a root is remembered is clean. -/
theorem Placed.clean (h : r.Placed) {d : String} {root : Option String} (hknown : r.known.get? d = some root)
    (habsolute : Path.isAbsolute d = true) : Path.Clean d := by
  obtain ⟨path, hd⟩ := h d root hknown
  exact Path.Clean.of_mem_ancestors ⟨Path.isAbsolute_of_mem_ancestors hd habsolute, Path.normalize_normalize path⟩ hd

end Roots

namespace Listings

/-- Every remembered listing holds the entries that the tree has there. -/
def Answers (l : Listings) (t : Tree) : Prop :=
  ∀ directory entries, l.known.get? directory = some entries →
    Path.normalize directory = directory ∧ t.entriesAt directory = entries

variable {l : Listings} {t t' : Tree}

/-- What is remembered while everything is reported is what the tree has. -/
theorem Current.answers (h : l.Current t ∅) : l.Answers t := by
  intro directory entries hknown
  obtain ⟨hnormal, hnow⟩ := h directory entries hknown
  have hlisting := hnow.resolve_right fun ⟨p, hp, _⟩ => Set.notMem_empty p hp
  exact ⟨hnormal, by rw [Tree.entriesAt, hnormal, hlisting]⟩

/-- What is remembered of a tree is as right for one with the same paths. -/
theorem Answers.agrees (h : l.Answers t) (hagrees : t.Agrees t') : l.Answers t' := by
  intro directory entries hknown
  rw [hagrees.entriesAt_eq]
  exact h directory entries hknown

/-- A listing is answered with the entries that the tree has, and what is remembered after it holds these too. -/
theorem Answers.get (h : l.Answers t) (directory : String) :
    (l.get t directory).1.entries = t.entriesAt directory ∧
    (l.get t directory).2.1.Answers (l.get t directory).2.2 := by
  obtain ⟨hagrees, ⟨entries, hknown, hentries, hafter⟩ | ⟨hentries, hafter | ⟨entries, hread, hafter⟩⟩⟩ :=
    l.get_cases t directory
  · obtain ⟨-, hnow⟩ := h _ _ hknown
    rw [Tree.entriesAt, Path.normalize_normalize] at hnow
    exact ⟨by rw [hentries, Tree.entriesAt, hnow], by rw [hafter]; exact h.agrees hagrees⟩
  · exact ⟨hentries, by rw [hafter]; exact h.agrees hagrees⟩
  · refine ⟨hentries, ?_⟩
    rw [hafter]
    refine Answers.agrees ?_ hagrees
    intro other found hknown
    rw [store, Assoc.get?_insert] at hknown
    split at hknown
    · rename_i hother
      rw [hother, ← Option.some.inj hknown]
      exact ⟨Path.normalize_normalize _, by rw [Tree.entriesAt, Path.normalize_normalize, hread]⟩
    · exact h other found hknown

end Listings

namespace Workspace

variable {w : Workspace Tree} {P : Workspace Tree → Prop} {path : String}

/-! ## What questions keep -/

/-- What every part of a question keeps: the search for a root, the reading of a listing, the question whether a path
exists, and the storing of diagnostics. -/
structure Kept (P : Workspace Tree → Prop) : Prop where
  findRoot : ∀ {w}, P w → ∀ start, P (w.findRoot start).workspace
  listing : ∀ {w}, P w → ∀ directory, P (w.listing directory).workspace
  files : ∀ {w}, P w → ∀ {t}, w.fs.Agrees t → P { w with fs := t }
  diagnostics : ∀ {w}, P w → ∀ diagnostics, P { w with diagnostics := diagnostics }

namespace Kept

/-- What every question keeps is kept when a base directory is selected. -/
theorem selectBaseDir (hP : Kept P) (h : P w) (documentDir : String) (override : Option String) :
    P (w.selectBaseDir documentDir override).workspace := by
  cases override with
  | some dir => exact h
  | none => exact hP.findRoot h documentDir

/-- It is kept when the base directory of a document is asked for. -/
theorem baseDir (hP : Kept P) (h : P w) {documentDir : String} {a : Answer Tree String}
    (ha : w.baseDir documentDir = .ok a) : P a.workspace := by
  obtain ⟨override, -, ha⟩ := bind_eq_ok_iff.1 ha
  rw [← Except.ok.inj ha]
  exact hP.selectBaseDir h documentDir override

/-- It is kept when references are resolved. -/
theorem resolve (hP : Kept P) (h : P w) {d : Document} {a : Answer Tree (List ResolvedReference)}
    (ha : w.resolve d = .ok a) : P a.workspace := by
  obtain ⟨override, -, ha⟩ := bind_eq_ok_iff.1 ha
  obtain ⟨references, -, ha⟩ := bind_eq_ok_iff.1 ha
  cases references with
  | nil =>
    rw [← Except.ok.inj ha]
    exact h
  | cons r rs =>
    rw [← Except.ok.inj ha]
    have hagrees := (resolveAll_agrees (Tree.Agrees.rfl (t := (w.selectBaseDir d.dirname override).workspace.fs))
      (w.selectBaseDir d.dirname override).value (r :: rs)).2
    exact hP.files (hP.selectBaseDir h d.dirname override) hagrees

/-- It is kept by a lint. -/
theorem lint (hP : Kept P) (h : P w) {d : Document} {a : Answer Tree (List Diagnostic)}
    (ha : w.lint d = .ok a) : P a.workspace := by
  obtain ⟨resolved, hresolved, ha⟩ := bind_eq_ok_iff.1 ha
  rw [← Except.ok.inj ha]
  exact hP.diagnostics (hP.resolve h hresolved) _

/-- It is kept when links are asked for. -/
theorem links (hP : Kept P) (h : P w) {d : Document} {a : Answer Tree (List Link)}
    (ha : w.links d = .ok a) : P a.workspace := by
  obtain ⟨resolved, hresolved, ha⟩ := bind_eq_ok_iff.1 ha
  rw [← Except.ok.inj ha]
  exact hP.resolve h hresolved

/-- It is kept by a completion. -/
theorem complete (hP : Kept P) (h : P w) {d : Document} {position : Position} {cancel : Cancellation}
    {a : Answer Tree (Option (List Candidate))} (ha : w.complete d position cancel = .ok a) : P a.workspace := by
  obtain ⟨override, -, ha⟩ := bind_eq_ok_iff.1 ha
  rw [← Except.ok.inj ha, completePath]
  split
  · exact h
  · have hbase := hP.selectBaseDir h d.dirname override
    simp only
    split
    · exact hbase
    · exact hP.listing hbase _

/-- It is kept by a reply if it is kept by the answer. -/
theorem replyWith (h : P w) {α : Type} (reply : Except RequestError α → Reply) {x : Except RequestError (Answer Tree α)}
    (hx : ∀ a, x = .ok a → P a.workspace) : P (w.replyWith reply x).2 := by
  cases x with
  | ok a => exact hx a rfl
  | error e => exact h

/-- It is kept by every question. -/
theorem ask (hP : Kept P) (h : P w) (q : Query) : P (w.ask q).2 := by
  cases q with
  | findRoot start => exact hP.findRoot h start
  | baseDir documentDir => exact replyWith h _ fun a ha => hP.baseDir h ha
  | resolve d => exact replyWith h _ fun a ha => hP.resolve h ha
  | lint d => exact replyWith h _ fun a ha => hP.lint h ha
  | links d => exact replyWith h _ fun a ha => hP.links h ha
  | complete d position calledOff => exact replyWith h _ fun a ha => hP.complete h ha
  | listing directory => exact hP.listing h directory

end Kept

/-- A workspace after questions. -/
def asked (w : Workspace Tree) (questions : List Query) : Workspace Tree :=
  questions.foldl (fun w q => (w.ask q).2) w

/-- It is kept by any number of questions. -/
theorem Kept.asked (hP : Kept P) (h : P w) (questions : List Query) : P (w.asked questions) :=
  List.foldlRecOn questions _ h fun _ hv q _ => hP.ask hv q

/-! ## What is remembered -/

/-- What is remembered answers as the files do. -/
structure Truthful (w : Workspace Tree) : Prop where
  marker : w.roots.marker = w.settings.marker
  roots : w.roots.Right w.fs.presence
  listings : w.listings.Answers w.fs

/-- A truthful memory stays truthful whatever is asked. -/
theorem kept_truthful : Kept Truthful where
  findRoot h start := by
    obtain ⟨-, hright, hagrees⟩ := h.roots.find_tree _
    exact ⟨h.marker, hright, h.listings.agrees hagrees⟩
  listing {w} h directory := by
    have hagrees := (w.listings.get_cases w.fs directory).1
    exact ⟨h.marker, hagrees.presence_eq ▸ h.roots, (h.listings.get directory).2⟩
  files h _ hagrees := ⟨h.marker, hagrees.presence_eq ▸ h.roots, h.listings.agrees hagrees⟩
  diagnostics h _ := ⟨h.marker, h.roots, h.listings⟩

theorem Coherent.truthful (h : w.Coherent ∅) : w.Truthful :=
  ⟨h.marker, h.right, h.listings.answers⟩

/-- A new workspace remembers nothing that is not so. -/
theorem truthful_new (t : Tree) (env : Environment) (settings : Settings) : (new t env settings).Truthful :=
  ⟨rfl, Roots.right_empty _ _, (Listings.current_empty t ∅).answers⟩

/-- The root that is found is the nearest one. -/
theorem Truthful.findRoot_value (h : w.Truthful) (d : String) :
    (w.findRoot d).value = Path.nearestMarked w.fs.presence w.settings.marker (w.absolute d) :=
  findRoot_value_of_right h.marker h.roots d

/-- The listing that is answered has the entries that are there. -/
theorem Truthful.listing_entries (h : w.Truthful) (d : String) : (w.listing d).value.entries = w.fs.entriesAt d :=
  (h.listings.get d).1

/-- A root that is found is remembered. -/
theorem Truthful.known_findRoot (h : w.Truthful) {d : String} (hclean : Path.Clean d) :
    (w.findRoot d).workspace.roots.known.get? d = some (Path.nearestMarked w.fs.presence w.settings.marker d) := by
  have hfound := h.findRoot_value d
  rw [absolute, hclean.absolute_eq] at hfound
  rw [← hfound, findRoot, absolute, hclean.absolute_eq]
  exact w.roots.known_find w.fs d

/-- A listing that is answered is remembered. -/
theorem Truthful.known_listing (h : w.Truthful) {d : String} (hnormal : Path.normalize d = d)
    {entries : List DirectoryEntry}
    (hread : w.fs.listing d = .ok entries) : (w.listing d).workspace.listings.known.get? d = some entries := by
  have hanswer := h.listing_entries d
  rw [Tree.entriesAt, hnormal, hread] at hanswer
  have hknown := w.listings.known_get (hnormal.symm ▸ hread : w.fs.listing (Path.normalize d) = .ok entries)
  rw [hnormal] at hknown
  exact hknown.trans (congrArg some hanswer)

/-- The root of a directory and its listing are those that a new workspace over the present files answers. -/
def AnswersAsNew (w : Workspace Tree) (d : String) : Prop :=
  (w.findRoot d).value = ((new w.fs w.env w.settings).findRoot d).value ∧
    (w.listing d).value.entries = ((new w.fs w.env w.settings).listing d).value.entries

/-- A truthful memory answers as a new workspace does. -/
theorem Truthful.answers (h : w.Truthful) (d : String) : w.AnswersAsNew d := by
  have hnew := truthful_new w.fs w.env w.settings
  refine ⟨?_, ?_⟩
  · rw [h.findRoot_value, hnew.findRoot_value]
    rfl
  · rw [h.listing_entries, hnew.listing_entries]
    rfl

/-- Roots are remembered of directories at or above normalised paths. -/
theorem kept_placed : Kept fun w => w.roots.Placed where
  findRoot {w} h _ := h.find w.fs _
  listing h _ := h
  files h _ _ := h
  diagnostics h _ := h

/-- In every state that is reached roots are remembered of directories at or above normalised paths. -/
theorem Reached.placed {unreported : Set String} (h : Reached w unreported) : w.roots.Placed := by
  induction h with
  | start env hmarker hclean =>
    intro d root hknown
    simp [new] at hknown
  | ask _ q ih => exact kept_placed.ask ih q
  | mutate _ _ ih => exact ih
  | @report w _ _ paths ih =>
    intro d root hknown
    change (w.roots.invalidate (paths.map w.absolute)).2.known.get? d = some root at hknown
    rw [Roots.invalidate] at hknown
    split at hknown
    · simp [Roots.clear] at hknown
    · exact ih d root hknown

/-! ## A directory that goes -/

theorem filesChanged_roots (w : Workspace Tree) (paths : List String) :
    (w.filesChanged paths).workspace.roots = (w.roots.invalidate (paths.map w.absolute)).2 := rfl

theorem filesChanged_listings (w : Workspace Tree) (paths : List String) :
    (w.filesChanged paths).workspace.listings = (w.listings.invalidate (paths.map w.absolute)).2 := rfl

/-- A workspace after a path was taken out of the files with all below it, and that one path was reported. -/
def afterRemoval (w : Workspace Tree) (path : String) : Workspace Tree :=
  (({ w with fs := w.fs.remove path } : Workspace Tree).filesChanged [path]).workspace

/-- An absolute path is reported in its normal form. -/
theorem map_absolute (w : Workspace Tree) (habsolute : Path.isAbsolute path = true) :
    [path].map w.absolute = [Path.normalize path] := by
  rw [List.map_singleton, absolute, Path.absolute, if_pos habsolute]

@[simp]
theorem afterRemoval_fs (w : Workspace Tree) (path : String) : (w.afterRemoval path).fs = w.fs.remove path := by
  rw [afterRemoval, filesChanged_fs]

@[simp]
theorem afterRemoval_env (w : Workspace Tree) (path : String) : (w.afterRemoval path).env = w.env := by
  rw [afterRemoval, filesChanged_env]

@[simp]
theorem afterRemoval_settings (w : Workspace Tree) (path : String) : (w.afterRemoval path).settings = w.settings := by
  rw [afterRemoval, filesChanged_settings]

/-- Roots are remembered as before, unless the path has the marker's name. -/
theorem roots_afterRemoval (w : Workspace Tree) (habsolute : Path.isAbsolute path = true) :
    (w.afterRemoval path).roots = if Path.basename (Path.normalize path) = w.roots.marker then
      w.roots.clear else w.roots := by
  rw [afterRemoval, filesChanged_roots, map_absolute _ habsolute, Roots.invalidate]
  by_cases hname : Path.basename (Path.normalize path) = w.roots.marker <;> simp [Roots.isMarker, hname]

/-- A listing is remembered as before, unless it is that of the path or of the directory that it lay in. -/
theorem listings_afterRemoval (w : Workspace Tree) (habsolute : Path.isAbsolute path = true) (d : String) :
    (w.afterRemoval path).listings.known.get? d =
      if d = Path.normalize path ∨ d = Path.dirname (Path.normalize path) then none else w.listings.known.get? d := by
  rw [afterRemoval, filesChanged_listings, map_absolute _ habsolute]
  have hkept := Assoc.get?_filter w.listings.known
    (fun k => !([Path.normalize path].flatMap Listings.touchedBy).contains k) d
  refine hkept.trans ?_
  by_cases htouched : d = Path.normalize path ∨ d = Path.dirname (Path.normalize path)
  · simp [Listings.touchedBy, Path.normalize_normalize, htouched]
  · simp [Listings.touchedBy, Path.normalize_normalize, htouched]

/-- No root is remembered whose marker went, unless the roots are forgotten. -/
def KeepsMarkers (w : Workspace Tree) (path : String) : Prop :=
  Path.basename (Path.normalize path) = w.settings.marker ∨
    ∀ d root, w.roots.known.get? d = some (some root) →
      ((w.fs.remove path).pathExists (Path.join root w.settings.marker)).1 = true

/-- No entries are remembered of a directory below the path. -/
def KeepsEntries (w : Workspace Tree) (path : String) : Prop :=
  ∀ d entries, w.listings.known.get? d = some entries → Tree.isBelow (Path.normalize path) d = true → entries = []

/-- Where neither a root is remembered whose marker went nor entries of what went, the memory answers as the files
do. -/
theorem Coherent.truthful_afterRemoval (h : w.Coherent ∅) (habsolute : Path.isAbsolute path = true)
    (hmarkers : w.KeepsMarkers path) (hentries : w.KeepsEntries path) : (w.afterRemoval path).Truthful := by
  refine ⟨?_, ?_, ?_⟩
  · rw [afterRemoval_settings, roots_afterRemoval w habsolute]
    split <;> exact h.marker
  · rw [roots_afterRemoval w habsolute, afterRemoval_fs, h.marker]
    split
    · exact Roots.right_empty _ _
    · rename_i hname
      have hstay := hmarkers.resolve_left hname
      intro d root hknown
      have hroot := h.right d root hknown
      refine hroot.trans (Tree.nearestMarked_remove fun r hr => ?_).symm
      rw [h.marker]
      exact hstay d r (hknown.trans (by rw [hroot, hr]))
  · intro d entries hknown
    rw [listings_afterRemoval w habsolute] at hknown
    split at hknown
    · simp at hknown
    · rename_i hplace
      rw [not_or] at hplace
      obtain ⟨hnormal, hnow⟩ := h.listings.answers d entries hknown
      rw [afterRemoval_fs]
      refine ⟨hnormal, ?_⟩
      by_cases hgoes : Tree.GoesWith path d
      · rw [Tree.entriesAt_remove hnormal hgoes, hentries d entries hknown (hgoes.resolve_left hplace.1)]
      · rw [Tree.entriesAt_remove_eq h.clean hnormal hgoes (Ne.symm hplace.2), hnow]

/-- A root that is remembered of a directory is found after the removal as before it, unless the roots are forgotten. -/
theorem findRoot_afterRemoval_known (habsolute : Path.isAbsolute path = true)
    (hname : Path.basename (Path.normalize path) ≠ w.roots.marker) {d : String}
    (hclean : Path.Clean d) {root : Option String}
    (hknown : w.roots.known.get? d = some root) : ((w.afterRemoval path).findRoot d).value = root := by
  have hstays : (w.afterRemoval path).roots = w.roots := by
    rw [roots_afterRemoval w habsolute, if_neg hname]
  rw [findRoot, absolute, hclean.absolute_eq, hstays, Roots.find_known hknown]

/-- Entries that are remembered of a directory below a path are answered after its removal as before it. -/
theorem listing_afterRemoval_known (habsolute : Path.isAbsolute path = true) {d : String}
    (hnormal : Path.normalize d = d)
    (hbelow : Tree.isBelow (Path.normalize path) d = true) {entries : List DirectoryEntry}
    (hknown : w.listings.known.get? d = some entries) : ((w.afterRemoval path).listing d).value.entries = entries := by
  have hlonger := Tree.length_lt_of_isBelow hbelow
  have hother : ¬ (d = Path.normalize path ∨ d = Path.dirname (Path.normalize path)) := by
    rintro (rfl | rfl)
    · exact lt_irrefl _ hlonger
    · have hshorter := (Path.parentChars_prefix (Path.normalize path).toList).length_le
      rw [Path.dirname, String.toList_ofList] at hlonger
      omega
  have hstays : (w.afterRemoval path).listings.known.get? (Path.normalize d) = some entries := by
    rw [listings_afterRemoval w habsolute, hnormal, if_neg hother, hknown]
  rw [listing, Listings.get, Listings.lookup?, hstays]

/-- Where the roots are right after a removal, no root is remembered whose marker went. -/
theorem Reached.keepsMarkers (h : Reached w ∅) (habsolute : Path.isAbsolute path = true)
    (hright : ∀ d, ((w.afterRemoval path).findRoot d).value =
      ((new (w.fs.remove path) w.env w.settings).findRoot d).value) : w.KeepsMarkers path := by
  have hw := h.coherent
  refine or_iff_not_imp_left.2 fun hname d root hknown => ?_
  have hfound : Path.nearestMarked w.fs.presence w.roots.marker d = some root := (hw.right d _ hknown).symm
  have hrooted := Tree.isAbsolute_of_marked hw.clean (hw.marker ▸ hw.markerName) (Path.marked_of_nearestMarked hfound)
  have hclean := h.placed.clean hknown
    (Path.isAbsolute_of_mem_ancestors (Path.mem_ancestors_of_nearestMarked hfound) hrooted)
  have hold := findRoot_afterRemoval_known habsolute (hw.marker ▸ hname) hclean hknown
  have hnew := ((truthful_new (w.fs.remove path) w.env w.settings).findRoot_value d).symm.trans
    ((hright d).symm.trans hold)
  exact Path.marked_of_nearestMarked hnew

/-- Where the listings are right after a removal, no entries are remembered of a directory that went with the path. -/
theorem Reached.keepsEntries (h : Reached w ∅) (habsolute : Path.isAbsolute path = true)
    (hright : ∀ d, ((w.afterRemoval path).listing d).value.entries =
      ((new (w.fs.remove path) w.env w.settings).listing d).value.entries) : w.KeepsEntries path := by
  intro d entries hknown hbelow
  have hnormal := (h.coherent.listings.answers d entries hknown).1
  rw [← listing_afterRemoval_known habsolute hnormal hbelow hknown, hright,
    (truthful_new _ w.env w.settings).listing_entries]
  exact Tree.entriesAt_remove hnormal (.inr hbelow)

/-- Where nothing with the marker's name goes, no root loses its marker. -/
theorem Coherent.keepsMarkers (h : w.Coherent ∅)
    (hnames : ∀ p, p ∈ w.fs.files ∨ p ∈ w.fs.directories → Tree.GoesWith path p → Path.basename p ≠ w.settings.marker) :
    w.KeepsMarkers path := by
  refine .inr fun d root hknown => ?_
  have hfound : Path.nearestMarked w.fs.presence w.roots.marker d = some root := (h.right d _ hknown).symm
  have hmarks : w.fs.presence (Path.join root w.roots.marker) = true := Path.marked_of_nearestMarked hfound
  rw [h.marker] at hmarks
  rw [← hmarks]
  refine Tree.holds_of_not_changed fun hc => ?_
  obtain ⟨hthere, hgoes⟩ := Tree.changed_remove.1 hc
  exact hnames _ hthere hgoes (Path.basename_normalize_join root h.markerName)

/-- Where no directory lies below the path, nothing is remembered of one. -/
theorem Coherent.keepsEntries (h : w.Coherent ∅)
    (hnone : ∀ d ∈ w.fs.directories, Tree.isBelow (Path.normalize path) d = false) : w.KeepsEntries path := by
  intro d entries hknown hbelow
  obtain ⟨hnormal, hnow⟩ := h.listings.answers d entries hknown
  refine hnow ▸ List.eq_nil_iff_forall_not_mem.2 fun e he => ?_
  obtain ⟨-, hthere, -⟩ := Tree.mem_entriesAt.1 he
  rw [hnormal] at hthere
  exact absurd hbelow (Bool.eq_false_iff.1 (hnone d hthere))

/-- After a path went with what lies below it and that one path was reported, roots and listings are answered as a new
workspace answers them, whatever was asked since, exactly if no root is remembered whose marker went and no entries of a
directory that went. -/
theorem Reached.answers_after_removal (h : Reached w ∅) (habsolute : Path.isAbsolute path = true) :
    (∀ questions d, ((w.afterRemoval path).asked questions).AnswersAsNew d) ↔ w.KeepsMarkers path ∧
    w.KeepsEntries path := by
  constructor
  · intro hright
    have hnow : ∀ d, (w.afterRemoval path).AnswersAsNew d := hright []
    simp only [AnswersAsNew, afterRemoval_fs, afterRemoval_env, afterRemoval_settings] at hnow
    exact ⟨h.keepsMarkers habsolute fun d => (hnow d).1, h.keepsEntries habsolute fun d => (hnow d).2⟩
  · rintro ⟨hmarkers, hentries⟩ questions d
    have htruthful := h.coherent.truthful_afterRemoval habsolute hmarkers hentries
    exact (kept_truthful.asked htruthful questions).answers d

/-- A project of one page in a directory of its own. -/
theorem exists_project :
    ∃ t : Tree, t.AllClean ∧ t.files = ["/p/mkdocs.yml", "/p/s/x"] ∧
      t.directories = ["/", "/p", "/p/s"] ∧ t.unreadable = [] :=
  ⟨Tree.build [] ["/p/mkdocs.yml", "/p/s/x"] [], Tree.allClean_build [] (by simp) (by decide), by cbv, by cbv, by cbv⟩

/-- The directory of a page goes. It has no directory below it, and no marker goes with it: everything is answered
right. -/
theorem Reached.answers_after_removal_page :
    ∃ w : Workspace Tree, Reached w ∅ ∧ w.fs.files = ["/p/mkdocs.yml", "/p/s/x"] ∧
    ∀ questions d, ((w.afterRemoval "/p/s").asked questions).AnswersAsNew d := by
  obtain ⟨t, hclean, hfiles, hdirectories, -⟩ := exists_project
  have hname : Path.IsName ({} : Settings).marker.toList := by decide
  have hstart := Reached.start {} hname hclean
  have hagrees := hstart.coherent.agrees_listing "/p/s"
  obtain ⟨w, hreached, hfiles, hdirectories, hmarker⟩ : ∃ w : Workspace Tree, Reached w ∅ ∧
      w.fs.files = ["/p/mkdocs.yml", "/p/s/x"] ∧
      w.fs.directories = ["/", "/p", "/p/s"] ∧ w.settings.marker = "mkdocs.yml" :=
    ⟨_, hstart.ask (.listing "/p/s"), hagrees.files.trans hfiles, hagrees.directories.trans hdirectories, rfl⟩
  have hnormal : Path.normalize "/p/s" = "/p/s" := by cbv
  refine ⟨w, hreached, hfiles, (hreached.answers_after_removal (by decide)).2 ⟨?_, ?_⟩⟩
  · refine hreached.coherent.keepsMarkers fun p hp hgoes hname => ?_
    rw [hmarker] at hname
    rw [hfiles, hdirectories] at hp
    rw [Tree.GoesWith, hnormal] at hgoes
    have hnone : ∀ p ∈ ["/p/mkdocs.yml", "/p/s/x"] ++ ["/", "/p", "/p/s"], (p = "/p/s" ∨ Tree.isBelow "/p/s" p = true) →
        Path.basename p ≠ "mkdocs.yml" := by decide
    exact hnone p (List.mem_append.2 hp) hgoes hname
  · refine hreached.coherent.keepsEntries fun d hd => ?_
    rw [hdirectories] at hd
    rw [hnormal]
    have hnone : ∀ d ∈ ["/", "/p", "/p/s"], Tree.isBelow "/p/s" d = false := by decide
    exact hnone d hd

/-- The project after its root and its page's directory were asked for. -/
theorem exists_asked_project : ∃ w : Workspace Tree, Reached w ∅ ∧ w.fs.files = ["/p/mkdocs.yml", "/p/s/x"] ∧
    w.fs.directories = ["/", "/p", "/p/s"] ∧ w.settings.marker = "mkdocs.yml" ∧
    w.roots.known.get? "/p/s" = some (some "/p") ∧ w.listings.known.get? "/p/s" = some [⟨"x", false⟩] := by
  obtain ⟨t, hclean, hfiles, hdirectories, hunreadable⟩ := exists_project
  have hname : Path.IsName ({} : Settings).marker.toList := by decide
  have hstart := Reached.start {} hname hclean
  have hs : Path.Clean "/p/s" := ⟨by decide, by cbv⟩
  -- The root is searched for first.
  have hnearest : Path.nearestMarked t.presence "mkdocs.yml" "/p/s" = some "/p" := by
    have habove : Path.ancestors "/p/s" = ["/p/s", "/p", "/"] := by cbv
    simp only [Path.nearestMarked, habove, List.find?, Tree.presence, Tree.holds, hfiles, hdirectories]
    cbv
  have hroot := hstart.coherent.truthful.known_findRoot hs
  obtain ⟨v, hv, hvagrees, hvmarker, hvroot⟩ : ∃ v : Workspace Tree, Reached v ∅ ∧ t.Agrees v.fs ∧
      v.settings.marker = "mkdocs.yml" ∧
      v.roots.known.get? "/p/s" = some (some "/p") :=
    ⟨_, hstart.ask (.findRoot "/p/s"), hstart.coherent.agrees_findRoot "/p/s", rfl, hnearest ▸ hroot⟩
  -- The listing is read over the files as they are then.
  have hlisting : v.fs.listing "/p/s" = .ok [⟨"x", false⟩] := by
    rw [hvagrees.listing_eq, Tree.listing, Tree.entriesOf, hfiles, hdirectories, hunreadable]
    cbv
  have hagrees := hvagrees.trans (hv.coherent.agrees_listing "/p/s")
  exact ⟨_, hv.ask (.listing "/p/s"), hagrees.files.trans hfiles,
    hagrees.directories.trans hdirectories, hvmarker, hvroot, hv.coherent.truthful.known_listing hs.normal hlisting⟩

/-- The directory of a project goes, and that is reported. The root and the listing of a directory that lay in it are
answered still. -/
theorem Reached.stale_after_removal : ∃ w : Workspace Tree, Reached w ∅ ∧ w.fs.files = ["/p/mkdocs.yml", "/p/s/x"] ∧
    (w.fs.remove "/p").files = [] ∧ (w.fs.remove "/p").directories = ["/"] ∧
    ((w.afterRemoval "/p").findRoot "/p/s").value = some "/p" ∧
    ((new (w.fs.remove "/p") w.env w.settings).findRoot "/p/s").value = none ∧
    ((w.afterRemoval "/p").listing "/p/s").value.entries = [⟨"x", false⟩] ∧
    ((new (w.fs.remove "/p") w.env w.settings).listing "/p/s").value.entries = [] := by
  obtain ⟨w, hw, hfiles, hdirectories, hmarker, hroot, hentries⟩ := exists_asked_project
  have hs : Path.Clean "/p/s" := ⟨by decide, by cbv⟩
  have hp : Path.normalize "/p" = "/p" := by cbv
  have hbelow : Tree.isBelow (Path.normalize "/p") "/p/s" = true := by
    rw [hp]
    decide
  have hname : Path.basename (Path.normalize "/p") ≠ w.roots.marker := by
    rw [hp, hw.coherent.marker, hmarker]
    decide
  have hnoFiles : (w.fs.remove "/p").files = [] := by
    rw [Tree.remove, hfiles]
    cbv
  have hroots : (w.fs.remove "/p").directories = ["/"] := by
    rw [Tree.remove, hdirectories]
    cbv
  have hnew := truthful_new (w.fs.remove "/p") w.env w.settings
  refine ⟨w, hw, hfiles, hnoFiles, hroots, findRoot_afterRemoval_known (by decide) hname hs hroot, ?_,
    listing_afterRemoval_known (by decide) hs.normal hbelow hentries, ?_⟩
  · rw [hnew.findRoot_value, absolute, hs.absolute_eq]
    have habove : Path.ancestors "/p/s" = ["/p/s", "/p", "/"] := by cbv
    simp only [new, Path.nearestMarked, habove, List.find?, Tree.presence, Tree.holds, hnoFiles, hroots, hmarker]
    cbv
  · rw [hnew.listing_entries]
    exact Tree.entriesAt_remove hs.normal (.inr hbelow)

end Workspace

end DocRefs
