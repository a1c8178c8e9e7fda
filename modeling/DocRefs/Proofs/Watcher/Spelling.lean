import DocRefs.Proofs.Path.Names
import DocRefs.Proofs.Watcher

/-!
# What lies above a watched directory

Changes are reported by absolute paths, also where the watched directory was named from the working directory. Which
components of such a path count is decided by the directory as it was named: behind an absolute name the components
below the directory do, but a relative one is no front of any absolute path, and all components count
(`Watcher.isRelevant_append`). A watcher therefore shows what changes below a directory that is named absolutely,
wherever it lies, but below one that is named from the working directory only where no directory above has an ignored
name (`Watcher.changes_shown`).
-/

namespace DocRefs

namespace FilePath

variable {base directory above p : FilePath}

/-- Two paths with names behind them are the same if their roots and all components are. -/
theorem append_names_eq_iff {p q : FilePath} {names more : List String} :
    p.append ⟨0, names⟩ = q.append ⟨0, more⟩ ↔ p.slashes = q.slashes ∧ p.parts ++ names = q.parts ++ more :=
  iff_of_eq (FilePath.mk.injEq ..)

theorem append_nil (p : FilePath) : p.append ⟨0, []⟩ = p :=
  congrArg (FilePath.mk p.slashes) (List.append_nil _)

/-- A path lies below a directory if it is the directory with more components behind it. -/
theorem below?_eq_some_iff {names : List String} :
    directory.below? p = some names ↔ p = directory.append ⟨0, names⟩ := by
  obtain ⟨slashes, parts⟩ := p
  change (if directory.slashes = slashes && directory.parts.isPrefixOf parts then _ else none) = some names ↔
    FilePath.mk slashes parts = ⟨directory.slashes, directory.parts ++ names⟩
  rw [FilePath.mk.injEq]
  split
  · rename_i hfront
    simp only [Bool.and_eq_true, decide_eq_true_eq, List.isPrefixOf_iff_prefix] at hfront
    obtain ⟨hroot, behind, rfl⟩ := hfront
    simp [hroot]
  · rename_i hfront
    simp only [Bool.and_eq_true, decide_eq_true_eq, List.isPrefixOf_iff_prefix, not_and] at hfront
    constructor
    · intro h
      cases h
    · rintro ⟨hroot, hparts⟩
      exact absurd ⟨names, hparts.symm⟩ (hfront hroot.symm)

/-- The names that an absolute path leads along, from the last to the first: two dots take back the one before them. -/
def trail (p : FilePath) : List (List Char) :=
  (p.parts.map String.toList).foldl (Path.pushComponent true) []

/-- An absolute path that leads where a path leads that is taken from a directory. -/
structure Spells (above base directory : FilePath) : Prop where
  absolute : above.isAbsolute = true
  leads : above.trail = (base.append directory).trail

/-- Names behind a path are those that it leads along last. -/
theorem trail_append (p : FilePath) {names : List String} (hnames : ∀ n ∈ names, Path.IsName n.toList) :
    (p.append ⟨0, names⟩).trail = (names.map String.toList).reverse ++ p.trail := by
  have hchars : ∀ c ∈ names.map String.toList, Path.IsName c := by
    intro c hc
    obtain ⟨n, hn, rfl⟩ := List.mem_map.1 hc
    exact hnames n hn
  change ((p.parts ++ names).map String.toList).foldl (Path.pushComponent true) [] = _
  rw [List.map_append, List.foldl_append, Path.foldl_names hchars]
  rfl

/-- What lies below a directory by its absolute spelling lies below it as it was named only if the spelling does
itself. -/
theorem Spells.of_append_eq (h : above.Spells base directory) {names rest : List String}
    (hnames : ∀ n ∈ names, Path.IsName n.toList)
    (heq : above.append ⟨0, names⟩ = directory.append ⟨0, rest⟩) : ∃ more, above = directory.append ⟨0, more⟩ := by
  obtain ⟨hroot, hparts⟩ := append_names_eq_iff.1 heq
  rcases List.append_eq_append_iff.1 hparts with ⟨between, hdirectory, hsplit⟩ | ⟨more, habove, -⟩
  · -- The directory would be the spelling with names behind it, and lead along more names.
    have hrooted : directory.isAbsolute = true := by
      rw [isAbsolute, ← hroot]
      exact h.absolute
    have hbelow : directory.append ⟨0, []⟩ = above.append ⟨0, between⟩ :=
      append_names_eq_iff.2 ⟨hroot.symm, (List.append_nil _).trans hdirectory⟩
    have hbetween : ∀ n ∈ between, Path.IsName n.toList := by
      intro n hn
      refine hnames n ?_
      rw [hsplit]
      exact List.mem_append_left _ hn
    have hleads := h.leads
    rw [append, if_pos hrooted] at hleads
    have htrail := trail_append above hbetween
    rw [← hbelow, append_nil, ← hleads] at htrail
    have hnil : between = [] := by simpa using htrail
    rw [hnil, append_nil above] at hbelow
    exact ⟨[], hbelow.symm⟩
  · refine ⟨more, ?_⟩
    rw [← append_nil above, append_names_eq_iff, List.append_nil]
    exact ⟨hroot, habove⟩

end FilePath

/-- The paths of a batch, if it is one. -/
def Feed.paths? : Feed → Option (List FilePath)
  | batch paths => some paths
  | _ => none

namespace Watcher

variable {base directory above p : FilePath}

/-- Names of which none is ignored. -/
def NoneIgnored (names : List String) : Prop :=
  ∀ n ∈ names, n ∉ ignoredNames

instance (names : List String) : Decidable (NoneIgnored names) :=
  inferInstanceAs (Decidable (∀ n ∈ names, n ∉ ignoredNames))

/-- Of two lists of names none is ignored if none is in either. -/
theorem noneIgnored_append {names more : List String} :
    NoneIgnored (names ++ more) ↔ NoneIgnored names ∧ NoneIgnored more :=
  List.forall_mem_append

/-- A change counts if no name behind the directory is ignored, or no component at all if it does not lie there. -/
theorem isRelevant_iff (directory p : FilePath) :
    isRelevant directory p = true ↔ NoneIgnored ((directory.below? p).getD p.allParts) := by
  simp [isRelevant, NoneIgnored]

/-- The root of an absolute path is not an ignored name. -/
theorem noneIgnored_allParts (h : p.isAbsolute = true) : NoneIgnored p.allParts ↔ NoneIgnored p.parts := by
  have hroot : String.ofList (List.replicate p.slashes '/') ∉ ignoredNames := by
    intro hmem
    have hslash : ∀ n ∈ ignoredNames, '/' ∉ n.toList := by decide
    refine hslash _ hmem ?_
    rw [String.toList_ofList]
    exact List.mem_replicate.2 ⟨by simpa [FilePath.isAbsolute] using h, rfl⟩
  rw [FilePath.allParts, if_pos h, NoneIgnored, List.forall_mem_cons, and_iff_right hroot, NoneIgnored]

/-! ## The paths that count -/

/-- Whether no ignored name stands above a change: in the spelling of the directory, unless the spelling begins with the
directory as it was named, and then behind that. -/
def NothingHidden (directory above : FilePath) : Prop :=
  (∃ more, above = directory.append ⟨0, more⟩ ∧ NoneIgnored more) ∨ NoneIgnored above.parts

/-- What has no ignored name below the directory counts if no ignored name stands above it. -/
theorem isRelevant_append (h : above.Spells base directory) {names : List String}
    (hnames : ∀ n ∈ names, Path.IsName n.toList) :
    isRelevant directory (above.append ⟨0, names⟩) = true ↔ NothingHidden directory above ∧ NoneIgnored names := by
  rw [isRelevant_iff]
  by_cases hin : ∃ more, above = directory.append ⟨0, more⟩
  · obtain ⟨more, rfl⟩ := hin
    have hbelow : directory.below? ((directory.append ⟨0, more⟩).append ⟨0, names⟩) = some (more ++ names) :=
      FilePath.below?_eq_some_iff.2 (FilePath.append_names_eq_iff.2 ⟨rfl, List.append_assoc _ _ _⟩)
    have hhidden : NothingHidden directory (directory.append ⟨0, more⟩) ↔ NoneIgnored more := by
      refine ⟨fun hnothing => ?_, fun hmore => .inl ⟨more, rfl, hmore⟩⟩
      rcases hnothing with ⟨more', heq, hmore'⟩ | hparts
      · obtain rfl := List.append_cancel_left (FilePath.append_names_eq_iff.1 heq).2
        exact hmore'
      · exact (noneIgnored_append.1 hparts).2
    rw [hbelow, Option.getD_some, noneIgnored_append, hhidden]
  · have hoff : directory.below? (above.append ⟨0, names⟩) = none :=
      Option.eq_none_iff_forall_ne_some.2 fun rest hrest =>
        hin (h.of_append_eq hnames (FilePath.below?_eq_some_iff.1 hrest))
    have hhidden : NothingHidden directory above ↔ NoneIgnored above.parts :=
      or_iff_right fun ⟨more, heq, _⟩ => hin ⟨more, heq⟩
    rw [hoff, Option.getD_none, noneIgnored_allParts (p := above.append ⟨0, names⟩) h.absolute, hhidden]
    exact noneIgnored_append

/-- Whether a path lies below a directory and has no ignored name there. -/
def isShown (above p : FilePath) : Bool :=
  (above.below? p).any fun names => names.all fun n => !ignoredNames.contains n

/-- A change is to be shown if it lies below the directory by names of which none is ignored. -/
theorem isShown_iff (above p : FilePath) :
    isShown above p = true ↔ ∃ names, p = above.append ⟨0, names⟩ ∧ NoneIgnored names := by
  simp [isShown, NoneIgnored, Option.any_eq_true, FilePath.below?_eq_some_iff]

/-- A path that is a directory with names behind it. -/
def LiesBelow (above p : FilePath) : Prop :=
  ∃ names, (∀ n ∈ names, Path.IsName n.toList) ∧ p = above.append ⟨0, names⟩

/-- Where no ignored name stands above them, the changes count that are to be shown. -/
theorem isRelevant_eq_isShown (h : above.Spells base directory) (hnothing : NothingHidden directory above)
    (hp : LiesBelow above p) : isRelevant directory p = isShown above p := by
  obtain ⟨names, hnames, rfl⟩ := hp
  rw [Bool.eq_iff_iff, isRelevant_append h hnames, and_iff_right hnothing, isShown_iff]
  refine ⟨fun hclear => ⟨names, rfl, hclear⟩, fun ⟨names', heq, hclear⟩ => ?_⟩
  obtain rfl := List.append_cancel_left (FilePath.append_names_eq_iff.1 heq).2
  exact hclear

/-! ## What is shown -/

/-- A call for a batch that has all of its paths with no ignored name below the directory, each once. -/
def IsShownCall (above : FilePath) (call paths : List FilePath) : Prop :=
  call.Nodup ∧ ∀ p, p ∈ call ↔ p ∈ paths ∧ isShown above p = true

/-- A watcher that shows what changes below its directory, in whatever life where all that is reported lies there: its
calls are those for the batches that were taken, one for each batch with something to show. -/
def ShowsBelow (directory above : FilePath) : Prop :=
  ∀ fails moves, (∀ paths, Move.emit paths ∈ moves → ∀ p ∈ paths, LiesBelow above p) →
    List.Forall₂ (IsShownCall above) (life directory fails moves).output.calls
      ((((life directory fails moves).taken.map Prod.snd).filterMap Feed.paths?).filter fun paths =>
        paths.any (isShown above))

/-- What is taken was reported. -/
theorem emit_mem_of_taken {fails : List FilePath → Bool} {moves : List Move} {paths : List FilePath}
    (h : Feed.batch paths ∈ (life directory fails moves).taken.map Prod.snd) : Move.emit paths ∈ moves := by
  have hfed : Feed.batch paths ∈ moves.flatMap Move.fed := by
    rw [(accounted_life directory fails moves).queue]
    exact List.mem_append_left _ h
  obtain ⟨m, hm, hpaths⟩ := List.mem_flatMap.1 hfed
  cases m <;> simp [Move.fed] at hpaths
  exact hpaths ▸ hm

/-- Where the paths count that are to be shown, the calls for batches are as they should be. -/
theorem forall₂_shown {items : List Feed}
    (h : ∀ paths, Feed.batch paths ∈ items → ∀ p ∈ paths, isRelevant directory p = isShown above p) :
    List.Forall₂ (IsShownCall above) (items.filterMap (passed directory))
      ((items.filterMap Feed.paths?).filter fun paths => paths.any (isShown above)) := by
  have hbatches : items.filterMap (interesting? directory) =
      (items.filterMap Feed.paths?).filter fun paths => paths.any (isShown above) := by
    rw [List.filter_filterMap]
    refine List.filterMap_congr fun item hitem => ?_
    cases item with
    | finish => rfl
    | crash => rfl
    | batch paths =>
      have hany : paths.any (isRelevant directory) = paths.any (isShown above) := by
        rw [Bool.eq_iff_iff, List.any_eq_true, List.any_eq_true]
        exact exists_congr fun p => and_congr_right fun hp => by rw [h paths hitem p hp]
      rw [interesting?, hany, Feed.paths?, Option.filter_some]
  have hmem : ∀ paths ∈ (items.filterMap Feed.paths?).filter fun paths => paths.any (isShown above), ∀ p ∈ paths,
      isRelevant directory p = isShown above p := by
    intro paths hpaths
    obtain ⟨item, hitem, hitem'⟩ := List.mem_filterMap.1 (List.mem_filter.1 hpaths).1
    cases item <;> cases hitem'
    exact h paths hitem
  have hcalls := forall₂_passed directory items
  rw [hbatches] at hcalls
  refine ((List.forall₂_and_left _ _).2 ⟨hmem, hcalls.flip⟩).flip.imp ?_
  rintro call paths ⟨hsame, hnodup, hcall⟩
  refine ⟨hnodup, fun p => (hcall p).trans (and_congr_right fun hp => ?_)⟩
  rw [hsame p hp]

/-- What changes below the directory is shown where no ignored name stands above. -/
theorem showsBelow_of_nothingHidden (h : above.Spells base directory) (hnothing : NothingHidden directory above) :
    ShowsBelow directory above := by
  intro fails moves hmoves
  rw [(accounted_life directory fails moves).calls]
  refine forall₂_shown fun paths hpaths p hp => ?_
  exact isRelevant_eq_isShown h hnothing (hmoves paths (emit_mem_of_taken hpaths) p hp)

/-- Where one stands above, a change right in the directory is not shown. -/
theorem nothingHidden_of_showsBelow (h : above.Spells base directory) (hshows : ShowsBelow directory above) :
    NothingHidden directory above := by
  have hnames : ∀ n ∈ ["a"], Path.IsName n.toList := by decide
  have hlies : LiesBelow above (above.append ⟨0, ["a"]⟩) := ⟨["a"], hnames, rfl⟩
  have hshown : isShown above (above.append ⟨0, ["a"]⟩) = true := (isShown_iff _ _).2 ⟨["a"], rfl, by decide⟩
  have hcalls := hshows (fun _ => false) [.start, .emit [above.append ⟨0, ["a"]⟩]] (by simpa using hlies)
  have htaken : (life directory (fun _ => false) [.start, .emit [above.append ⟨0, ["a"]⟩]]).taken.map Prod.snd =
      [.batch [above.append ⟨0, ["a"]⟩]] := rfl
  rw [(accounted_life _ _ _).calls, htaken] at hcalls
  by_contra hhidden
  have hirrelevant : isRelevant directory (above.append ⟨0, ["a"]⟩) = false := by
    rw [Bool.eq_false_iff, ne_eq, isRelevant_append h hnames]
    exact fun hboth => hhidden hboth.1
  have hnone : relevant directory [above.append ⟨0, ["a"]⟩] = [] := by
    rw [relevant, List.filter_cons_of_neg (by simp [hirrelevant])]
    rfl
  simp [passed, hnone, Feed.paths?, hshown] at hcalls

/-- A watcher shows what changes below its directory exactly if no ignored name stands above. For a directory that is
named with an absolute path none does, as long as changes are reported behind that name; one that is named from the
working directory has all components of its absolute path above. -/
theorem changes_shown (h : above.Spells base directory) :
    (ShowsBelow directory above ↔ NothingHidden directory above) ∧
    (above = directory → ShowsBelow directory above) ∧
    (directory.isAbsolute = false → (ShowsBelow directory above ↔ NoneIgnored above.parts)) := by
  have hiff : ShowsBelow directory above ↔ NothingHidden directory above :=
    ⟨nothingHidden_of_showsBelow h, showsBelow_of_nothingHidden h⟩
  refine ⟨hiff, fun habove => hiff.2 (.inl ⟨[], ?_, by simp [NoneIgnored]⟩),
    fun hrelative => hiff.trans (or_iff_right ?_)⟩
  · rw [habove, FilePath.append_nil]
  · rintro ⟨more, heq, -⟩
    have hroot : above.isAbsolute = directory.isAbsolute := by
      rw [heq]
      rfl
    rw [hrelative, h.absolute] at hroot
    cases hroot

/-- In a working directory with no ignored name above, a directory is watched by its name there; in `/site`, by its
absolute path. -/
theorem changes_shown_docs :
    (FilePath.Spells ⟨1, ["work", "docs"]⟩ ⟨1, ["work"]⟩ (.ofString "docs") ∧
      ShowsBelow (.ofString "docs") ⟨1, ["work", "docs"]⟩) ∧
      FilePath.Spells ⟨1, ["site"]⟩ ⟨1, ["site"]⟩ (.ofString "/site") ∧
      ShowsBelow (.ofString "/site") ⟨1, ["site"]⟩ := by
  have hdocs : FilePath.Spells ⟨1, ["work", "docs"]⟩ ⟨1, ["work"]⟩ (.ofString "docs") := ⟨by decide, by cbv⟩
  have hsite : FilePath.Spells ⟨1, ["site"]⟩ ⟨1, ["site"]⟩ (.ofString "/site") := ⟨by decide, by cbv⟩
  exact ⟨⟨hdocs, ((changes_shown hdocs).2.2 (by cbv)).2 (by decide)⟩, hsite, (changes_shown hsite).2.1 (by cbv)⟩

/-- In the working directory `/site` nothing is shown of the directory that is watched as `.`, as the change of `a.md`
is not. -/
theorem hidden_in_working_directory :
    let above : FilePath := ⟨1, ["site"]⟩
    let change : FilePath := ⟨1, ["site", "a.md"]⟩
    above.Spells above (.ofString ".") ∧ LiesBelow above change ∧ isShown above change = true ∧
      (life (.ofString ".") (fun _ => false) [.start, .emit [change]]).output.calls = [] ∧
          ¬ ShowsBelow (.ofString ".") above := by
  intro above change
  have hlies : LiesBelow above change := ⟨["a.md"], by decide, rfl⟩
  have hnone : (life (.ofString ".") (fun _ => false) [.start, .emit [change]]).output.calls = [] := by cbv
  refine ⟨⟨by decide, by cbv⟩, hlies, by decide, hnone, fun hshows => ?_⟩
  have hcalls := hshows (fun _ => false) [.start, .emit [change]] (by simpa using hlies)
  have htaken : (life (.ofString ".") (fun _ => false) [.start, .emit [change]]).taken.map Prod.snd =
    [.batch [change]] := rfl
  have hbatches : (([Feed.batch [change]].filterMap Feed.paths?).filter fun paths =>
    paths.any (isShown above)) = [[change]] := by decide
  rw [hnone, htaken, hbatches] at hcalls
  cases hcalls

end Watcher

end DocRefs
