import DocRefs.Proofs.Completion.Suggestions
import DocRefs.Proofs.Path.FilePath

/-!
# The directory that is listed for a typed path

A suggestion is found in one way and used in another. It is an entry of a directory, and that directory is the typed one
taken from the base and put in its normal form (`TypedPath.directoryFrom`). Once it is accepted, the whole text is taken
from the base, and the path is put in its normal form then. Both lead to the same place: what stands in the directory
under a name is what the typed directory part with the name behind it is resolved to
(`TypedPath.resolvePath_append_name`), in whatever way the base and the typed part are written.
-/

namespace DocRefs

namespace Path

/-- Normalising an absolute path with a name behind it is normalising the path and putting the name behind that. -/
theorem normalChars_joinChars_normalChars {base name : List Char}
    (hroot : base.head? = some '/') (hname : IsName name) :
    normalChars (joinChars base name) = joinChars (normalChars base) name := by
  have hslashes : rootSlashes base ≠ 0 := by
    rcases rootSlashes_rooted hroot with h | h <;> omega
  have hplain := normalChars_joinChars_name hroot hname false
  rw [if_neg Bool.false_ne_true, List.append_nil] at hplain
  rw [hplain, normalChars_rooted hroot,
    joinChars_ofComponents_name hslashes (fun c hc => isName_of_mem_normalComponents hroot hc) hname]

end Path

namespace TypedPath

/-- The directory that a typed path leads to from a base, in its normal form: the base itself when no directory is
typed. -/
def directoryFrom (t : TypedPath) (base : String) : String :=
  Path.normalize (if t.directory = [] then base else Path.join base (String.ofList t.directory))

/-- The directory is the normal form of the base with the typed part behind it. -/
theorem toList_directoryFrom (t : TypedPath) (base : String) :
    (t.directoryFrom base).toList = Path.normalChars (t.placeChars base.toList) := by
  unfold directoryFrom placeChars
  by_cases hnil : t.directory = []
  · rw [if_pos hnil, if_pos hnil, Path.normalize, String.toList_ofList]
  · rw [if_neg hnil, if_neg hnil, Path.normalize, Path.join, String.toList_ofList,
      String.toList_ofList, String.toList_ofList]

/-- It is the directory that a request for suggestions asks for, whose path is put in its normal form once more. -/
theorem normalize_searchDir_eq (t : TypedPath) (base : String) :
    Path.normalize (t.searchDir base) = t.directoryFrom base := by
  rw [normalize_searchDir, ← toList_directoryFrom, String.ofList_toList]

variable {base : String}

/-- From an absolute base the typed part leads to an absolute path. -/
theorem head?_placeChars (t : TypedPath) (hbase : Path.isAbsolute base = true) :
    (t.placeChars base.toList).head? = some '/' := by
  unfold placeChars
  split
  · exact Path.head?_of_isAbsolute hbase
  · exact Path.head?_joinChars (Path.head?_of_isAbsolute hbase) _

/-- A name behind the directory part that is typed is resolved to what stands under that name in the directory. -/
theorem resolvePath_append_name {t : TypedPath} (hpart : IsDirectoryPart t.directory)
    (hbase : Path.isAbsolute base = true) {name : String} (hname : Path.IsName name.toList) :
    Workspace.resolvePath base (String.ofList t.directory ++ name) = Path.join (t.directoryFrom base) name := by
  have htext : String.ofList t.directory ++ name = String.ofList (t.directory ++ name.toList) := by
    rw [String.ofList_append, String.ofList_toList]
  have hhead : name.toList.head? ≠ some '/' := by
    have happend := hname.head?_append_ne []
    rwa [List.append_nil] at happend
  rw [htext, Workspace.resolvePath_ofList, joinChars_directory hpart _ hhead,
    Path.normalChars_joinChars_normalChars (t.head?_placeChars hbase) hname, Path.join, toList_directoryFrom]

end TypedPath

namespace Workspace

/-- What a path is resolved to is absolute and in its normal form. -/
theorem clean_resolvePath {base : String} (hbase : Path.isAbsolute base = true) (path : String) :
    Path.Clean (resolvePath base path) :=
  Path.clean_normalize (Path.isAbsolute_join hbase path)

/-- A path that is clean is resolved to itself, whatever the base. -/
theorem resolvePath_of_clean {path : String} (h : Path.Clean path) (base : String) : resolvePath base path = path := by
  have hjoin : Path.join base path = path := by
    rw [Path.join, Path.joinChars, if_pos (Path.head?_of_isAbsolute h.absolute), String.ofList_toList]
  rw [resolvePath, hjoin, h.normal]

variable {σ : Type} [FileSystem σ]

/-- A listing is what is remembered of the normal form of a path, or else what is read there; a failure counts as
empty. -/
theorem entries_listing (w : Workspace σ) (directory : String) :
    (w.listing directory).value.entries = ((w.listings.known.get? (Path.normalize directory)).or
      (FileSystem.listDirectory w.fs (Path.normalize directory)).1.toOption).getD [] := by
  unfold listing Listings.get Listings.lookup?
  cases w.listings.known.get? (Path.normalize directory) with
  | some entries => rfl
  | none =>
    generalize FileSystem.listDirectory w.fs (Path.normalize directory) = read
    obtain ⟨entries | e, fs⟩ := read <;> rfl

/-- A path that is typed is split into a directory part and a part of a name. What is suggested is found among the
entries of the directory that the first part leads to, remembered or else read under that path and no other; and what
stands there under a name is what the directory part with that name behind it is resolved to. Resolving what was
resolved leads nowhere else. -/
theorem completion_agrees_with_resolution {base : String} (hbase : Path.isAbsolute base = true) (typed : List Char) :
    let t := TypedPath.ofChars typed
    let directory := t.directoryFrom base
    (t.directory ++ t.partialName = typed ∧ TypedPath.IsDirectoryPart t.directory ∧ '/' ∉ t.partialName) ∧
    (∀ (w : Workspace σ) (linePrefix : List Char) (line : Int) (documentDir : String) (override : Option String),
      OpenPath.ofLine? linePrefix = some typed → (w.selectBaseDir documentDir override).value = base →
        let chosen := (w.selectBaseDir documentDir override).workspace
        (w.completePath linePrefix line documentDir override .never).value =
          some (Candidate.ofEntries line linePrefix.length t (((chosen.listings.known.get? directory).or
            (FileSystem.listDirectory chosen.fs directory).1.toOption).getD []))) ∧
    (∀ name : String, Path.IsName name.toList →
      resolvePath base (String.ofList t.directory ++ name) = Path.join directory name) ∧
    ∀ path, resolvePath base (resolvePath base path) = resolvePath base path := by
  intro t directory
  obtain ⟨hsplit, hpart, hslash⟩ := TypedPath.ofChars_spec typed
  refine ⟨⟨hsplit.symm, hpart, hslash⟩, ?_, fun name hname => TypedPath.resolvePath_append_name hpart hbase hname,
    fun path => ?_⟩
  · intro w linePrefix line documentDir override hopen hchosen chosen
    rw [completePath_of_open hopen, entriesTyped, hchosen, entries_listing, TypedPath.normalize_searchDir_eq]
  · exact resolvePath_of_clean (clean_resolvePath hbase path) base

/-- A base with two slashes before it and a way round, and a typed part that climbs over the root and down again. -/
theorem completion_agrees_with_resolution_roundabout :
    Path.isAbsolute "//x/../b/." = true ∧
      (TypedPath.ofChars "../..//s/./na".toList).directoryFrom "//x/../b/." = "//s" ∧
      Path.IsName "name.md".toList ∧ resolvePath "//x/../b/." ("../..//s/./" ++ "name.md") =
        Path.join "//s" "name.md" := by
  have hbase : Path.isAbsolute "//x/../b/." = true := by cbv
  have hname : Path.IsName "name.md".toList := by decide
  have hdirectory : (TypedPath.ofChars "../..//s/./na".toList).directoryFrom "//x/../b/." = "//s" := by cbv
  have hpart : String.ofList (TypedPath.ofChars "../..//s/./na".toList).directory = "../..//s/./" := by cbv
  obtain ⟨-, -, hresolved, -⟩ := completion_agrees_with_resolution (σ := Tree) hbase "../..//s/./na".toList
  have hplace := hresolved "name.md" hname
  rw [hpart, hdirectory] at hplace
  exact ⟨hbase, hdirectory, hname, hplace⟩

end Workspace

end DocRefs
