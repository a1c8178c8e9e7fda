import DocRefs.Proofs.Completion.OpenPath
import DocRefs.Proofs.Files.Entries
import DocRefs.Proofs.Roots
import DocRefs.Workspace

/-!
# What is suggested

Behind an opener the entries of the directory that is typed so far are suggested, those whose names begin with what is
typed behind the last slash (`Workspace.completePath_value`). A suggestion that is accepted takes the place of that
beginning, and the directory part stays as it is typed (`Candidate.accepted_of_mem`).
-/

namespace DocRefs

/-! ## Lower case -/

namespace LowerCase

/-- Characters whose lower-case form depends on nothing around them. -/
def IsPlain (c : Char) : Prop :=
  c ≠ sigma ∧ c ≠ '\u0130'

/-- A text of such characters is put into lower case one by one. -/
theorem after_eq_map {text : List Char} (h : ∀ c ∈ text, IsPlain c) (before : List Char) :
    after before text = text.map simple := by
  induction text generalizing before with
  | nil => rfl
  | cons c text ih =>
    obtain ⟨hsigma, hdotted⟩ := h c List.mem_cons_self
    rw [after, if_neg hsigma, if_neg hdotted, ih fun d hd => h d (List.mem_cons_of_mem c hd)]
    rfl

/-- A character that a path may hold has one lower case. -/
theorem isPlain_of_isPathChar {c : Char} (h : isPathChar c = true) : IsPlain c := by
  constructor
  · rintro rfl
    exact absurd h (by decide)
  · rintro rfl
    exact absurd h (by decide)

end LowerCase

/-- A beginning of a path begins it in lower case too. -/
theorem isPrefixOf_lowerCase {front text : List Char} (hfront : front <+: text)
    (hpath : ∀ c ∈ text, isPathChar c = true) :
    (lowerCase (String.ofList front)).toList.isPrefixOf (lowerCase (String.ofList text)).toList = true := by
  have hplain : ∀ c ∈ text, LowerCase.IsPlain c := fun c hc => LowerCase.isPlain_of_isPathChar (hpath c hc)
  rw [lowerCase, lowerCase, String.toList_ofList, String.toList_ofList, String.toList_ofList, String.toList_ofList,
    LowerCase.after_eq_map hplain, LowerCase.after_eq_map fun c hc => hplain c (hfront.subset hc),
      List.isPrefixOf_iff_prefix]
  exact hfront.map LowerCase.simple

/-! ## The typed path -/

namespace TypedPath

/-- A directory part: nothing, or a text that ends with a slash. -/
def IsDirectoryPart (directory : List Char) : Prop :=
  directory = [] ∨ directory.getLast? = some '/'

/-- A typed path is split behind its last slash. -/
theorem ofChars_append {directory name : List Char} (h : IsDirectoryPart directory) (hname : '/' ∉ name) :
    ofChars (directory ++ name) = ⟨directory, name⟩ := by
  have hchars : Path.nameChars (directory ++ name) = name := by
    rcases h with rfl | h
    · exact Path.nameChars_of_notMem hname
    · obtain ⟨front, rfl⟩ := List.getLast?_eq_some_iff.1 h
      rw [List.append_assoc, List.singleton_append]
      exact Path.nameChars_append front hname
  rw [ofChars, hchars, List.length_append, Nat.add_sub_cancel, List.take_left]

/-- The two parts of a typed path make it up. -/
theorem ofChars_spec (typed : List Char) :
    typed = (ofChars typed).directory ++ (ofChars typed).partialName ∧ IsDirectoryPart (ofChars typed).directory ∧
      '/' ∉ (ofChars typed).partialName := by
  obtain ⟨directory, name, rfl, hdirectory, hname⟩ : ∃ directory name, typed = directory ++ name ∧
      IsDirectoryPart directory ∧
      '/' ∉ name := by
    induction typed using List.reverseRecOn with
    | nil => exact ⟨[], [], rfl, .inl rfl, by simp⟩
    | append_singleton typed c ih =>
      by_cases hc : c = '/'
      · exact ⟨typed ++ [c], [], by simp, .inr (by simp [hc]), by simp⟩
      · obtain ⟨directory, name, rfl, hdirectory, hname⟩ := ih
        exact ⟨directory, name ++ [c], by simp, hdirectory, by simp [hname, Ne.symm hc]⟩
  rw [ofChars_append hdirectory hname]
  exact ⟨rfl, hdirectory, hname⟩

/-- The directory that a typed path leads to from a base, before it is put in its normal form. -/
def placeChars (t : TypedPath) (base : List Char) : List Char :=
  if t.directory = [] then base else Path.joinChars base t.directory

/-- The directory whose entries are suggested is that one. -/
theorem normalize_searchDir (t : TypedPath) (base : String) :
    Path.normalize (t.searchDir base) = String.ofList (Path.normalChars (t.placeChars base.toList)) := by
  unfold searchDir placeChars
  by_cases hnil : t.directory = []
  · rw [if_pos (List.isEmpty_iff.2 hnil), if_pos hnil, Path.normalize]
  · rw [if_neg (mt List.isEmpty_iff.1 hnil), if_neg hnil, Path.normalize_normalize, Path.normalize,
      Path.join, String.toList_ofList, String.toList_ofList]

/-- What is put behind the directory part is taken from that directory. -/
theorem joinChars_directory {t : TypedPath} (hpart : IsDirectoryPart t.directory) (base : List Char) {p : List Char}
    (hp : p.head? ≠ some '/') : Path.joinChars base (t.directory ++ p) = Path.joinChars (t.placeChars base) p := by
  unfold placeChars
  rcases hpart with hnil | hslash
  · rw [if_pos hnil, hnil, List.nil_append]
  · have hne : t.directory ≠ [] := fun hnil => by simp [hnil] at hslash
    rw [if_neg hne, Path.joinChars_append hslash hp]

end TypedPath

/-! ## Candidates -/

namespace Candidate

/-- A line with a suggestion put in its place. -/
def accepted (c : Candidate) (line : List Char) : List Char :=
  line.take c.replace.start.character.toNat ++ (c.insertText.toList ++ line.drop c.replace.stop.character.toNat)

variable {n : Int} {length : Nat} {t : TypedPath} {entries : List DirectoryEntry} {c : Candidate}

/-- Where a suggestion is put, for a text of a given length. -/
def placeOf (n : Int) (length : Nat) (t : TypedPath) : TextRange :=
  ⟨⟨n, length - t.partialName.length⟩, ⟨n, length⟩⟩

/-- The entries are suggested whose names begin with what is typed of a name. -/
theorem mem_ofEntries : c ∈ ofEntries n length t entries ↔
    ∃ e ∈ entries, (lowerCase (String.ofList t.partialName)).toList.isPrefixOf (lowerCase e.name).toList = true ∧
      c = ofEntry (String.ofList t.directory) (placeOf n length t) e := by
  rw [ofEntries, List.mem_map]
  simp only [matching, List.mem_mergeSort, List.mem_filter]
  constructor
  · rintro ⟨e, ⟨he, hbegins⟩, rfl⟩
    exact ⟨e, he, hbegins, rfl⟩
  · rintro ⟨e, he, hbegins, rfl⟩
    exact ⟨e, ⟨he, hbegins⟩, rfl⟩

/-- What is put in for an entry: its name, behind which a directory has a slash. -/
theorem ofEntry_spec (directory : String) (place : TextRange) (e : DirectoryEntry) :
    (ofEntry directory place e).label = e.name ∧ (ofEntry directory place e).isDirectory = e.isDirectory ∧
      (ofEntry directory place e).replace = place ∧
      (ofEntry directory place e).insertText.toList = e.name.toList ++ (if e.isDirectory then ['/'] else []) := by
  unfold ofEntry
  cases e.isDirectory <;> simp

/-- An entry whose name begins with what is typed of a name is suggested. -/
theorem exists_of_entry (n : Int) (length : Nat) {e : DirectoryEntry} (he : e ∈ entries)
    (hbegins : (lowerCase (String.ofList t.partialName)).toList.isPrefixOf (lowerCase e.name).toList = true) :
    ∃ c ∈ ofEntries n length t entries, c.isDirectory = e.isDirectory ∧
      c.insertText.toList = e.name.toList ++ (if e.isDirectory then ['/'] else []) := by
  obtain ⟨-, hkind, -, hinsert⟩ := ofEntry_spec (String.ofList t.directory) (placeOf n length t) e
  exact ⟨_, mem_ofEntries.2 ⟨e, he, hbegins, rfl⟩, hkind, hinsert⟩

/-- The range of a suggestion begins behind the directory part of what is typed and goes on to its end. -/
theorem replace_of_mem {before typed : List Char}
    (hc : c ∈ ofEntries n (before ++ typed).length (.ofChars typed) entries) :
    c.replace = ⟨⟨n, (before ++ (TypedPath.ofChars typed).directory).length⟩, ⟨n, (before ++ typed).length⟩⟩ := by
  obtain ⟨e, -, -, rfl⟩ := mem_ofEntries.1 hc
  obtain ⟨hsplit, -, -⟩ := TypedPath.ofChars_spec typed
  rw [(ofEntry_spec _ _ e).2.2.1]
  generalize TypedPath.ofChars typed = t at hsplit
  have hstart : ((before ++ typed).length - t.partialName.length : Int) = (before ++ t.directory).length := by
    rw [hsplit]
    simp only [List.length_append]
    omega
  rw [placeOf, hstart]

/-- A suggestion that is accepted takes the place of what is typed of a name. -/
theorem accepted_of_mem {before typed : List Char}
    (hc : c ∈ ofEntries n (before ++ typed).length (.ofChars typed) entries) :
    c.accepted (before ++ typed) = before ++ ((TypedPath.ofChars typed).directory ++ c.insertText.toList) := by
  obtain ⟨hsplit, -, -⟩ := TypedPath.ofChars_spec typed
  have hplace := replace_of_mem hc
  generalize TypedPath.ofChars typed = t at hsplit hplace
  have hfront : (before ++ typed).take (before ++ t.directory).length = before ++ t.directory := by
    rw [hsplit, ← List.append_assoc, List.take_left]
  rw [accepted, hplace]
  dsimp only
  rw [Int.toNat_natCast, Int.toNat_natCast, hfront, List.drop_length, List.append_nil, List.append_assoc]

end Candidate

/-! ## A request -/

namespace Workspace

section

variable {σ : Type} [FileSystem σ] {w : Workspace σ} {linePrefix typed : List Char} {line : Int} {documentDir : String}
  {override : Option String} {cancel : Cancellation}

/-- The entries that are looked at for a typed path. -/
def entriesTyped (w : Workspace σ) (documentDir : String) (override : Option String)
    (typed : List Char) : List DirectoryEntry :=
  let base := w.selectBaseDir documentDir override
  (base.workspace.listing ((TypedPath.ofChars typed).searchDir base.value)).value.entries

/-- Where no path is open nothing is suggested, and nothing is looked at. -/
theorem completePath_of_closed (hclosed : OpenPath.ofLine? linePrefix = none) :
    w.completePath linePrefix line documentDir override cancel = ⟨none, w, []⟩ := by
  rw [completePath, hclosed]

/-- Where a path is open, a request that is not called off suggests what is looked at. -/
theorem completePath_of_open (hopen : OpenPath.ofLine? linePrefix = some typed) :
    (w.completePath linePrefix line documentDir override .never).value =
      some (Candidate.ofEntries line linePrefix.length (.ofChars typed)
      (w.entriesTyped documentDir override typed)) := by
  rw [completePath, hopen]
  rfl

/-- Whatever is suggested is suggested where a path is open, and is among what is looked at. -/
theorem exists_typed_of_completePath {candidates : List Candidate}
    (hvalue : (w.completePath linePrefix line documentDir override cancel).value = some candidates) :
    ∃ typed, OpenPath.ofLine? linePrefix = some typed ∧
      candidates = Candidate.ofEntries line linePrefix.length (.ofChars typed)
      (w.entriesTyped documentDir override typed) := by
  rw [completePath] at hvalue
  cases hopen : OpenPath.ofLine? linePrefix with
  | none => simp [hopen] at hvalue
  | some typed =>
    refine ⟨typed, rfl, ?_⟩
    simp only [hopen] at hvalue
    split at hvalue
    · simp at hvalue
    · split at hvalue
      · simp at hvalue
      · exact (Option.some.inj hvalue).symm

end

variable {w : Workspace Tree}

theorem resolvePath_ofList (base : String) (path : List Char) :
    resolvePath base (String.ofList path) = String.ofList (Path.normalChars (Path.joinChars base.toList path)) := by
  rw [resolvePath, Path.normalize, Path.join, String.toList_ofList, String.toList_ofList]

/-- Choosing a base directory changes nothing in the tree but its counts, and no remembered listing. -/
theorem agrees_selectBaseDir (w : Workspace Tree) (documentDir : String) (override : Option String) :
    w.fs.Agrees (w.selectBaseDir documentDir override).workspace.fs ∧
      (w.selectBaseDir documentDir override).workspace.listings = w.listings := by
  cases override with
  | some dir => exact ⟨.rfl, rfl⟩
  | none => exact ⟨w.roots.agrees_walk w.fs _, rfl⟩

/-- While what is remembered of directories is right, the entries are looked at that a directory has. -/
theorem entriesTyped_eq (h : w.listings.Current w.fs ∅) (documentDir : String)
    (override : Option String) (typed : List Char) : w.entriesTyped documentDir override typed =
      w.fs.entriesAt ((TypedPath.ofChars typed).searchDir (w.selectBaseDir documentDir override).value) := by
  obtain ⟨hagrees, hlistings⟩ := w.agrees_selectBaseDir documentDir override
  have hcurrent : (w.selectBaseDir documentDir override).workspace.listings.Current
      (w.selectBaseDir documentDir override).workspace.fs ∅ := by
    rw [hlistings]
    exact h.agrees hagrees
  exact (Listings.get_spec hcurrent _).1.trans (hagrees.entriesAt_eq _)

variable {linePrefix typed : List Char} {line : Int} {documentDir : String} {override : Option String}

/-- Where a path is open, a request that is not called off suggests the entries of the directory that is typed so
far. -/
theorem completePath_value (h : w.listings.Current w.fs ∅) (hopen : OpenPath.ofLine? linePrefix = some typed) :
    (w.completePath linePrefix line documentDir override .never).value =
      some (Candidate.ofEntries line linePrefix.length (.ofChars typed)
      (w.fs.entriesAt ((TypedPath.ofChars typed).searchDir (w.selectBaseDir documentDir override).value))) := by
  rw [completePath_of_open hopen, entriesTyped_eq h]

/-- Whatever is suggested is among these entries. -/
theorem eq_of_completePath_value (h : w.listings.Current w.fs ∅) {cancel : Cancellation} {candidates : List Candidate}
    (hvalue : (w.completePath linePrefix line documentDir override cancel).value = some candidates) :
    ∃ typed, OpenPath.ofLine? linePrefix = some typed ∧
    candidates = Candidate.ofEntries line linePrefix.length (.ofChars typed)
      (w.fs.entriesAt ((TypedPath.ofChars typed).searchDir (w.selectBaseDir documentDir override).value)) := by
  obtain ⟨typed, hopen, hcandidates⟩ := exists_typed_of_completePath hvalue
  rw [entriesTyped_eq h] at hcandidates
  exact ⟨typed, hopen, hcandidates⟩

end Workspace

end DocRefs
