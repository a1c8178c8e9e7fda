import DocRefs.Proofs.Completion.Suggestions

/-!
# Suggestions lead to every path

A beginning of a path of names ends in one of them: the names before it make its directory part, and what stands behind
that begins the name (`Path.exists_component_of_prefix`). In a grown tree all directories on the way to a file are
there, so at each such beginning the name is suggested, and accepting one suggestion after another leads from the opener
to the whole path (`Workspace.suggestions_lead_to`).
-/

namespace DocRefs

/-! ## Beginnings of a path -/

namespace Path

variable {names front later : List (List Char)} {name typed : List Char}

/-- A path of names as it is typed before a further name: a slash behind each. -/
def directoryPart (names : List (List Char)) : List Char :=
  ofComponents 0 names ++ if names = [] then [] else ['/']

/-- A relative path of names is its directory part and its last name. -/
theorem ofComponents_zero_concat (names : List (List Char)) (name : List Char) :
    ofComponents 0 (names ++ [name]) = directoryPart names ++ name := by
  rw [ofComponents_concat, directoryPart, List.append_assoc]

/-- A name more is a slash more in the directory part. -/
theorem directoryPart_concat (names : List (List Char)) (name : List Char) :
    directoryPart (names ++ [name]) = directoryPart names ++ (name ++ ['/']) := by
  rw [directoryPart, ofComponents_zero_concat, if_neg (by simp), List.append_assoc]

/-- The directory part of names is one. -/
theorem isDirectoryPart_directoryPart (names : List (List Char)) : TypedPath.IsDirectoryPart (directoryPart names) := by
  rcases List.eq_nil_or_concat names with rfl | ⟨front, name, rfl⟩
  · exact .inl rfl
  · rw [List.concat_eq_append, directoryPart_concat]
    exact .inr (by simp [← List.append_assoc])

/-- A beginning of a path of names ends in one of them. -/
theorem exists_component_of_prefix (hne : names ≠ []) (h : typed <+: ofComponents 0 names) :
    ∃ front name later part, names = front ++ name :: later ∧ part <+: name ∧ typed = directoryPart front ++ part := by
  induction names using List.reverseRecOn generalizing typed with
  | nil => exact absurd rfl hne
  | append_singleton front name ih =>
    rw [ofComponents_zero_concat] at h
    rcases List.prefix_or_prefix_of_prefix h (List.prefix_append _ name) with hfront | ⟨part, rfl⟩
    · by_cases hnil : front = []
      · subst hnil
        obtain rfl := List.prefix_nil.1 hfront
        exact ⟨[], name, [], [], rfl, List.nil_prefix, rfl⟩
      · rw [directoryPart, if_neg hnil, List.prefix_concat_iff] at hfront
        rcases hfront with rfl | hfront
        · exact ⟨front, name, [], [], rfl, List.nil_prefix, by rw [directoryPart, if_neg hnil, List.append_nil]⟩
        · obtain ⟨front', name', later, part, rfl, hpart, htyped⟩ := ih hnil hfront
          exact ⟨front', name', later ++ [name], part, by simp, hpart, htyped⟩
    · exact ⟨front, name, [], part, rfl, (List.prefix_append_right_inj _).1 h, rfl⟩

/-- The slashes of the beginning of a path are as many as the names before the one that it ends in. -/
theorem count_directoryPart (h : ∀ c ∈ names, IsName c) : (directoryPart names).count '/' = names.length := by
  induction names using List.reverseRecOn with
  | nil => rfl
  | append_singleton front name ih =>
    have hname : name.count '/' = 0 := List.count_eq_zero.2 (h name (by simp)).noSlash
    rw [directoryPart_concat, List.count_append, ih fun c hc => h c (by simp [hc]), List.count_append, hname]
    simp

/-- Where names hold nothing but characters of a path, so does their directory part. -/
theorem isPathChar_directoryPart (h : ∀ name ∈ names, ∀ c ∈ name, isPathChar c = true) :
    ∀ c ∈ directoryPart names, isPathChar c = true := by
  induction names using List.reverseRecOn with
  | nil =>
    intro c hc
    exact absurd hc List.not_mem_nil
  | append_singleton front name ih =>
    intro c hc
    rw [directoryPart_concat, List.mem_append, List.mem_append, List.mem_singleton] at hc
    rcases hc with hc | hc | rfl
    · exact ih (fun name hname => h name (by simp [hname])) c hc
    · exact h name (by simp) c hc
    · decide

end Path

/-! ## On the way down -/

namespace Workspace

/-- A name as it may stand in the path of a reference. -/
structure IsPathName (name : List Char) : Prop where
  isName : Path.IsName name
  chars : ∀ c ∈ name, isPathChar c = true

/-- The place that a path of names leads to from a base directory. -/
def placeOf (base : String) (names : List (List Char)) : String :=
  resolvePath base (String.ofList (Path.ofComponents 0 names))

variable {base : String} {names front later : List (List Char)} {name part : List Char}

/-- The place that names lead to has the components of the base and behind them the names. -/
theorem placeOf_eq (hbase : Path.isAbsolute base = true) (hnames : ∀ c ∈ names, Path.IsName c) :
    placeOf base names =
      String.ofList (Path.ofComponents (Path.rootSlashes base.toList)
      (Path.normalComponents base.toList ++ names)) := by
  have hroot := Path.head?_of_isAbsolute hbase
  rw [placeOf, resolvePath_ofList, ← Path.normalChars_joinChars_names hroot hnames]
  rfl

/-- The directory whose entries are suggested behind a path of names is the one that the path leads to. -/
theorem normalize_searchDir (hbase : Path.isAbsolute base = true)
    (hnames : ∀ c ∈ names, Path.IsName c) (part : List Char) :
    Path.normalize (TypedPath.searchDir ⟨Path.directoryPart names, part⟩ base) = placeOf base names := by
  have hroot := Path.head?_of_isAbsolute hbase
  rw [placeOf_eq hbase hnames, TypedPath.normalize_searchDir, TypedPath.placeChars]
  by_cases hnil : names = []
  · subst hnil
    have hpart : Path.directoryPart [] = [] := rfl
    rw [if_pos hpart, Path.normalChars_rooted hroot, List.append_nil]
  · have hpart : Path.directoryPart names = List.intercalate ['/'] names ++ ['/'] := by
      rw [Path.directoryPart, if_neg hnil]
      rfl
    rw [hpart, if_neg (by simp), Path.normalChars_joinChars_names_slash hroot hnames hnil]

/-- One more name leads one step down. -/
theorem toList_placeOf_concat (hbase : Path.isAbsolute base = true) (hnames : ∀ c ∈ front ++ [name], Path.IsName c) :
    (placeOf base (front ++ [name])).toList = Path.ofComponents (Path.rootSlashes base.toList)
      ((Path.normalComponents base.toList ++ front) ++ [name]) := by
  rw [placeOf_eq hbase hnames, String.toList_ofList, List.append_assoc]

/-- The place of a name lies in the place of the names before it. -/
theorem dirname_placeOf_concat (hbase : Path.isAbsolute base = true) (hnames : ∀ c ∈ front ++ [name], Path.IsName c) :
    Path.dirname (placeOf base (front ++ [name])) = placeOf base front := by
  have hfront : ∀ c ∈ front, Path.IsName c := fun c hc => hnames c (List.mem_append_left _ hc)
  have habove : ∀ c ∈ Path.normalComponents base.toList ++ front, Path.IsName c := by
    intro c hc
    rcases List.mem_append.1 hc with hc | hc
    · exact Path.isName_of_mem_normalComponents (Path.head?_of_isAbsolute hbase) hc
    · exact hfront c hc
  rw [Path.dirname, toList_placeOf_concat hbase hnames, Path.parentChars_ofComponents habove (hnames name (by simp)),
    placeOf_eq hbase hfront]

/-- The place of a name has this name. -/
theorem basename_placeOf_concat (hbase : Path.isAbsolute base = true) (hnames : ∀ c ∈ front ++ [name], Path.IsName c) :
    Path.basename (placeOf base (front ++ [name])) = String.ofList name := by
  rw [Path.basename, toList_placeOf_concat hbase hnames,
    Path.nameChars_ofComponents _ _ (hnames name (by simp)).noSlash]

theorem placeOf_concat_ne (hbase : Path.isAbsolute base = true) (hnames : ∀ c ∈ front ++ [name], Path.IsName c) :
    placeOf base (front ++ [name]) ≠ placeOf base front := by
  intro hsame
  have hlength := congrArg (fun p => p.toList.length) hsame
  have hpos := List.length_pos_iff.2 (hnames name (by simp)).ne_nil
  simp only [toList_placeOf_concat hbase hnames, placeOf_eq hbase fun c hc => hnames c (List.mem_append_left _ hc),
    String.toList_ofList, Path.ofComponents_concat, List.length_append] at hlength
  omega

variable {t : Tree}

/-- Where a path of names leads to something in a closed tree, the names before any of them lead to a directory. -/
theorem placeOf_mem_directories (ht : t.Closed) (hbase : Path.isAbsolute base = true)
    (hnames : ∀ c ∈ front ++ later, Path.IsName c) (hne : later ≠ [])
    (hthere : placeOf base (front ++ later) ∈ t.files ∨
      placeOf base (front ++ later) ∈ t.directories) :
    placeOf base front ∈ t.directories := by
  induction later using List.reverseRecOn with
  | nil => exact absurd rfl hne
  | append_singleton more name ih =>
    rw [← List.append_assoc] at hnames hthere
    have habove := ht.above _ hthere
    rw [dirname_placeOf_concat hbase hnames] at habove
    by_cases hnil : more = []
    · rwa [hnil, List.append_nil] at habove
    · exact ih (fun c hc => hnames c (List.mem_append_left _ hc)) hnil (.inr habove)

/-- There each name is an entry of the directory that the names before it lead to, and every one but the last that of a
directory. -/
theorem entryAt_placeOf (ht : t.Closed) (hbase : Path.isAbsolute base = true)
    (hnames : ∀ c ∈ front ++ name :: later, Path.IsName c)
    (hthere : t.holds (placeOf base (front ++ name :: later)) = true) :
    placeOf base front ∈ t.directories ∧ (later ≠ [] → placeOf base (front ++ [name]) ∈ t.directories) ∧
      t.EntryAt (placeOf base front) ⟨String.ofList name, decide (placeOf base (front ++ [name]) ∈ t.directories)⟩
        (placeOf base (front ++ [name])) := by
  rw [Tree.holds_iff] at hthere
  have hdirectory := placeOf_mem_directories ht hbase hnames (List.cons_ne_nil _ _) hthere
  rw [List.append_cons] at hnames hthere
  have hnext : later ≠ [] → placeOf base (front ++ [name]) ∈ t.directories :=
    fun hlater => placeOf_mem_directories ht hbase hnames hlater hthere
  have hnames' : ∀ c ∈ front ++ [name], Path.IsName c := fun c hc => hnames c (List.mem_append_left _ hc)
  refine ⟨hdirectory, hnext, dirname_placeOf_concat hbase hnames', basename_placeOf_concat hbase hnames', ?_⟩
  by_cases hisDirectory : placeOf base (front ++ [name]) ∈ t.directories
  · rw [if_pos (by simpa using hisDirectory)]
    exact ⟨hisDirectory, placeOf_concat_ne hbase hnames'⟩
  · rw [if_neg (by simpa using hisDirectory)]
    have hlater : later = [] := by
      by_contra hne
      exact hisDirectory (hnext hne)
    rw [hlater, List.append_nil] at hthere
    exact hthere.resolve_right hisDirectory

/-! ## Suggestions on the way -/

/-- A path of names that leads to something from an absolute base directory in a grown tree, along directories that may
be listed, and a memory of listings that is right. -/
structure LeadsOn (w : Workspace Tree) (base : String) (names : List (List Char)) : Prop where
  grown : w.fs.Grown
  current : w.listings.Current w.fs ∅
  absolute : Path.isAbsolute base = true
  pathNames : ∀ c ∈ names, IsPathName c
  isThere : (w.fs.pathExists (placeOf base names)).1 = true
  readable : ∀ k < names.length, placeOf base (names.take k) ∉ w.fs.unreadable

/-- What stands on a line on which a reference has just been opened. -/
def justOpened : List Char := ['{', '*', ' ']

/-- A suggestion of a request is accepted. -/
def Accepts (w : Workspace Tree) (n : Int) (documentDir : String) (override : Option String)
    (line line' : List Char) : Prop :=
  ∃ candidates, (w.completePath line n documentDir override .never).value = some candidates ∧
    ∃ c ∈ candidates, line' = c.accepted line

/-- Path characters behind an opener are the path that is typed. -/
theorem ofLine?_justOpened {typed : List Char} (h : ∀ c ∈ typed, isPathChar c = true) :
    OpenPath.ofLine? (justOpened ++ typed) = some typed := by
  have hopener : (⟨.star, none, [' ']⟩ : Opener).WellFormed := by
    refine ⟨by simp, by simp, ?_⟩
    intro c hc
    rw [List.mem_singleton.1 hc]
    decide
  exact OpenPath.ofLine?_eq_some_iff.2 ⟨_, hopener, h, [], rfl⟩

namespace LeadsOn

variable {w : Workspace Tree} {documentDir : String} {override : Option String}

theorem isName (h : w.LeadsOn base names) : ∀ c ∈ names, Path.IsName c :=
  fun c hc => (h.pathNames c hc).isName

/-- Where the names lead on to, something is. -/
theorem holds (h : w.LeadsOn base names) : w.fs.holds (placeOf base names) = true := by
  have hthere := h.isThere
  rwa [Tree.pathExists, placeOf, resolvePath, Path.normalize_normalize] at hthere

/-- Every name but the last leads to a directory. -/
theorem mem_directories (h : w.LeadsOn base (front ++ name :: later)) (hlater : later ≠ []) :
    placeOf base (front ++ [name]) ∈ w.fs.directories :=
  (entryAt_placeOf h.grown.closed h.absolute h.isName h.holds).2.1 hlater

/-- Where the names before it are typed and a beginning of it, a name is suggested. -/
theorem exists_candidate (h : w.LeadsOn base (front ++ name :: later))
    (hchosen : (w.selectBaseDir documentDir override).value = base) (hpart : part <+: name) (n : Int) :
    ∃ candidates,
      (w.completePath (justOpened ++ (Path.directoryPart front ++ part)) n documentDir override .never).value =
        some candidates ∧
      ∃ c ∈ candidates, c.isDirectory = decide (placeOf base (front ++ [name]) ∈ w.fs.directories) ∧
        c.accepted (justOpened ++ (Path.directoryPart front ++ part)) =
          justOpened ++ (Path.ofComponents 0 (front ++ [name]) ++ if c.isDirectory then ['/'] else []) := by
  have hname := h.pathNames name (by simp)
  have hchars : ∀ c ∈ Path.directoryPart front ++ part, isPathChar c = true := by
    intro c hc
    rcases List.mem_append.1 hc with hc | hc
    · exact Path.isPathChar_directoryPart (fun name hname => (h.pathNames name (by simp [hname])).chars) c hc
    · exact hname.chars c (hpart.subset hc)
  have hreadable := h.readable front.length (by simp)
  rw [List.take_left] at hreadable
  have hnoSlash : '/' ∉ part := fun hc => hname.isName.noSlash (hpart.subset hc)
  have htyped := TypedPath.ofChars_append (Path.isDirectoryPart_directoryPart front) hnoSlash
  refine ⟨_, completePath_value h.current (ofLine?_justOpened hchars), ?_⟩
  obtain ⟨hdirectory, -, hentry⟩ := entryAt_placeOf h.grown.closed h.absolute h.isName h.holds
  rw [htyped, hchosen]
  generalize decide (placeOf base (front ++ [name]) ∈ w.fs.directories) = isDirectory at hentry
  have hlisted : ⟨String.ofList name, isDirectory⟩ ∈ w.fs.entriesAt
      (TypedPath.searchDir ⟨Path.directoryPart front, part⟩ base) := by
    rw [Tree.mem_entriesAt, normalize_searchDir h.absolute fun c hc => h.isName c (by simp [hc])]
    exact ⟨hreadable, hdirectory, _, hentry⟩
  obtain ⟨c, hmem, hkind, hinsert⟩ :=
    Candidate.exists_of_entry n (justOpened ++ (Path.directoryPart front ++ part)).length
    (t := ⟨Path.directoryPart front, part⟩) hlisted (isPrefixOf_lowerCase hpart hname.chars)
  refine ⟨c, hmem, hkind, ?_⟩
  rw [← htyped] at hmem
  rw [Candidate.accepted_of_mem hmem, htyped, hinsert, hkind, Path.ofComponents_zero_concat,
    String.toList_ofList, List.append_assoc]

/-- Every beginning of the path is met by a suggestion that completes the name in which it ends. -/
theorem suggests (h : w.LeadsOn base names) (hchosen : (w.selectBaseDir documentDir override).value = base)
    (hne : names ≠ []) (n : Int) {typed : List Char} (htyped : typed <+: Path.ofComponents 0 names) :
    ∃ candidates, (w.completePath (justOpened ++ typed) n documentDir override .never).value = some candidates ∧
      ∃ c ∈ candidates,
      (c.isDirectory = true ↔ placeOf base (names.take (typed.count '/' + 1)) ∈ w.fs.directories) ∧
      (typed.count '/' + 1 < names.length → c.isDirectory = true) ∧
      c.accepted (justOpened ++ typed) =
        justOpened ++ (Path.ofComponents 0 (names.take (typed.count '/' + 1)) ++
          if c.isDirectory then ['/'] else []) := by
  obtain ⟨front, name, later, part, rfl, hpart, rfl⟩ := Path.exists_component_of_prefix hne htyped
  have hnone : part.count '/' = 0 :=
    List.count_eq_zero.2 fun hc => (h.isName name (by simp)).noSlash (hpart.subset hc)
  have hcount : (Path.directoryPart front ++ part).count '/' = front.length := by
    rw [List.count_append, Path.count_directoryPart fun c hc => h.isName c (by simp [hc]), hnone, Nat.add_zero]
  have htake : (front ++ name :: later).take (front.length + 1) = front ++ [name] := by
    rw [List.take_append, List.take_of_length_le (by omega), Nat.add_sub_cancel_left]
    rfl
  obtain ⟨candidates, hvalue, c, hc, hkind, haccepted⟩ := h.exists_candidate hchosen hpart n
  rw [hcount, htake]
  refine ⟨candidates, hvalue, c, hc, ?_, ?_, haccepted⟩
  · rw [hkind, decide_eq_true_iff]
  · intro hlength
    rw [hkind, decide_eq_true_iff]
    refine h.mem_directories ?_
    rintro rfl
    simp at hlength

/-- Accepting suggestions leads down the directories of the path, one after the other. -/
theorem reaches_directory (h : w.LeadsOn base (front ++ later))
    (hchosen : (w.selectBaseDir documentDir override).value = base) (hlater : later ≠ []) (n : Int) :
    Relation.ReflTransGen (w.Accepts n documentDir override) justOpened (justOpened ++ Path.directoryPart front) := by
  induction front using List.reverseRecOn generalizing later with
  | nil => exact .refl
  | append_singleton front name ih =>
    rw [← List.append_cons] at h
    obtain ⟨candidates, hvalue, c, hc, hkind, haccepted⟩ := h.exists_candidate hchosen List.nil_prefix n
    rw [decide_eq_true (h.mem_directories hlater)] at hkind
    rw [List.append_nil] at hvalue haccepted
    refine (ih h (List.cons_ne_nil _ _)).tail ⟨candidates, hvalue, c, hc, ?_⟩
    rw [haccepted, hkind, Path.directoryPart, if_neg (by simp)]
    rfl

/-- And from the last one to the path itself. -/
theorem reaches (h : w.LeadsOn base names) (hchosen : (w.selectBaseDir documentDir override).value = base)
    (hne : names ≠ []) (n : Int) :
    Relation.ReflTransGen (w.Accepts n documentDir override) justOpened
      (justOpened ++ (Path.ofComponents 0 names ++ if placeOf base names ∈ w.fs.directories then ['/'] else [])) := by
  rcases List.eq_nil_or_concat names with hnil | ⟨front, name, hlast⟩
  · exact absurd hnil hne
  · rw [List.concat_eq_append] at hlast
    subst hlast
    obtain ⟨candidates, hvalue, c, hc, hkind, haccepted⟩ := h.exists_candidate hchosen List.nil_prefix n
    rw [List.append_nil] at hvalue haccepted
    refine (h.reaches_directory hchosen (List.cons_ne_nil _ _) n).tail ⟨candidates, hvalue, c, hc, ?_⟩
    rw [haccepted, hkind]
    simp only [decide_eq_true_eq]

end LeadsOn

/-- Where a path of names leads to something, every beginning of it that is typed in a just opened reference is met by a
suggestion that completes the name in which it ends, with a slash behind it where that is a directory. So accepting one
suggestion after another leads from the opener to the whole path. -/
theorem suggestions_lead_to {w : Workspace Tree} {documentDir : String} {override : Option String}
    (h : w.LeadsOn base names)
    (hchosen : (w.selectBaseDir documentDir override).value = base) (hne : names ≠ []) (n : Int) :
    (∀ typed, typed <+: Path.ofComponents 0 names →
      ∃ candidates, (w.completePath (justOpened ++ typed) n documentDir override .never).value = some candidates ∧
        ∃ c ∈ candidates,
        (c.isDirectory = true ↔ placeOf base (names.take (typed.count '/' + 1)) ∈ w.fs.directories) ∧
        (typed.count '/' + 1 < names.length → c.isDirectory = true) ∧
        c.accepted (justOpened ++ typed) =
          justOpened ++ (Path.ofComponents 0 (names.take (typed.count '/' + 1)) ++
            if c.isDirectory then ['/'] else [])) ∧
    Relation.ReflTransGen (w.Accepts n documentDir override) justOpened
      (justOpened ++ (Path.ofComponents 0 names ++ if placeOf base names ∈ w.fs.directories then ['/'] else [])) :=
  ⟨fun _ htyped => h.suggests hchosen hne n htyped, h.reaches hchosen hne n⟩

/-- From the opener to a file two directories down, its base directory written in a roundabout way. -/
theorem suggestions_lead_to_nested :
    let w := Workspace.new (Tree.empty.addFile "/d/docs/a.md") {} {}
    w.LeadsOn "/d/docs/.." ["docs".toList, "a.md".toList] ∧
      Relation.ReflTransGen (w.Accepts 0 "/d" (some "/d/docs/..")) justOpened "\x7b* docs/a.md".toList := by
  intro w
  have hname : ∀ name ∈ ["docs".toList, "a.md".toList], IsPathName name := by
    intro name hname
    have hchars : Path.IsName name ∧ name.all isPathChar = true := by
      revert name
      decide
    exact ⟨hchars.1, List.all_eq_true.1 hchars.2⟩
  have hleads : w.LeadsOn "/d/docs/.." ["docs".toList, "a.md".toList] := by
    refine ⟨.mutate (m := .addFile "/d/docs/a.md") .empty (by cbv) trivial,
      Listings.current_empty _ _, by cbv, hname, by cbv, ?_⟩
    intro k _
    exact List.not_mem_nil
  refine ⟨hleads, ?_⟩
  have hchosen : (w.selectBaseDir "/d" (some "/d/docs/..")).value = "/d/docs/.." := rfl
  have hreached := (suggestions_lead_to hleads hchosen (by decide) 0).2
  have htext : justOpened ++ (Path.ofComponents 0 ["docs".toList, "a.md".toList] ++
      if placeOf "/d/docs/.." ["docs".toList, "a.md".toList] ∈ w.fs.directories then ['/'] else []) =
        "\x7b* docs/a.md".toList := by
    cbv
  rwa [htext] at hreached

/-- The root of two slashes is no such directory once it is taken out: what lies below it stays and has no directory to
be listed in. -/
theorem suggestions_lead_to_rootless :
    let t := (Tree.empty.addFile "//a").remove "//"
    let w := Workspace.new t {} {}
    w.listings.Current t ∅ ∧ t.unreadable = [] ∧ (w.selectBaseDir "//" (some "//")).value = "//" ∧
      Path.isAbsolute "//" = true ∧
      (t.pathExists (resolvePath "//" "a")).1 = true ∧
          (w.completePath justOpened 0 "//" (some "//") .never).value = some [] := by
  intro t w
  have hcurrent : w.listings.Current t ∅ := Listings.current_empty _ _
  have hopen : OpenPath.ofLine? justOpened = some [] := by cbv
  have hnone : t.entriesAt ((TypedPath.ofChars []).searchDir "//") = [] := by cbv
  refine ⟨hcurrent, by cbv, rfl, by cbv, by cbv, ?_⟩
  have hvalue : (w.completePath justOpened 0 "//" (some "//") .never).value =
      some (Candidate.ofEntries 0 justOpened.length (.ofChars [])
        (t.entriesAt ((TypedPath.ofChars []).searchDir "//"))) := completePath_value hcurrent hopen
  rw [hvalue, hnone]
  simp [Candidate.ofEntries, Candidate.matching]

end Workspace

end DocRefs
