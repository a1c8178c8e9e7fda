import DocRefs.Proofs.Path.Normal
import DocRefs.Proofs.Text.Runs

/-!
# Directories and names of normal paths

A path that is absolute and normal (`Clean`) is its root and a list of names. Its directory is the same list without the
last name (`parentChars_ofComponents`), its name the last one, and a name that is put behind any path stays its name
when the whole is normalised (`basename_normalize_join`).
-/

namespace DocRefs.Path

/-- An absolute path in normal form. -/
structure Clean (p : String) : Prop where
  absolute : isAbsolute p = true
  normal : normalize p = p

/-! ## The last name -/

/-- What is behind the last slash is the name. -/
theorem nameChars_append (before : List Char) {name : List Char} (h : '/' ∉ name) :
    nameChars (before ++ '/' :: name) = name := by
  have hname : ∀ c ∈ name.reverse, (c != '/') = true := by
    intro c hc
    have hne : c ≠ '/' := fun he => h (he ▸ List.mem_reverse.1 hc)
    simpa using hne
  rw [nameChars, List.reverse_append, List.reverse_cons, List.append_assoc, List.singleton_append,
    takeWhile_run hname (endsRun_cons (by simp)), List.reverse_reverse]

/-- A path without a slash is a name. -/
theorem nameChars_of_notMem {name : List Char} (h : '/' ∉ name) : nameChars name = name := by
  have hname : ∀ c ∈ name.reverse, (c != '/') = true := by
    intro c hc
    have hne : c ≠ '/' := fun he => h (he ▸ List.mem_reverse.1 hc)
    simpa using hne
  have hrun : name.reverse.takeWhile (· != '/') = name.reverse := by
    simpa using takeWhile_run hname endsRun_nil
  rw [nameChars, hrun, List.reverse_reverse]

/-- The text of components is that of all but the last, perhaps a slash, and the last. -/
theorem ofComponents_concat (slashes : Nat) (components : List (List Char)) (c : List Char) :
    ofComponents slashes (components ++ [c]) =
      ofComponents slashes components ++ ((if components = [] then [] else ['/']) ++ c) := by
  by_cases h : components = []
  · simp [ofComponents, h, List.intercalate]
  · simp [ofComponents, h, intercalate_append h (List.cons_ne_nil c [])]

/-- The name of a path is its last component. -/
theorem nameChars_ofComponents (slashes : Nat) (components : List (List Char)) {c : List Char} (h : '/' ∉ c) :
    nameChars (ofComponents slashes (components ++ [c])) = c := by
  rw [ofComponents_concat]
  by_cases hnil : components = []
  · subst hnil
    cases slashes with
    | zero => simpa [ofComponents, List.intercalate] using nameChars_of_notMem h
    | succ slashes =>
      have happ := nameChars_append (List.replicate slashes '/') h
      simpa [ofComponents, List.intercalate, List.replicate_succ'] using happ
  · have happ := nameChars_append (ofComponents slashes components) h
    simpa [hnil] using happ

/-- The last component of a path that ends in a name is that name. -/
theorem normalComponents_joinChars (base : List Char) {name : List Char} (h : IsName name) :
    ∃ components, normalComponents (joinChars base name) = components ++ [name] := by
  have hhead : name.head? ≠ some '/' := fun hh => h.noSlash (List.mem_of_mem_head? hh)
  have hfields : ∃ components, fields '/' (joinChars base name) = components ++ [name] := by
    unfold joinChars
    rw [if_neg hhead]
    split
    · rename_i hbase
      simp only [Bool.or_eq_true, decide_eq_true_eq] at hbase
      rcases hbase with rfl | hlast
      · exact ⟨[], by simp [fields_of_notMem h.noSlash]⟩
      · obtain ⟨front, rfl⟩ := List.getLast?_eq_some_iff.1 hlast
        refine ⟨fields '/' front, ?_⟩
        rw [List.append_assoc, List.singleton_append, fields_append_cons, fields_of_notMem h.noSlash]
    · exact ⟨fields '/' base, by rw [fields_append_cons, fields_of_notMem h.noSlash]⟩
  obtain ⟨components, hfields⟩ := hfields
  refine ⟨(components.foldl (pushComponent (rootSlashes (joinChars base name) != 0)) []).reverse, ?_⟩
  rw [normalComponents, hfields, List.foldl_append, List.foldl_cons, List.foldl_nil,
    pushComponent_name h, List.reverse_cons]

/-- A name that is put behind a path is its name. -/
theorem nameChars_joinChars (base : List Char) {name : List Char} (h : IsName name) :
    nameChars (joinChars base name) = name := by
  have hhead : name.head? ≠ some '/' := fun hh => h.noSlash (List.mem_of_mem_head? hh)
  unfold joinChars
  rw [if_neg hhead]
  split
  · rename_i hbase
    simp only [Bool.or_eq_true, decide_eq_true_eq] at hbase
    rcases hbase with rfl | hlast
    · exact nameChars_of_notMem h.noSlash
    · obtain ⟨front, rfl⟩ := List.getLast?_eq_some_iff.1 hlast
      rw [List.append_assoc, List.singleton_append]
      exact nameChars_append front h.noSlash
  · exact nameChars_append base h.noSlash

/-- A name that is put behind a path stays its name when the whole is normalised. -/
theorem basename_normalize_join (base : String) {name : String} (h : IsName name.toList) :
    basename (normalize (join base name)) = name := by
  obtain ⟨components, hcomponents⟩ := normalComponents_joinChars base.toList h
  have hnormal : normalChars (joinChars base.toList name.toList) =
      ofComponents (rootSlashes (joinChars base.toList name.toList)) (components ++ [name.toList]) := by
    unfold normalChars
    rw [hcomponents]
    split
    · rename_i hnil
      have hlength := congrArg List.length hnil
      rw [ofComponents_concat] at hlength
      have hpos := List.length_pos_iff.2 h.ne_nil
      simp only [List.length_append, List.length_nil] at hlength
      omega
    · rfl
  rw [basename, normalize, join, String.toList_ofList, String.toList_ofList, hnormal,
    nameChars_ofComponents _ _ h.noSlash, String.ofList_toList]

/-! ## Clean paths -/

/-- A path that is taken from a base with a slash at its head has one there too. -/
theorem head?_joinChars {base : List Char} (h : base.head? = some '/') (p : List Char) :
    (joinChars base p).head? = some '/' := by
  unfold joinChars
  split
  · assumption
  · split <;> simp [List.head?_append, h]

/-- The components of an absolute path are names. -/
theorem isName_of_mem_normalComponents {p : List Char} (h : p.head? = some '/') {c : List Char}
    (hc : c ∈ normalComponents p) : IsName c := by
  have hroot : rootSlashes p ≠ 0 := fun h0 => (rootSlashes_eq_zero_iff p).1 h0 h
  obtain ⟨names, climbs, hdone, hnames, hrooted⟩ := settled_normalComponents p
  have hzero : climbs = 0 := hrooted (by simpa using hroot)
  rw [hzero, List.replicate_zero, List.append_nil] at hdone
  exact hnames c (hdone ▸ List.mem_reverse.2 hc)

/-- The normal form of an absolute path is its root and its components. -/
theorem normalChars_rooted {p : List Char} (h : p.head? = some '/') :
    normalChars p = ofComponents (rootSlashes p) (normalComponents p) := by
  have hroot : rootSlashes p ≠ 0 := fun h0 => (rootSlashes_eq_zero_iff p).1 h0 h
  obtain ⟨k, hk⟩ := Nat.exists_eq_succ_of_ne_zero hroot
  rw [normalChars]
  split
  · rename_i hnil
    rw [hk, ofComponents, List.replicate_succ] at hnil
    simp at hnil
  · rfl

/-- An absolute path begins with a slash. -/
theorem head?_of_isAbsolute {p : String} (h : isAbsolute p = true) : p.toList.head? = some '/' := by
  simpa [isAbsolute] using h

/-- A path that is taken from an absolute base is absolute. -/
theorem isAbsolute_join {base : String} (h : isAbsolute base = true) (p : String) :
    isAbsolute (join base p) = true := by
  rw [isAbsolute, join, String.toList_ofList, head?_joinChars (head?_of_isAbsolute h)]
  rfl

/-- A path that begins with a slash has one or two of them as its root. -/
theorem rootSlashes_rooted {p : List Char} (h : p.head? = some '/') : rootSlashes p = 1 ∨ rootSlashes p = 2 := by
  have hroot : rootSlashes p ≠ 0 := fun h0 => (rootSlashes_eq_zero_iff p).1 h0 h
  have hle := rootSlashes_le p
  omega

/-- A clean path is a root of one or two slashes and names. -/
theorem clean_iff (p : String) :
    Clean p ↔ ∃ slashes names, (slashes = 1 ∨ slashes = 2) ∧ (∀ c ∈ names, IsName c) ∧
    p.toList = ofComponents slashes names := by
  constructor
  · rintro ⟨habs, hnormal⟩
    have hhead := head?_of_isAbsolute habs
    have hchars : normalChars p.toList = p.toList := by
      have := congrArg String.toList hnormal
      simpa [normalize] using this
    exact ⟨rootSlashes p.toList, normalComponents p.toList, rootSlashes_rooted hhead,
      fun c hc => isName_of_mem_normalComponents hhead hc, hchars.symm.trans (normalChars_rooted hhead)⟩
  · rintro ⟨slashes, names, hslashes, hnames, hp⟩
    have hne : ofComponents slashes names ≠ [] := by
      rcases hslashes with rfl | rfl <;> simp [ofComponents, List.replicate_succ]
    have hsettled := settled_names (slashes != 0) hnames
    refine ⟨?_, ?_⟩
    · rcases hslashes with rfl | rfl <;> simp [isAbsolute, hp, ofComponents, List.replicate_succ]
    · rw [normalize, hp, normalChars_ofComponents (by omega) hsettled hne, ← hp, String.ofList_toList]

/-- The directory of a path of names is the same path without the last one. -/
theorem parentChars_ofComponents {slashes : Nat} {names : List (List Char)}
    (hnames : ∀ c ∈ names, IsName c) {c : List Char}
    (hc : IsName c) : parentChars (ofComponents slashes (names ++ [c])) = ofComponents slashes names := by
  have hhead : (ofComponents slashes (names ++ [c])).take
      ((ofComponents slashes (names ++ [c])).length - (nameChars (ofComponents slashes (names ++ [c]))).length) =
        ofComponents slashes names ++ (if names = [] then [] else ['/']) := by
    rw [nameChars_ofComponents _ _ hc.noSlash, ofComponents_concat, ← List.append_assoc, List.length_append,
      Nat.add_sub_cancel, List.take_left]
  rw [parentChars, hhead]
  cases hlast : names.getLast? with
  | none =>
    rw [List.getLast?_eq_none_iff] at hlast
    subst hlast
    simp [ofComponents, List.intercalate]
  | some d =>
    obtain ⟨front, rfl⟩ := List.getLast?_eq_some_iff.1 hlast
    have hd : IsName d := hnames d (by simp)
    obtain ⟨e, x, rfl⟩ : ∃ e x, d = e ++ [x] := by
      rcases List.eq_nil_or_concat d with hnil | ⟨e, x, h⟩
      · exact absurd hnil hd.ne_nil
      · exact ⟨e, x, by simpa using h⟩
    have hx : x ≠ '/' := fun hx => hd.noSlash (by simp [hx])
    simp only [List.append_eq_nil_iff, List.cons_ne_nil, and_false, ↓reduceIte, ofComponents_concat]
    simp [hx]

/-- The directory of a clean path is clean. -/
theorem Clean.dirname {p : String} (h : Clean p) : Clean (dirname p) := by
  obtain ⟨slashes, names, hslashes, hnames, hp⟩ := (clean_iff p).1 h
  refine (clean_iff _).2 ?_
  rcases List.eq_nil_or_concat names with rfl | ⟨front, c, hlast⟩
  · refine ⟨slashes, [], hslashes, by simp, ?_⟩
    rw [Path.dirname, String.toList_ofList, hp]
    rcases hslashes with rfl | rfl <;> rfl
  · rw [List.concat_eq_append] at hlast
    subst hlast
    have hfront : ∀ d ∈ front, IsName d := fun d hd => hnames d (by simp [hd])
    exact ⟨slashes, front, hslashes, hfront, by
      rw [Path.dirname, String.toList_ofList, hp, parentChars_ofComponents hfront (hnames c (by simp))]⟩

/-- Everything above a clean path is clean. -/
theorem Clean.of_mem_ancestors {p q : String} (h : Clean p) (hq : q ∈ ancestors p) : Clean q := by
  fun_induction ancestors p with
  | case1 p hroot =>
    rw [List.mem_singleton] at hq
    exact hq ▸ h
  | case2 p hroot hlt ih =>
    rcases List.mem_cons.1 hq with rfl | hq
    · exact h
    · exact ih h.dirname hq

/-- Only what begins with a slash has a normal form that does. -/
theorem head?_of_normalChars {p : List Char} (h : (normalChars p).head? = some '/') : p.head? = some '/' := by
  refine Classical.byContradiction fun hrelative => ?_
  have hroot := (rootSlashes_eq_zero_iff p).2 hrelative
  have hcomponents : ∀ c ∈ normalComponents p, c ≠ [] ∧ '/' ∉ c :=
    fun c hc => (settled_normalComponents p).component c (List.mem_reverse.2 hc)
  rw [normalChars, hroot] at h
  split at h
  · simp at h
  · exact head?_intercalate hcomponents h

/-- The nearest of a path and the directories above it is the path. -/
theorem exists_ancestors_eq_cons (p : String) : ∃ above, ancestors p = p :: above := by
  rw [ancestors]
  split
  · exact ⟨[], rfl⟩
  · exact ⟨_, rfl⟩

theorem self_mem_ancestors (p : String) : p ∈ ancestors p := by
  obtain ⟨above, habove⟩ := exists_ancestors_eq_cons p
  rw [habove]
  exact List.mem_cons_self

/-- A path above another one is a front part of it. -/
theorem prefix_of_mem_ancestors {p q : String} (hq : q ∈ ancestors p) : q.toList <+: p.toList := by
  fun_induction ancestors p with
  | case1 p hroot =>
    exact List.mem_singleton.1 hq ▸ List.prefix_rfl
  | case2 p hroot hlt ih =>
    rcases List.mem_cons.1 hq with rfl | hq
    · exact List.prefix_rfl
    · refine (ih hq).trans ?_
      rw [dirname, String.toList_ofList]
      exact parentChars_prefix p.toList

/-- What a path lies in is shorter than the path. -/
theorem length_dirname_lt {p : String} (h : dirname p ≠ p) : (dirname p).toList.length < p.toList.length := by
  have hparent : (dirname p).toList <+: p.toList := by
    rw [dirname, String.toList_ofList]
    exact parentChars_prefix p.toList
  refine Nat.lt_of_le_of_ne hparent.length_le fun hlength => h ?_
  exact String.toList_injective (hparent.eq_of_length hlength)

/-- Where a directory above it is absolute, a path is. -/
theorem isAbsolute_of_mem_ancestors {p q : String} (hq : q ∈ ancestors p) (h : isAbsolute q = true) :
    isAbsolute p = true := by
  obtain ⟨rest, hrest⟩ := prefix_of_mem_ancestors hq
  rw [isAbsolute, decide_eq_true_eq, ← hrest, List.head?_append, head?_of_isAbsolute h, Option.some_or]

/-- The normal form of an absolute path is clean. -/
theorem clean_normalize {p : String} (h : isAbsolute p = true) : Clean (normalize p) := by
  have hhead := head?_of_isAbsolute h
  refine (clean_iff _).2 ⟨rootSlashes p.toList, normalComponents p.toList, rootSlashes_rooted hhead,
    fun c hc => isName_of_mem_normalComponents hhead hc, ?_⟩
  rw [normalize, String.toList_ofList, normalChars_rooted hhead]

/-- The absolute form of a path is the normal form of the path taken from the working directory. -/
theorem toList_absolute (cwd p : String) : (absolute cwd p).toList = normalChars (joinChars cwd.toList p.toList) := by
  rw [absolute, normalize, String.toList_ofList]
  split
  · rename_i hroot
    rw [joinChars, if_pos (head?_of_isAbsolute hroot)]
  · rw [join, String.toList_ofList]

/-- From a clean working directory the absolute form of a path is clean. -/
theorem clean_absolute {cwd : String} (h : Clean cwd) (p : String) : Clean (absolute cwd p) := by
  refine clean_normalize ?_
  split
  · assumption
  · exact isAbsolute_join h.absolute p

/-- A clean path is its own absolute form. -/
theorem Clean.absolute_eq {p : String} (h : Clean p) (cwd : String) : Path.absolute cwd p = p := by
  rw [Path.absolute, if_pos h.absolute, h.normal]

end DocRefs.Path
