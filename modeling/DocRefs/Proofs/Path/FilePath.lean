import DocRefs.Path.FilePath
import DocRefs.Proofs.Path.Joining

/-!
# Paths as components and as text

A path that is read from a text is well-formed (`FilePath.wellFormed_ofString`), and put behind a clean directory its
text is that of the directory's components with its own behind them (`FilePath.WellFormed.joinChars_toString`). If its
components are names it needs no more normalising there (`FilePath.Plain.absolute_eq_join`).
-/

namespace DocRefs

namespace Path

/-- A path with a component does not end in a slash. -/
theorem getLast?_ofComponents {slashes : Nat} {components : List (List Char)} (h : ∀ c ∈ components, c ≠ [] ∧ '/' ∉ c)
    (hne : components ≠ []) : (ofComponents slashes components).getLast? ≠ some '/' := by
  rcases List.eq_nil_or_concat components with hnil | ⟨front, c, hlast⟩
  · exact absurd hnil hne
  · rw [List.concat_eq_append] at hlast
    subst hlast
    obtain ⟨hfilled, hnoSlash⟩ := h c (by simp)
    obtain ⟨x, hx⟩ : ∃ x, c.getLast? = some x :=
      Option.ne_none_iff_exists'.1 fun hn => hfilled (List.getLast?_eq_none_iff.1 hn)
    have hslash : x ≠ '/' := fun he => hnoSlash (he ▸ List.mem_of_getLast? hx)
    rw [ofComponents_concat, List.getLast?_append, List.getLast?_append, hx]
    simpa using hslash

/-- A relative path behind a rooted one is one path of the components of both. -/
theorem joinChars_ofComponents {slashes : Nat} {components more : List (List Char)} (hslashes : slashes ≠ 0)
    (hcomponents : ∀ c ∈ components, c ≠ [] ∧ '/' ∉ c) (hmore : ∀ c ∈ more, c ≠ [] ∧ '/' ∉ c) (hne : more ≠ []) :
    joinChars (ofComponents slashes components) (ofComponents 0 more) = ofComponents slashes (components ++ more) := by
  have hhead : (ofComponents 0 more).head? ≠ some '/' := by
    rw [ofComponents, List.replicate_zero, List.nil_append]
    exact head?_intercalate hmore
  obtain ⟨k, rfl⟩ := Nat.exists_eq_succ_of_ne_zero hslashes
  rw [joinChars, if_neg hhead]
  by_cases hnil : components = []
  · subst hnil
    rw [if_pos (by simp [ofComponents, List.replicate_succ'])]
    simp [ofComponents]
  · have hlast : (ofComponents (k + 1) components).getLast? ≠ some '/' := getLast?_ofComponents hcomponents hnil
    have hfilled : ofComponents (k + 1) components ≠ [] := by simp [ofComponents, List.replicate_succ]
    rw [if_neg (by simp [hlast, hfilled]), ofComponents, ofComponents, ofComponents, intercalate_append hnil hne]
    simp

/-- A name is taken from a rooted path of names by putting it behind these. -/
theorem joinChars_ofComponents_name {slashes : Nat} {names : List (List Char)} {name : List Char}
    (hslashes : slashes ≠ 0) (hnames : ∀ c ∈ names, IsName c) (hname : IsName name) :
    joinChars (ofComponents slashes names) name = ofComponents slashes (names ++ [name]) := by
  have hmore : ∀ c ∈ [name], c ≠ [] ∧ '/' ∉ c := List.forall_mem_singleton.2 ⟨hname.ne_nil, hname.noSlash⟩
  have htext : ofComponents 0 [name] = name := by
    rw [ofComponents, List.replicate_zero, List.nil_append, List.intercalate_singleton]
  have hjoined := joinChars_ofComponents hslashes (fun c hc => ⟨(hnames c hc).ne_nil, (hnames c hc).noSlash⟩) hmore
    (List.cons_ne_nil name [])
  rwa [htext] at hjoined

/-- A name below a clean path makes a clean path. -/
theorem Clean.join {p name : String} (h : Clean p) (hname : IsName name.toList) : Clean (Path.join p name) := by
  obtain ⟨slashes, names, hslashes, hnames, hp⟩ := (clean_iff p).1 h
  refine (clean_iff _).2 ⟨slashes, names ++ [name.toList], hslashes, ?_, ?_⟩
  · intro c hc
    rcases List.mem_append.1 hc with hc | hc
    · exact hnames c hc
    · rw [List.mem_singleton.1 hc]
      exact hname
  · rw [Path.join, String.toList_ofList, hp, joinChars_ofComponents_name (by omega) hnames hname]

/-! ## What lies right in a directory -/

/-- A path is a directory with one name behind it. -/
def IsChild (directory p : String) : Prop :=
  ∃ name : String, IsName name.toList ∧ p = Path.join directory name

/-- The name can only be the last component of the path. -/
theorem isChild_iff (directory p : String) :
    IsChild directory p ↔ IsName (basename p).toList ∧ p = Path.join directory (basename p) := by
  constructor
  · rintro ⟨name, hname, rfl⟩
    have hbasename : basename (Path.join directory name) = name := by
      rw [basename, Path.join, String.toList_ofList, nameChars_joinChars _ hname, String.ofList_toList]
    rw [hbasename]
    exact ⟨hname, rfl⟩
  · rintro ⟨hname, hp⟩
    exact ⟨_, hname, hp⟩

instance (directory p : String) : Decidable (IsChild directory p) :=
  decidable_of_iff _ (isChild_iff directory p).symm

/-- What a name leads to from a clean directory lies in that directory. -/
theorem Clean.dirname_join {directory name : String} (h : Clean directory) (hname : IsName name.toList) :
    Path.dirname (Path.join directory name) = directory := by
  obtain ⟨slashes, names, hslashes, hnames, hchars⟩ := (clean_iff directory).1 h
  refine String.toList_injective ?_
  rw [Path.dirname, Path.join, String.toList_ofList, String.toList_ofList, hchars,
    joinChars_ofComponents_name (by omega) hnames hname, parentChars_ofComponents hnames hname]

/-- The directory above a child is the one that it is a child of. -/
theorem IsChild.dirname_eq {directory p : String} (h : IsChild directory p) (hdirectory : Clean directory) :
    Path.dirname p = directory := by
  obtain ⟨name, hname, rfl⟩ := h
  exact hdirectory.dirname_join hname

/-- A child of a clean directory is clean. -/
theorem IsChild.clean {directory p : String} (h : IsChild directory p) (hdirectory : Clean directory) : Clean p := by
  obtain ⟨name, hname, rfl⟩ := h
  exact hdirectory.join hname

/-- Nothing is right in itself. -/
theorem IsChild.ne {directory p : String} (h : IsChild directory p) (hdirectory : Clean directory) : p ≠ directory := by
  rintro rfl
  obtain ⟨hname, -⟩ := (isChild_iff p p).1 h
  rcases hdirectory.root_of_dirname_eq (h.dirname_eq hdirectory) with rfl | rfl
  · exact hname.ne_nil (by cbv)
  · exact hname.ne_nil (by cbv)

/-- A clean path is a root, which has no name, or it is right in its directory. -/
theorem Clean.root_or_isChild {p : String} (h : Clean p) :
    (Path.dirname p = p ∧ Path.basename p = "") ∨ IsChild (Path.dirname p) p := by
  rcases h.root_or_name with ⟨-, hself, hempty⟩ |
    ⟨slashes, names, name, hslashes, hnames, hname, hchars, hparent, hbasename⟩
  · exact .inl ⟨hself, hempty⟩
  · refine .inr ((isChild_iff _ _).2 ⟨hbasename ▸ hname, String.toList_injective ?_⟩)
    rw [Path.join, String.toList_ofList, hparent, hbasename,
      joinChars_ofComponents_name (by omega) hnames hname, hchars]

/-- A clean path and the directory it lies in by its text are the clean paths that it is or that it is right in. -/
theorem eq_or_isChild_iff {directory p : String} (hdirectory : Clean directory) (hp : Clean p) :
    p = directory ∨ IsChild directory p ↔ directory = p ∨ directory = dirname p := by
  constructor
  · rintro (rfl | hchild)
    · exact .inl rfl
    · exact .inr (hchild.dirname_eq hdirectory).symm
  · rintro (rfl | rfl)
    · exact .inl rfl
    · rcases hp.root_or_isChild with ⟨hself, -⟩ | hchild
      · exact .inl hself.symm
      · exact .inr hchild

end Path

namespace FilePath

/-- A path whose root is one that a path can have, and whose components are neither empty nor hold a slash. -/
structure WellFormed (p : FilePath) : Prop where
  slashes : p.slashes ≤ 2
  parts : ∀ c ∈ p.parts, c.toList ≠ [] ∧ '/' ∉ c.toList

/-- What is read from a text is well-formed. -/
theorem wellFormed_ofString (s : String) : (ofString s).WellFormed := by
  refine ⟨Path.rootSlashes_le _, ?_⟩
  intro c hc
  obtain ⟨f, hf, rfl⟩ := List.mem_map.1 hc
  obtain ⟨hfield, hkept⟩ := List.mem_filter.1 hf
  simp only [ne_eq, decide_not, Bool.and_eq_true, Bool.not_eq_true', decide_eq_false_iff_not] at hkept
  rw [String.toList_ofList]
  exact ⟨hkept.1, notMem_of_mem_fields hfield⟩

variable {p : FilePath}

/-- The components are neither empty nor hold a slash as lists of characters. -/
theorem WellFormed.mem_map (h : p.WellFormed) : ∀ c ∈ p.parts.map String.toList, c ≠ [] ∧ '/' ∉ c := by
  intro c hc
  obtain ⟨d, hd, rfl⟩ := List.mem_map.1 hc
  exact h.parts d hd

/-- A path with a component is shown as it is. -/
theorem WellFormed.toList_toString (h : p.WellFormed) (hne : p.parts ≠ []) :
    p.toString.toList = Path.ofComponents p.slashes (p.parts.map String.toList) := by
  obtain ⟨slashes, parts⟩ := p
  obtain ⟨c, parts, rfl⟩ := List.exists_cons_of_ne_nil hne
  have hc := (h.parts c List.mem_cons_self).1
  have hfilled : String.ofList (Path.ofComponents slashes ((c :: parts).map String.toList)) ≠ "" := by
    obtain ⟨x, c', hx⟩ := List.exists_cons_of_ne_nil hc
    intro he
    have hchars := congrArg String.toList he
    rw [String.toList_ofList, List.map_cons, hx, Path.ofComponents, List.intercalate_cons_cons_left] at hchars
    simp at hchars
  unfold toString
  split
  · rename_i he
    exact absurd he hfilled
  · rw [String.toList_ofList]

theorem toString_ne_empty (p : FilePath) : p.toString ≠ "" := by
  unfold toString
  split
  · decide
  · assumption

/-- Components that are no dots are read back from their text. -/
theorem ofString_ofComponents {slashes : Nat} (hslashes : slashes ≤ 2) {components : List (List Char)}
    (h : ∀ c ∈ components, c ≠ [] ∧ '/' ∉ c) (hdot : ∀ c ∈ components, c ≠ ['.']) :
    ofString (String.ofList (Path.ofComponents slashes components)) = ⟨slashes, components.map String.ofList⟩ := by
  have hroot : Path.rootSlashes (Path.ofComponents slashes components) = slashes :=
    Path.rootSlashes_replicate_append hslashes (Path.head?_intercalate h)
  have hkept : components.filter (fun f => f ≠ [] && f ≠ ['.']) = components := by
    refine List.filter_eq_self.2 fun c hc => ?_
    simp [(h c hc).1, hdot c hc]
  rw [ofString, String.toList_ofList, hroot,
    Path.fields_ofComponents slashes fun c hc => (h c hc).2, List.filter_append,
    List.filter_eq_nil_iff.2 (by simp +contextual [List.mem_replicate]), List.nil_append]
  split
  · rename_i hnil
    rw [hnil]
    rfl
  · rw [hkept]

/-- A path is read back from what it is shown as. -/
theorem ofString_toString (s : String) : ofString (ofString s).toString = ofString s := by
  have hdot : ∀ c ∈ (ofString s).parts.map String.toList, c ≠ ['.'] := by
    intro c hc
    obtain ⟨d, hd, rfl⟩ := List.mem_map.1 hc
    obtain ⟨f, hf, rfl⟩ := List.mem_map.1 hd
    rw [String.toList_ofList]
    have hkept := (List.mem_filter.1 hf).2
    simp only [ne_eq, decide_not, Bool.and_eq_true, Bool.not_eq_true', decide_eq_false_iff_not] at hkept
    exact hkept.2
  have hread := ofString_ofComponents (wellFormed_ofString s).slashes (wellFormed_ofString s).mem_map hdot
  have hparts : ((ofString s).parts.map String.toList).map String.ofList = (ofString s).parts := by
    simp [Function.comp_def]
  rw [hparts] at hread
  unfold toString
  split
  · -- The path has neither root nor components.
    rename_i hempty
    rw [hempty] at hread
    exact hread
  · exact hread

/-- A clean path is read as its root and its names. -/
theorem ofString_of_clean {s : String} (h : Path.Clean s) :
    s.toList = Path.ofComponents (ofString s).slashes ((ofString s).parts.map String.toList) ∧
      ((ofString s).slashes = 1 ∨ (ofString s).slashes = 2) ∧ ∀ c ∈ (ofString s).parts, Path.IsName c.toList := by
  obtain ⟨slashes, names, hslashes, hnames, hs⟩ := (Path.clean_iff s).1 h
  have hread : ofString s = ⟨slashes, names.map String.ofList⟩ := by
    rw [← String.ofList_toList (s := s), hs]
    exact ofString_ofComponents (by omega) (fun c hc => ⟨(hnames c hc).ne_nil, (hnames c hc).noSlash⟩)
      fun c hc => (hnames c hc).ne_dot
  rw [hread]
  refine ⟨?_, hslashes, ?_⟩
  · have hread : (names.map String.ofList).map String.toList = names := by simp [Function.comp_def]
    rw [hread]
    exact hs
  · intro c hc
    obtain ⟨d, hd, rfl⟩ := List.mem_map.1 hc
    rw [String.toList_ofList]
    exact hnames d hd

/-- A path put behind a clean directory is absolute. -/
theorem slashes_append_ne_zero {cwd : String} (hcwd : Path.Clean cwd) (p : FilePath) :
    ((ofString cwd).append p).slashes ≠ 0 := by
  obtain ⟨-, hslashes, -⟩ := ofString_of_clean hcwd
  unfold append isAbsolute
  split
  · rename_i hroot
    simpa using hroot
  · change (ofString cwd).slashes ≠ 0
    omega

/-- Put behind a clean directory a path has the components of the directory and behind them its own. -/
theorem WellFormed.joinChars_toString (h : p.WellFormed) (hne : p.parts ≠ []) {cwd : String} (hcwd : Path.Clean cwd) :
    Path.joinChars cwd.toList p.toString.toList =
      Path.ofComponents ((ofString cwd).append p).slashes (((ofString cwd).append p).parts.map String.toList) := by
  obtain ⟨htext, hslashes, -⟩ := ofString_of_clean hcwd
  rw [h.toList_toString hne]
  by_cases hroot : p.slashes = 0
  · have happend : (ofString cwd).append p = ⟨(ofString cwd).slashes, (ofString cwd).parts ++ p.parts⟩ := by
      simp [append, isAbsolute, hroot]
    have hrooted : (ofString cwd).slashes ≠ 0 := by omega
    have hjoined := Path.joinChars_ofComponents hrooted (wellFormed_ofString cwd).mem_map h.mem_map (by simpa using hne)
    rw [← htext] at hjoined
    rw [happend, hroot, List.map_append]
    exact hjoined
  · have happend : (ofString cwd).append p = p := by simp [append, isAbsolute, hroot]
    obtain ⟨k, hk⟩ := Nat.exists_eq_succ_of_ne_zero hroot
    rw [happend, Path.joinChars, if_pos (by simp [Path.ofComponents, hk, List.replicate_succ])]

/-- Components behind a path stand behind it wherever it is taken from. -/
theorem parts_append_append (base p : FilePath) (names : List String) :
    (base.append (p.append ⟨0, names⟩)).parts = (base.append p).parts ++ names := by
  obtain ⟨slashes, parts⟩ := p
  by_cases hroot : slashes = 0 <;> simp [append, isAbsolute, hroot]

/-- A path put behind a well-formed one is well-formed. -/
theorem WellFormed.append (h : p.WellFormed) {base : FilePath} (hbase : base.WellFormed) :
    (base.append p).WellFormed := by
  unfold FilePath.append
  split
  · exact h
  · refine ⟨hbase.slashes, ?_⟩
    intro c hc
    rcases List.mem_append.1 hc with hc | hc
    · exact hbase.parts c hc
    · exact h.parts c hc

/-! ## Homes -/

/-- A home that is itself written with a tilde names no directory. -/
theorem homeDirectory_eq_error_iff {home : String} {e : NoHome} :
    homeDirectory home = .error e ↔ e = .unknown ∧ home.toList.head? = some '~' := by
  obtain ⟨stripped, hstripped⟩ : (home.toList.reverse.dropWhile (· == '/')).reverse <+: home.toList := by
    simpa using List.reverse_prefix.2 (List.dropWhile_suffix (l := home.toList.reverse) (· == '/'))
  -- Only slashes are dropped, so that a tilde in front stays.
  have hkept : home.toList.head? = some '~' → (home.toList.reverse.dropWhile (· == '/')).reverse ≠ [] := by
    intro hhead hnil
    have htaken := List.takeWhile_append_dropWhile (p := (· == '/')) (l := home.toList.reverse)
    rw [List.reverse_eq_nil_iff.1 hnil, List.append_nil] at htaken
    have htilde : '~' ∈ home.toList.reverse := List.mem_reverse.2 (List.mem_of_head? hhead)
    rw [← htaken] at htilde
    exact absurd (List.all_eq_true.1 List.all_takeWhile '~' htilde) (by decide)
  unfold homeDirectory
  generalize (home.toList.reverse.dropWhile (· == '/')).reverse = written at hstripped hkept
  match written with
  | [] => exact ⟨fun h => (nomatch h), fun h => absurd rfl (hkept h.2)⟩
  | c :: rest =>
    rw [← hstripped, List.cons_append, List.head?_cons]
    by_cases htilde : c = '~'
    · subst htilde
      simp [eq_comm]
    · simp [htilde]

/-- A path that begins with a tilde and a name for which there is no home to put: the name holds a null character, or no
home is known for it, or only one that is itself written with a tilde. -/
inductive Homeless (homeOf? : String → Option String) : FilePath → NoHome → Prop
  | unknown {name : String} {rest : List String} (hname : '\x00' ∉ name.toList)
    (hhome : ∀ home, homeOf? name = some home → home.toList.head? = some '~') :
    Homeless homeOf? ⟨0, ("~" ++ name) :: rest⟩ .unknown
  | nullName {name : String} {rest : List String} (hname : '\x00' ∈ name.toList) :
    Homeless homeOf? ⟨0, ("~" ++ name) :: rest⟩ .nullName

/-- A path begins with a tilde, or it stays as it is. -/
theorem expandHome_cases (homeOf? : String → Option String) (p : FilePath) :
    (∃ name rest, p = ⟨0, ("~" ++ name) :: rest⟩) ∨ p.expandHome homeOf? = .ok p := by
  unfold expandHome
  split
  · rename_i first rest
    split
    · rename_i name hfirst
      refine .inl ⟨String.ofList name, rest, ?_⟩
      rw [← String.ofList_toList (s := first), hfirst, String.ofList_cons]
      rfl
    · exact .inr rfl
  · exact .inr rfl

/-- For a leading tilde the home is put that is known for the name behind it. -/
theorem expandHome_tilde (homeOf? : String → Option String) (name : String) (rest : List String) :
    expandHome homeOf? ⟨0, ("~" ++ name) :: rest⟩ =
      if '\x00' ∈ name.toList then .error .nullName
      else
        match homeOf? name with
        | none => .error .unknown
        | some home => (homeDirectory home).map fun directory => ⟨directory.slashes, directory.parts ++ rest⟩ := by
  have hchars : ("~" ++ name).toList = '~' :: name.toList := String.toList_append
  by_cases hnull : '\x00' ∈ name.toList
  · simp [expandHome, hchars, hnull]
  · cases hhome : homeOf? name with
    | none => simp [expandHome, hchars, hnull, hhome]
    | some home => simp [expandHome, hchars, hnull, hhome]

/-- There is no home to put for a name with a null character, nor for one whose home is not known or is itself written
with a tilde. -/
theorem expandHome_tilde_eq_error_iff {homeOf? : String → Option String} {name : String} {rest : List String}
    {e : NoHome} :
    expandHome homeOf? ⟨0, ("~" ++ name) :: rest⟩ = .error e ↔
      ('\x00' ∈ name.toList ∧ e = .nullName) ∨
      ('\x00' ∉ name.toList ∧ e = .unknown ∧ ∀ home, homeOf? name = some home → home.toList.head? = some '~') := by
  rw [expandHome_tilde]
  by_cases hname : '\x00' ∈ name.toList
  · simp [hname, eq_comm]
  · rw [if_neg hname]
    cases hhome : homeOf? name with
    | none => simp [hname, eq_comm]
    | some home =>
      have hmap : ∀ x : Except NoHome FilePath,
          (x.map fun directory => (⟨directory.slashes, directory.parts ++ rest⟩ : FilePath)) = .error e ↔
            x = .error e := by
        rintro (cause | directory) <;> simp [Except.map]
      simp only [hmap, homeDirectory_eq_error_iff]
      simp [hname]

/-- A home is put for the leading tilde unless there is none to put. -/
theorem expandHome_eq_error_iff {homeOf? : String → Option String} {e : NoHome} :
    p.expandHome homeOf? = .error e ↔ p.Homeless homeOf? e := by
  constructor
  · intro h
    rcases expandHome_cases homeOf? p with ⟨name, rest, rfl⟩ | hsame
    · rcases expandHome_tilde_eq_error_iff.1 h with ⟨hname, rfl⟩ | ⟨hname, rfl, hhome⟩
      · exact .nullName hname
      · exact .unknown hname hhome
    · rw [hsame] at h
      cases h
  · intro h
    cases h with
    | unknown hname hhome => exact expandHome_tilde_eq_error_iff.2 (.inr ⟨hname, rfl, hhome⟩)
    | nullName hname => exact expandHome_tilde_eq_error_iff.2 (.inl ⟨hname, rfl⟩)

/-- The home of another user is put if it is known. -/
example :
    (ofString "~root/x").expandHome (fun name => if name = "root" then some "/root" else none) =
      .ok (ofString "/root/x") := by
  cbv

/-! ## Paths of names -/

/-- A path whose root is one that a path can have, and whose components are names. -/
structure Plain (p : FilePath) : Prop where
  slashes : p.slashes ≤ 2
  names : ∀ c ∈ p.parts, Path.IsName c.toList

/-- A path of names is well-formed. -/
theorem Plain.wellFormed (h : p.Plain) : p.WellFormed :=
  ⟨h.slashes, fun c hc => ⟨(h.names c hc).ne_nil, (h.names c hc).noSlash⟩⟩

/-- The absolute form of a plain path is the working directory with the path behind it. -/
theorem Plain.absolute_eq_join (h : p.Plain) (hne : p.parts ≠ []) {cwd : String} (hcwd : Path.Clean cwd) :
    Path.absolute cwd p.toString = Path.join cwd p.toString := by
  obtain ⟨-, hslashes, hnames⟩ := ofString_of_clean hcwd
  have hjoined := h.wellFormed.joinChars_toString hne hcwd
  have hclean : Path.Clean (Path.join cwd p.toString) := by
    refine (Path.clean_iff _).2 ⟨_, _, ?_, ?_, (String.toList_ofList).trans hjoined⟩
    · unfold append isAbsolute
      split
      · rename_i hroot
        have := h.slashes
        simp only [bne_iff_ne, ne_eq] at hroot
        omega
      · exact hslashes
    · intro c hc
      obtain ⟨d, hd, rfl⟩ := List.mem_map.1 hc
      unfold append at hd
      split at hd
      · exact h.names d hd
      · rcases List.mem_append.1 hd with hd | hd
        · exact hnames d hd
        · exact h.names d hd
  rw [Path.absolute]
  split
  · rename_i hroot
    have hhead := Path.head?_of_isAbsolute hroot
    rw [Path.join, Path.joinChars, if_pos hhead, String.ofList_toList] at hclean ⊢
    exact hclean.normal
  · exact hclean.normal

end FilePath

end DocRefs
