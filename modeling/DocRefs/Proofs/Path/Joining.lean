import DocRefs.Proofs.Path.Names

/-!
# Joining to an absolute base

A path that is taken from an absolute base has the components of the base, and behind them its own are taken in one by
one (`normalComponents_joinChars_rooted`). So a path of names leads from the base down these names, with or without a
slash at its end (`normalChars_joinChars_names`). A clean path is a root, or its directory with one more name
(`Clean.root_or_name`).
-/

namespace DocRefs.Path

variable {base p rest : List Char} {names : List (List Char)}

/-! ## The root -/

/-- What follows an absolute path does not change its root, unless a slash follows slashes. -/
theorem rootSlashes_append (hroot : base.head? = some '/') (h : rest.head? ≠ some '/' ∨ base.getLast? ≠ some '/') :
    rootSlashes (base ++ rest) = rootSlashes base := by
  obtain ⟨more, rfl⟩ := List.head?_eq_some_iff.1 hroot
  -- Only the first three characters count, of which the base may have one, two or all.
  match more with
  | [] => exact rootSlashes_replicate_append (by omega : 1 ≤ 2) (h.resolve_right (by simp))
  | [c] =>
    by_cases hc : c = '/'
    · subst hc
      exact rootSlashes_replicate_append (by omega : 2 ≤ 2) (h.resolve_right (by simp))
    · simp [rootSlashes, hc]
  | c :: d :: more =>
    by_cases hc : c = '/'
    · by_cases hd : d = '/'
      · rw [hc, hd]
        rfl
      · simp [rootSlashes, hc, hd]
    · simp [rootSlashes, hc]

/-- A path that is taken from an absolute base has its root. -/
theorem rootSlashes_joinChars (hroot : base.head? = some '/') (hp : p.head? ≠ some '/') :
    rootSlashes (joinChars base p) = rootSlashes base := by
  rw [joinChars, if_neg hp]
  split
  · exact rootSlashes_append hroot (.inl hp)
  · rename_i hlast
    simp only [Bool.or_eq_true, decide_eq_true_eq, not_or] at hlast
    exact rootSlashes_append hroot (.inr hlast.2)

/-! ## The components -/

/-- The components of a path that is taken from an absolute base are those of the base, behind which its own are taken
in. -/
theorem normalComponents_joinChars_rooted (hroot : base.head? = some '/') (hp : p.head? ≠ some '/') :
    normalComponents (joinChars base p) =
      ((fields '/' p).foldl (pushComponent true) (normalComponents base).reverse).reverse := by
  have hrooted : (rootSlashes base != 0) = true := by
    rcases rootSlashes_rooted hroot with h | h <;> rw [h] <;> rfl
  have hfold : ∀ done, pushComponent true done [] = done := fun done => by simp [pushComponent]
  rw [normalComponents, rootSlashes_joinChars hroot hp, normalComponents, List.reverse_reverse,
    hrooted, joinChars, if_neg hp]
  split
  · rename_i hlast
    simp only [Bool.or_eq_true, decide_eq_true_eq] at hlast
    obtain ⟨front, rfl⟩ : ∃ front, base = front ++ ['/'] := by
      refine List.getLast?_eq_some_iff.1 (hlast.resolve_left ?_)
      rintro rfl
      simp at hroot
    have hnone : fields '/' [] = [[]] := rfl
    rw [List.append_assoc, List.singleton_append, fields_append_cons, fields_append_cons, hnone,
      List.foldl_append, List.foldl_append, List.foldl_cons, List.foldl_nil, hfold]
  · rw [fields_append_cons, List.foldl_append]

/-- Names, and perhaps an empty component behind them, are taken in as they are. -/
theorem normalChars_joinChars_fields (hroot : base.head? = some '/') (hp : p.head? ≠ some '/')
    (hnames : ∀ c ∈ names, IsName c) (hfields : fields '/' p = names ∨ fields '/' p = names ++ [[]]) :
    normalChars (joinChars base p) = ofComponents (rootSlashes base) (normalComponents base ++ names) := by
  have hfold : (fields '/' p).foldl (pushComponent true) (normalComponents base).reverse =
      names.reverse ++ (normalComponents base).reverse := by
    rcases hfields with h | h
    · rw [h, foldl_names hnames]
    · rw [h, List.foldl_append, foldl_names hnames]
      simp [pushComponent]
  rw [normalChars_rooted (head?_joinChars hroot p), rootSlashes_joinChars hroot hp,
    normalComponents_joinChars_rooted hroot hp, hfold, List.reverse_append, List.reverse_reverse, List.reverse_reverse]

/-- What begins with a name does not begin with a slash. -/
theorem IsName.head?_append_ne {name : List Char} (h : IsName name) (rest : List Char) :
    (name ++ rest).head? ≠ some '/' := by
  obtain ⟨c, more, rfl⟩ := List.exists_cons_of_ne_nil h.ne_nil
  intro hhead
  obtain rfl := Option.some.inj hhead
  exact h.noSlash List.mem_cons_self

/-- The text of names does not begin with a slash. -/
theorem head?_intercalate_names (hnames : ∀ c ∈ names, IsName c) : (List.intercalate ['/'] names).head? ≠ some '/' :=
  head?_intercalate fun c hc => ⟨(hnames c hc).ne_nil, (hnames c hc).noSlash⟩

/-- A path of names leads from an absolute base down these names. -/
theorem normalChars_joinChars_names (hroot : base.head? = some '/') (hnames : ∀ c ∈ names, IsName c) :
    normalChars (joinChars base (List.intercalate ['/'] names)) =
      ofComponents (rootSlashes base) (normalComponents base ++ names) := by
  refine normalChars_joinChars_fields hroot (head?_intercalate_names hnames) hnames ?_
  by_cases hnil : names = []
  · exact .inr (by rw [hnil]; rfl)
  · exact .inl (fields_intercalate hnil fun c hc => (hnames c hc).noSlash)

/-- So it does with a slash at its end. -/
theorem normalChars_joinChars_names_slash (hroot : base.head? = some '/')
    (hnames : ∀ c ∈ names, IsName c) (hne : names ≠ []) :
    normalChars (joinChars base (List.intercalate ['/'] names ++ ['/'])) =
      ofComponents (rootSlashes base) (normalComponents base ++ names) := by
  refine normalChars_joinChars_fields hroot ?_ hnames (.inr ?_)
  · rw [List.head?_append]
    obtain ⟨c, more, rfl⟩ := List.exists_cons_of_ne_nil hne
    obtain ⟨x, c, rfl⟩ := List.exists_cons_of_ne_nil (hnames c List.mem_cons_self).ne_nil
    have hx : x ≠ '/' := fun hx => (hnames _ List.mem_cons_self).noSlash (by simp [hx])
    rw [List.intercalate_cons_cons_left]
    simpa using hx
  · rw [fields_append_cons, fields_intercalate hne fun c hc => (hnames c hc).noSlash]
    rfl

/-! ## One more name -/

/-- A name leads one step down, with a slash behind it or not. -/
theorem normalChars_joinChars_name {name : List Char} (hroot : base.head? = some '/')
    (hname : IsName name) (slash : Bool) : normalChars (joinChars base (name ++ if slash then ['/'] else [])) =
      ofComponents (rootSlashes base) (normalComponents base ++ [name]) := by
  have hnames : ∀ c ∈ [name], IsName c := List.forall_mem_singleton.2 hname
  have htext : List.intercalate ['/'] [name] = name := List.intercalate_singleton
  cases slash with
  | true =>
    have hslash := normalChars_joinChars_names_slash hroot hnames (List.cons_ne_nil _ _)
    rwa [htext] at hslash
  | false =>
    have hplain := normalChars_joinChars_names hroot hnames
    rw [htext] at hplain
    rwa [if_neg (by simp), List.append_nil]

/-- Behind a slash a path is put as it is. -/
theorem joinChars_of_getLast? (hslash : base.getLast? = some '/') (hp : p.head? ≠ some '/') :
    joinChars base p = base ++ p := by
  rw [joinChars, if_neg hp, if_pos (by simp [hslash])]

/-- What is put behind a directory part, whose last character is a slash, is taken from that directory. -/
theorem joinChars_append {directory : List Char} (hslash : directory.getLast? = some '/') (hp : p.head? ≠ some '/') :
    joinChars base (directory ++ p) = joinChars (joinChars base directory) p := by
  obtain ⟨front, rfl⟩ := List.getLast?_eq_some_iff.1 hslash
  have hlast : (joinChars base (front ++ ['/'])).getLast? = some '/' := by
    unfold joinChars
    split
    · simp
    · split <;> simp [List.getLast?_cons]
  have hhead : (front ++ ['/'] ++ p).head? = (front ++ ['/']).head? := by simp
  rw [joinChars_of_getLast? hlast hp, joinChars, joinChars, hhead]
  split
  · rfl
  · split <;> simp

/-- A path of names can be read in one way only. -/
theorem ofComponents_inj {slashes slashes' : Nat} {names names' : List (List Char)}
    (hslashes : slashes = 1 ∨ slashes = 2)
    (hslashes' : slashes' = 1 ∨ slashes' = 2) (hnames : ∀ c ∈ names, IsName c) (hnames' : ∀ c ∈ names', IsName c)
    (h : ofComponents slashes names = ofComponents slashes' names') : slashes = slashes' ∧ names = names' := by
  have hroot : ∀ {slashes : Nat} {names : List (List Char)}, slashes = 1 ∨ slashes = 2 → (∀ c ∈ names, IsName c) →
      rootSlashes (ofComponents slashes names) = slashes := by
    intro slashes names hslashes hnames
    exact rootSlashes_replicate_append (by omega) (head?_intercalate_names hnames)
  have hcomponents : ∀ {slashes : Nat} {names : List (List Char)}, slashes = 1 ∨ slashes = 2 → (∀ c ∈ names, IsName c) →
      normalComponents (ofComponents slashes names) = names := by
    intro slashes names hslashes hnames
    exact normalComponents_ofComponents (by omega) (settled_names _ hnames)
  constructor
  · rw [← hroot hslashes hnames, h, hroot hslashes' hnames']
  · rw [← hcomponents hslashes hnames, h, hcomponents hslashes' hnames']

/-- A clean path is a root, which has no name and is its own directory, or it is its directory with one more name. -/
theorem Clean.root_or_name {p : String} (h : Clean p) :
    ((p = "/" ∨ p = "//") ∧ Path.dirname p = p ∧ Path.basename p = "") ∨
      ∃ slashes names name, (slashes = 1 ∨ slashes = 2) ∧ (∀ c ∈ names, IsName c) ∧ IsName name ∧
        p.toList = ofComponents slashes (names ++ [name]) ∧ (Path.dirname p).toList = ofComponents slashes names ∧
        (Path.basename p).toList = name := by
  obtain ⟨slashes, names, hslashes, hnames, hp⟩ := (clean_iff p).1 h
  rcases List.eq_nil_or_concat names with rfl | ⟨front, name, hlast⟩
  · left
    rcases hslashes with rfl | rfl
    · obtain rfl : p = "/" := String.toList_inj.1 hp
      exact ⟨.inl rfl, by cbv, by cbv⟩
    · obtain rfl : p = "//" := String.toList_inj.1 hp
      exact ⟨.inr rfl, by cbv, by cbv⟩
  · right
    rw [List.concat_eq_append] at hlast
    subst hlast
    have hfront : ∀ d ∈ front, IsName d := fun d hd => hnames d (by simp [hd])
    have hname : IsName name := hnames name (by simp)
    refine ⟨slashes, front, name, hslashes, hfront, hname, hp, ?_, ?_⟩
    · rw [Path.dirname, String.toList_ofList, hp, parentChars_ofComponents hfront hname]
    · rw [Path.basename, String.toList_ofList, hp, nameChars_ofComponents _ _ hname.noSlash]

/-- A clean path that is its own directory is a root. -/
theorem Clean.root_of_dirname_eq {p : String} (h : Clean p) (hself : Path.dirname p = p) : p = "/" ∨ p = "//" := by
  rcases h.root_or_name with ⟨hroot, -, -⟩ | ⟨slashes, names, name, hslashes, hnames, hname, hchars, hparent, -⟩
  · exact hroot
  · rw [hself, hchars] at hparent
    have hall : ∀ c ∈ names ++ [name], IsName c := by
      intro c hc
      rcases List.mem_append.1 hc with hc | hc
      · exact hnames c hc
      · exact List.mem_singleton.1 hc ▸ hname
    obtain ⟨-, hlonger⟩ := ofComponents_inj hslashes hslashes hall hnames hparent
    simp at hlonger

/-- A clean path is known by its directory and its name. -/
theorem Clean.eq_of_basename_eq {p q : String} (hp : Clean p) (hq : Clean q)
    (hdirname : Path.dirname p = Path.dirname q) (hbasename : Path.basename p = Path.basename q) : p = q := by
  rcases hp.root_or_name with ⟨-, hroot, hempty⟩ |
    ⟨slashes, names, name, hslashes, hnames, hname, hchars, hparent, hlast⟩
  · rcases hq.root_or_name with ⟨-, hroot', -⟩ | ⟨-, -, name', -, -, hname', -, -, hlast'⟩
    · rw [← hroot, hdirname, hroot']
    · rw [← hbasename, hempty] at hlast'
      exact absurd hlast'.symm hname'.ne_nil
  · rcases hq.root_or_name with ⟨-, -, hempty'⟩ |
      ⟨slashes', names', name', hslashes', hnames', -, hchars', hparent', hlast'⟩
    · rw [hbasename, hempty'] at hlast
      exact absurd hlast.symm hname.ne_nil
    · rw [hdirname, hparent'] at hparent
      obtain ⟨rfl, rfl⟩ := ofComponents_inj hslashes' hslashes hnames' hnames hparent
      rw [hbasename, hlast'] at hlast
      exact String.toList_injective (by rw [hchars, hchars', hlast])

end DocRefs.Path
