import DocRefs.Path
import DocRefs.Proofs.Text.Fields

/-!
# Normal paths

The components of a path are taken in one by one, and what has been taken in is settled at every moment (`Settled`):
names, above two dots only where a relative path climbs. So normalising changes nothing a second time
(`normalize_normalize`), and a path that ends in a name keeps that name (`basename_normalize_join`).
-/

namespace DocRefs.Path

/-- A component that names something: it is not empty, holds no slash, and is neither one dot nor two. -/
structure IsName (component : List Char) : Prop where
  ne_nil : component ≠ []
  noSlash : '/' ∉ component
  ne_dot : component ≠ ['.']
  ne_dots : component ≠ ['.', '.']

instance (component : List Char) : Decidable (IsName component) :=
  decidable_of_iff (component ≠ [] ∧ '/' ∉ component ∧ component ≠ ['.'] ∧ component ≠ ['.', '.'])
    ⟨fun ⟨hne, hslash, hdot, hdots⟩ => ⟨hne, hslash, hdot, hdots⟩,
      fun ⟨hne, hslash, hdot, hdots⟩ => ⟨hne, hslash, hdot, hdots⟩⟩

/-- A list of components, the last one first, as it is while a path is taken in: names, and below them two dots where a
relative path climbs. -/
def Settled (rooted : Bool) (done : List (List Char)) : Prop :=
  ∃ names climbs, done = names ++ List.replicate climbs ['.', '.'] ∧ (∀ c ∈ names, IsName c) ∧
    (rooted = true → climbs = 0)

theorem settled_nil (rooted : Bool) : Settled rooted [] :=
  ⟨[], 0, rfl, by simp, fun _ => rfl⟩

/-- Names are settled, whatever they are taken into. -/
theorem settled_names (rooted : Bool) {names : List (List Char)} (h : ∀ c ∈ names, IsName c) :
    Settled rooted names.reverse :=
  ⟨names.reverse, 0, by simp, fun c hc => h c (List.mem_reverse.1 hc), fun _ => rfl⟩

/-- A name is put on top of the components before it. -/
theorem pushComponent_name {component : List Char} (h : IsName component) (rooted : Bool) (done : List (List Char)) :
    pushComponent rooted done component = component :: done := by
  simp [pushComponent, h.ne_nil, h.ne_dot, h.ne_dots]

/-- Taking in one more component leaves a settled list settled. -/
theorem Settled.push {rooted : Bool} {done : List (List Char)} (h : Settled rooted done) {component : List Char}
    (hslash : '/' ∉ component) : Settled rooted (pushComponent rooted done component) := by
  obtain ⟨names, climbs, rfl, hnames, hrooted⟩ := h
  unfold pushComponent
  split
  · exact ⟨names, climbs, rfl, hnames, hrooted⟩
  · rename_i hplain
    simp only [Bool.or_eq_true, decide_eq_true_eq, not_or] at hplain
    split
    · rename_i hdots
      refine ⟨component :: names, climbs, rfl, ?_, hrooted⟩
      intro c hc
      rcases List.mem_cons.1 hc with rfl | hc
      · exact ⟨hplain.1, hslash, hplain.2, hdots⟩
      · exact hnames c hc
    · rename_i hdots
      simp only [ne_eq, Decidable.not_not] at hdots
      subst hdots
      cases names with
      | nil =>
        cases climbs with
        | zero =>
          cases rooted with
          | true => exact settled_nil true
          | false => exact ⟨[], 1, rfl, by simp, by simp⟩
        | succ climbs => exact ⟨[], climbs + 2, rfl, by simp, fun hr => absurd (hrooted hr) (by simp)⟩
      | cons name names =>
        have hname := (hnames name (by simp)).ne_dots
        simp only [List.cons_append, if_neg hname]
        exact ⟨names, climbs, rfl, fun c hc => hnames c (by simp [hc]), hrooted⟩

/-- Taking in components without slashes leaves a settled list settled. -/
theorem Settled.foldl {rooted : Bool} {components : List (List Char)} (hslash : ∀ c ∈ components, '/' ∉ c)
    {done : List (List Char)} (h : Settled rooted done) :
    Settled rooted (components.foldl (pushComponent rooted) done) := by
  induction components generalizing done with
  | nil => exact h
  | cons c components ih =>
    exact ih (fun d hd => hslash d (by simp [hd])) (h.push (hslash c (by simp)))

/-- Names are taken in as they are. -/
theorem foldl_names {names : List (List Char)} (h : ∀ c ∈ names, IsName c) (rooted : Bool) (done : List (List Char)) :
    names.foldl (pushComponent rooted) done = names.reverse ++ done := by
  induction names generalizing done with
  | nil => rfl
  | cons c names ih =>
    rw [List.foldl_cons, pushComponent_name (h c (by simp)), ih (fun d hd => h d (by simp [hd]))]
    simp

/-- Two dots at the beginning of a relative path are taken in as they are. -/
theorem foldl_climbs (climbs more : Nat) :
    (List.replicate climbs ['.', '.']).foldl (pushComponent false) (List.replicate more ['.', '.']) =
      List.replicate (climbs + more) ['.', '.'] := by
  induction climbs generalizing more with
  | zero => simp
  | succ climbs ih =>
    have hpush : pushComponent false (List.replicate more ['.', '.']) ['.',
        '.'] = List.replicate (more + 1) ['.', '.'] := by
      cases more <;> rfl
    rw [List.replicate_succ, List.foldl_cons, hpush, ih]
    congr 1
    omega

/-- A settled list is taken in as it is. -/
theorem Settled.foldl_reverse {rooted : Bool} {done : List (List Char)} (h : Settled rooted done) :
    done.reverse.foldl (pushComponent rooted) [] = done := by
  obtain ⟨names, climbs, rfl, hnames, hrooted⟩ := h
  have hreverse : ∀ c ∈ names.reverse, IsName c := fun c hc => hnames c (List.mem_reverse.1 hc)
  rw [List.reverse_append, List.reverse_replicate, List.foldl_append]
  cases rooted with
  | true =>
    rw [hrooted rfl, List.replicate_zero, List.foldl_nil, foldl_names hreverse, List.reverse_reverse]
  | false =>
    have hclimb := foldl_climbs climbs 0
    simp only [List.replicate_zero, Nat.add_zero] at hclimb
    rw [hclimb, foldl_names hreverse, List.reverse_reverse]

/-! ## The text of components -/

/-- What is settled holds no empty component and no slash. -/
theorem Settled.component {rooted : Bool} {done : List (List Char)} (h : Settled rooted done) :
    ∀ c ∈ done, c ≠ [] ∧ '/' ∉ c := by
  obtain ⟨names, climbs, rfl, hnames, -⟩ := h
  intro c hc
  rcases List.mem_append.1 hc with hc | hc
  · exact ⟨(hnames c hc).ne_nil, (hnames c hc).noSlash⟩
  · rw [List.eq_of_mem_replicate hc]
    decide

/-- The text of two lists of components is that of both with a slash between them. -/
theorem intercalate_append {components more : List (List Char)} (h : components ≠ []) (hmore : more ≠ []) :
    List.intercalate ['/'] (components ++ more) = List.intercalate ['/'] components ++ '/' ::
    List.intercalate ['/'] more := by
  induction components with
  | nil => exact absurd rfl h
  | cons c components ih =>
    by_cases hnil : components = []
    · rw [hnil, List.singleton_append, List.intercalate_cons_of_ne_nil hmore,
        List.intercalate_singleton, List.append_assoc, List.singleton_append]
    · rw [List.cons_append, List.intercalate_cons_of_ne_nil (by simp [hnil]),
        List.intercalate_cons_of_ne_nil hnil, ih hnil, List.append_assoc (c ++ ['/'])]

/-- The text of components does not begin with a slash. -/
theorem head?_intercalate {components : List (List Char)} (h : ∀ c ∈ components, c ≠ [] ∧ '/' ∉ c) :
    (List.intercalate ['/'] components).head? ≠ some '/' := by
  cases components with
  | nil => simp [List.intercalate]
  | cons c components =>
    obtain ⟨hne, hslash⟩ := h c (by simp)
    obtain ⟨x, c, rfl⟩ := List.exists_cons_of_ne_nil hne
    have hx : x ≠ '/' := fun hx => hslash (by simp [hx])
    rw [List.intercalate_cons_cons_left]
    simpa using hx

/-- The slashes of a text that does not go on with one. -/
theorem rootSlashes_replicate_append {slashes : Nat} (hslashes : slashes ≤ 2) {rest : List Char}
    (h : rest.head? ≠ some '/') : rootSlashes (List.replicate slashes '/' ++ rest) = slashes := by
  cases rest with
  | nil =>
    match slashes, hslashes with
    | 0, _ => rfl
    | 1, _ => rfl
    | 2, _ => rfl
  | cons c rest =>
    have hc : c ≠ '/' := by simpa using h
    match slashes, hslashes with
    | 0, _ => simp [rootSlashes, hc]
    | 1, _ => simp [List.replicate_succ, rootSlashes, hc]
    | 2, _ => simp [List.replicate_succ, rootSlashes, hc]

theorem rootSlashes_le (p : List Char) : rootSlashes p ≤ 2 := by
  unfold rootSlashes
  split <;> simp

/-- A path without a root does not begin with a slash. -/
theorem rootSlashes_eq_zero_iff (p : List Char) : rootSlashes p = 0 ↔ p.head? ≠ some '/' := by
  unfold rootSlashes
  split
  · simp
  · simp
  · simp
  · rename_i h
    simp only [true_iff]
    cases p with
    | nil => simp
    | cons c p =>
      rintro hc
      simp only [List.head?_cons, Option.some.injEq] at hc
      exact h p (by rw [hc])

/-- Slashes at the beginning are cut into empty components. -/
theorem fields_replicate_append (slashes : Nat) (rest : List Char) :
    fields '/' (List.replicate slashes '/' ++ rest) = List.replicate slashes [] ++ fields '/' rest := by
  induction slashes with
  | zero => rfl
  | succ slashes ih => rw [List.replicate_succ, List.cons_append, fields_cons, if_pos rfl, ih]; rfl

/-- Empty components are passed over. -/
theorem foldl_replicate_nil (rooted : Bool) (slashes : Nat) (done : List (List Char)) :
    (List.replicate slashes []).foldl (pushComponent rooted) done = done := by
  induction slashes with
  | zero => rfl
  | succ slashes ih =>
    rw [List.replicate_succ, List.foldl_cons]
    have hpush : pushComponent rooted done [] = done := by simp [pushComponent]
    rw [hpush, ih]

/-- The components that a normalised path is written with are settled. -/
theorem settled_normalComponents (p : List Char) : Settled (rootSlashes p != 0) (normalComponents p).reverse := by
  rw [normalComponents, List.reverse_reverse]
  exact (settled_nil _).foldl fun _ hc => notMem_of_mem_fields hc

/-- The fields of a path are an empty one for each slash of its root, and its components. -/
theorem fields_ofComponents (slashes : Nat) {components : List (List Char)} (h : ∀ c ∈ components, '/' ∉ c) :
    fields '/' (ofComponents slashes components) =
      List.replicate slashes [] ++ (if components = [] then [[]] else components) := by
  rw [ofComponents, fields_replicate_append]
  split
  · rename_i hnil
    rw [hnil]
    rfl
  · rename_i hne
    rw [fields_intercalate hne h]

/-- The components of a path are taken in as they stand in its text. -/
theorem normalComponents_ofComponents_eq_foldl {slashes : Nat} (hslashes : slashes ≤ 2) {components : List (List Char)}
    (h : ∀ c ∈ components, c ≠ [] ∧ '/' ∉ c) :
    normalComponents (ofComponents slashes components) =
      (components.foldl (pushComponent (slashes != 0)) []).reverse := by
  have hroot : rootSlashes (ofComponents slashes components) = slashes :=
    rootSlashes_replicate_append hslashes (head?_intercalate h)
  rw [normalComponents, hroot, fields_ofComponents slashes fun c hc => (h c hc).2,
    List.foldl_append, foldl_replicate_nil]
  split
  · rename_i hnil
    rw [hnil]
    rfl
  · rfl

/-- Settled components are read back from their text. -/
theorem normalComponents_ofComponents {slashes : Nat} (hslashes : slashes ≤ 2) {components : List (List Char)}
    (h : Settled (slashes != 0) components.reverse) :
    normalComponents (ofComponents slashes components) = components := by
  have hfold := h.foldl_reverse
  rw [List.reverse_reverse] at hfold
  rw [normalComponents_ofComponents_eq_foldl hslashes fun c hc => h.component c (List.mem_reverse.2 hc),
    hfold, List.reverse_reverse]

/-- A path of settled components is its own normal form. -/
theorem normalChars_ofComponents {slashes : Nat} (hslashes : slashes ≤ 2) {components : List (List Char)}
    (h : Settled (slashes != 0) components.reverse) (hne : ofComponents slashes components ≠ []) :
    normalChars (ofComponents slashes components) = ofComponents slashes components := by
  have hcomponent : ∀ c ∈ components, c ≠ [] ∧ '/' ∉ c := fun c hc => h.component c (List.mem_reverse.2 hc)
  have hroot : rootSlashes (ofComponents slashes components) = slashes :=
    rootSlashes_replicate_append hslashes (head?_intercalate hcomponent)
  unfold normalChars
  rw [normalComponents_ofComponents hslashes h, hroot]
  split
  · rename_i hnil
    exact absurd hnil hne
  · rfl

/-- Normalising a normal path changes nothing. -/
theorem normalChars_normalChars (p : List Char) : normalChars (normalChars p) = normalChars p := by
  by_cases hne : ofComponents (rootSlashes p) (normalComponents p) = []
  · have hdot : normalChars p = ['.'] := by simp [normalChars, hne]
    rw [hdot]
    decide
  · have hnormal : normalChars p = ofComponents (rootSlashes p) (normalComponents p) := by
      unfold normalChars
      split
      · rename_i hnil
        exact absurd hnil hne
      · rfl
    rw [hnormal]
    exact normalChars_ofComponents (rootSlashes_le p) (settled_normalComponents p) hne

/-- No normal form is empty. -/
theorem normalChars_ne_nil (p : List Char) : normalChars p ≠ [] := by
  unfold normalChars
  split
  · simp
  · assumption

theorem absolute_ne_empty (cwd p : String) : absolute cwd p ≠ "" := by
  intro he
  have hchars := congrArg String.toList he
  rw [absolute, normalize, String.toList_ofList] at hchars
  exact normalChars_ne_nil _ hchars

/-- A normal form is its own normal form. -/
@[simp]
theorem normalize_normalize (p : String) : normalize (normalize p) = normalize p := by
  simp [normalize, normalChars_normalChars]

end DocRefs.Path
