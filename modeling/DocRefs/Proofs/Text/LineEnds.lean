import DocRefs.Proofs.Text.Lines

/-!
# Line ends written as line feeds

A text and the same text with every line end written as a line feed have the same lines (`splitLines_unifyLineEnds`),
and a run of a class that does not tell the two halves of a line end apart is found in both (`takeWhile_unifyLineEnds`,
`dropWhile_unifyLineEnds`). A cut through one is a cut through the other (`exists_cut_of_unifyLineEnds`), unless it
tears a line end apart. All of this goes by induction along the text with a line end of two characters as one step
(`lineEnds_induction`).
-/

namespace DocRefs

variable {text front rest : List Char} {c : Char}

/-- Induction along a text, a line end of two characters at once. -/
theorem lineEnds_induction {motive : List Char → Prop} (nil : motive [])
    (both : ∀ text, motive text → motive ('\r' :: '\n' :: text))
    (alone : ∀ text, (∀ more, text ≠ '\n' :: more) → motive text → motive ('\r' :: text))
    (other : ∀ c text, c ≠ '\r' → motive text → motive (c :: text)) (text : List Char) : motive text := by
  fun_induction unifyLineEnds text with
  | case1 => exact nil
  | case2 text ih => exact both text ih
  | case3 text hnot ih => exact alone text hnot ih
  | case4 c text _ hc ih => exact other c text hc ih

@[simp]
theorem unifyLineEnds_nil : unifyLineEnds [] = [] := rfl

@[simp]
theorem unifyLineEnds_both (text : List Char) : unifyLineEnds ('\r' :: '\n' :: text) = '\n' :: unifyLineEnds text := rfl

/-- A return that no feed follows becomes a feed. -/
theorem unifyLineEnds_return (h : ∀ more, text ≠ '\n' :: more) :
    unifyLineEnds ('\r' :: text) = '\n' :: unifyLineEnds text := by
  rw [unifyLineEnds]
  exact h

/-- Every character but a return stays. -/
theorem unifyLineEnds_cons (h : c ≠ '\r') (text : List Char) : unifyLineEnds (c :: text) = c :: unifyLineEnds text := by
  rw [unifyLineEnds]
  · exact fun _ hc => absurd hc h
  · exact h

/-- A text without carriage returns stays as it is. -/
theorem unifyLineEnds_of_notMem (h : '\r' ∉ text) : unifyLineEnds text = text := by
  induction text with
  | nil => rfl
  | cons c text ih =>
    obtain ⟨hc, htext⟩ := not_or.1 (mt List.mem_cons.2 h)
    rw [unifyLineEnds_cons (Ne.symm hc), ih htext]

/-- A character that ends no line stands in front of the one text exactly when it stands in front of the other. -/
theorem unifyLineEnds_eq_cons_iff (hreturn : c ≠ '\r') (hfeed : c ≠ '\n') :
    unifyLineEnds text = c :: rest ↔ ∃ more, text = c :: more ∧ unifyLineEnds more = rest := by
  constructor
  · intro h
    induction text using lineEnds_induction with
    | nil => simp at h
    | both text => exact absurd (List.cons.inj h).1 (Ne.symm hfeed)
    | alone text hnot =>
      rw [unifyLineEnds_return hnot] at h
      exact absurd (List.cons.inj h).1 (Ne.symm hfeed)
    | other d text hd =>
      rw [unifyLineEnds_cons hd] at h
      obtain ⟨rfl, hrest⟩ := List.cons.inj h
      exact ⟨_, rfl, hrest⟩
  · rintro ⟨more, rfl, rfl⟩
    exact unifyLineEnds_cons hreturn more

/-- The lines of a text do not depend on how their ends are written. -/
theorem splitLines_unifyLineEnds (text : List Char) : splitLines (unifyLineEnds text) = splitLines text := by
  induction text using lineEnds_induction with
  | nil => rfl
  | both text ih => rw [unifyLineEnds_both, splitLines, splitLines, ih]
  | alone text h ih => rw [unifyLineEnds_return h, splitLines_return _ h, splitLines, ih]
  | other c text h ih =>
    rw [unifyLineEnds_cons h]
    by_cases hfeed : c = '\n'
    · rw [hfeed, splitLines, splitLines, ih]
    · obtain ⟨l, ls, hlines, hcons⟩ := splitLines_cons c text h hfeed
      obtain ⟨l', ls', hlines', hcons'⟩ := splitLines_cons c (unifyLineEnds text) h hfeed
      rw [ih, hlines] at hlines'
      obtain ⟨rfl, rfl⟩ := List.cons.inj hlines'
      rw [hcons, hcons']

/-! ## Runs -/

/-- The run at the front of a text, if its class does not tell the halves of a line end apart. -/
theorem takeWhile_unifyLineEnds {class? : Char → Bool} (h : class? '\r' = class? '\n') (text : List Char) :
    (unifyLineEnds text).takeWhile class? = unifyLineEnds (text.takeWhile class?) := by
  induction text using lineEnds_induction with
  | nil => rfl
  | both text ih =>
    cases hfeed : class? '\n' with
    | false => simp [h, hfeed]
    | true => simp [h, hfeed, ih]
  | alone text hnot ih =>
    rw [unifyLineEnds_return hnot]
    cases hfeed : class? '\n' with
    | false => simp [h, hfeed]
    | true =>
      rw [List.takeWhile_cons_of_pos hfeed, List.takeWhile_cons_of_pos (h.trans hfeed), ih, unifyLineEnds_return]
      intro more hmore
      cases text with
      | nil => simp at hmore
      | cons d text =>
        rw [List.takeWhile_cons] at hmore
        split at hmore
        · exact hnot text (by rw [(List.cons.inj hmore).1])
        · simp at hmore
  | other c text hc ih =>
    rw [unifyLineEnds_cons hc]
    cases hclass : class? c with
    | false => simp [hclass]
    | true => rw [List.takeWhile_cons_of_pos hclass, List.takeWhile_cons_of_pos hclass, ih, unifyLineEnds_cons hc]

/-- What is behind the run at the front of a text. -/
theorem dropWhile_unifyLineEnds {class? : Char → Bool} (h : class? '\r' = class? '\n') (text : List Char) :
    (unifyLineEnds text).dropWhile class? = unifyLineEnds (text.dropWhile class?) := by
  induction text using lineEnds_induction with
  | nil => rfl
  | both text ih =>
    cases hfeed : class? '\n' with
    | false => simp [h, hfeed]
    | true => simp [h, hfeed, ih]
  | alone text hnot ih =>
    cases hfeed : class? '\n' with
    | false => simp [h, hfeed, unifyLineEnds_return hnot]
    | true => simp [h, hfeed, unifyLineEnds_return hnot, ih]
  | other c text hc ih =>
    cases hclass : class? c with
    | false => simp [hclass, unifyLineEnds_cons hc]
    | true => simp [hclass, unifyLineEnds_cons hc, ih]

/-- A run of a class in which no line end is. -/
theorem takeWhile_unifyLineEnds_eq {class? : Char → Bool} (hreturn : class? '\r' = false) (hfeed : class? '\n' = false)
    (text : List Char) : (unifyLineEnds text).takeWhile class? = text.takeWhile class? := by
  rw [takeWhile_unifyLineEnds (hreturn.trans hfeed.symm), unifyLineEnds_of_notMem]
  intro hmem
  rw [of_mem_takeWhile hmem] at hreturn
  exact Bool.noConfusion hreturn

/-! ## Cuts -/

/-- Two texts put together, unless that makes a line end of their ends. -/
theorem unifyLineEnds_append (front : List Char) (hwhole : ∀ more, rest = '\n' :: more → front.getLast? ≠ some '\r') :
    unifyLineEnds (front ++ rest) = unifyLineEnds front ++ unifyLineEnds rest := by
  induction front using lineEnds_induction with
  | nil => rfl
  | both front ih =>
    rw [List.cons_append, List.cons_append, unifyLineEnds_both, unifyLineEnds_both, ih, List.cons_append]
    intro more hmore hlast
    exact hwhole more hmore (by simp [List.getLast?_cons, hlast])
  | alone front hnot ih =>
    rw [unifyLineEnds_return hnot, List.cons_append, unifyLineEnds_return, ih, List.cons_append]
    · intro more hmore hlast
      exact hwhole more hmore (by simp [List.getLast?_cons, hlast])
    · intro more hmore
      cases front with
      | nil => exact hwhole more hmore rfl
      | cons d front =>
        rw [List.cons_append, List.cons.injEq] at hmore
        exact hnot front (by rw [hmore.1])
  | other c front hc ih =>
    rw [unifyLineEnds_cons hc, List.cons_append, unifyLineEnds_cons hc, ih, List.cons_append]
    intro more hmore hlast
    exact hwhole more hmore (by simp [List.getLast?_cons, hlast])

/-- What is put in front of a text that does not begin with a line feed. -/
theorem unifyLineEnds_append_cons (front : List Char) (hc : c ≠ '\n') (rest : List Char) :
    unifyLineEnds (front ++ c :: rest) = unifyLineEnds front ++ unifyLineEnds (c :: rest) :=
  unifyLineEnds_append front fun _ hmore => absurd (List.cons.inj hmore).1 hc

/-- The two parts of a text at an offset that tears no line end apart. -/
theorem unifyLineEnds_of_untorn {i : Nat} (h : Untorn text i) :
    unifyLineEnds text = unifyLineEnds (text.take i) ++ unifyLineEnds (text.drop i) := by
  rw [← unifyLineEnds_append _ h, List.take_append_drop]

/-- A cut through the text with its ends written as line feeds comes from a cut through the text. -/
theorem exists_cut_of_unifyLineEnds (text : List Char) (j : Nat) :
    ∃ i, unifyLineEnds (text.take i) = (unifyLineEnds text).take j ∧
    unifyLineEnds (text.drop i) = (unifyLineEnds text).drop j := by
  induction text using lineEnds_induction generalizing j with
  | nil => exact ⟨0, by simp, by simp⟩
  | both text ih =>
    cases j with
    | zero => exact ⟨0, by simp, by simp⟩
    | succ j =>
      obtain ⟨i, htake, hdrop⟩ := ih j
      exact ⟨i + 2, by simp [htake], by simp [hdrop]⟩
  | alone text hnot ih =>
    rw [unifyLineEnds_return hnot]
    cases j with
    | zero => exact ⟨0, by simp, by simp [unifyLineEnds_return hnot]⟩
    | succ j =>
      obtain ⟨i, htake, hdrop⟩ := ih j
      refine ⟨i + 1, ?_, by simp [hdrop]⟩
      rw [List.take_succ_cons, List.take_succ_cons, unifyLineEnds_return, htake]
      intro more hmore
      cases text with
      | nil => simp at hmore
      | cons d text =>
        cases i with
        | zero => simp at hmore
        | succ i =>
          rw [List.take_succ_cons, List.cons.injEq] at hmore
          exact hnot text (by rw [hmore.1])
  | other c text hc ih =>
    rw [unifyLineEnds_cons hc]
    cases j with
    | zero => exact ⟨0, by simp, by simp [unifyLineEnds_cons hc]⟩
    | succ j =>
      obtain ⟨i, htake, hdrop⟩ := ih j
      exact ⟨i + 1, by simp [unifyLineEnds_cons hc, htake], by simp [hdrop]⟩

/-- The first character of a text, a carriage return as a line feed. -/
theorem head?_unifyLineEnds (text : List Char) :
    (unifyLineEnds text).head? = text.head?.map fun c => if c = '\r' then '\n' else c := by
  induction text using lineEnds_induction with
  | nil => rfl
  | both text => simp
  | alone text hnot => simp [unifyLineEnds_return hnot]
  | other c text hc => simp [unifyLineEnds_cons hc, hc]

/-- The last character of a text, a carriage return as a line feed. -/
theorem getLast?_unifyLineEnds (text : List Char) :
    (unifyLineEnds text).getLast? = text.getLast?.map fun c => if c = '\r' then '\n' else c := by
  induction text using lineEnds_induction with
  | nil => rfl
  | both text ih =>
    rw [unifyLineEnds_both, List.getLast?_cons, List.getLast?_cons, List.getLast?_cons, ih]
    cases text.getLast? <;> simp
  | alone text hnot ih =>
    rw [unifyLineEnds_return hnot, List.getLast?_cons, List.getLast?_cons, ih]
    cases text.getLast? <;> simp
  | other c text hc ih =>
    rw [unifyLineEnds_cons hc, List.getLast?_cons, List.getLast?_cons, ih]
    cases text.getLast? <;> simp [hc]

end DocRefs
