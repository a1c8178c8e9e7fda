import DocRefs.Text.Fields

/-!
# Runs of a class of characters

A reader takes the longest run of a class from the front of a text. Here: what it takes and what it leaves, when the
text is known to begin with a run that the next character ends. The run at the end of a text (`lastRun`) is what stands
behind the last character that is not in the class.
-/

namespace DocRefs

variable {α : Type} {class? : α → Bool} {run rest text : List α}

/-- A text whose first character, if there is one, is not in a class. -/
def EndsRun (class? : α → Bool) (rest : List α) : Prop :=
  ∀ c ∈ rest.head?, class? c = false

theorem endsRun_cons {c : α} (h : class? c = false) : EndsRun class? (c :: rest) := by
  intro d hd
  simp only [List.head?_cons, Option.mem_def, Option.some.injEq] at hd
  exact hd ▸ h

theorem endsRun_nil : EndsRun class? ([] : List α) := by
  intro d hd
  simp at hd

/-- In front of a text stands a run if it is followed by the end of a run. -/
theorem endsRun_append (hrun : EndsRun class? run) (hrest : run = [] → EndsRun class? rest) :
    EndsRun class? (run ++ rest) := by
  cases run with
  | nil => exact hrest rfl
  | cons c run => exact endsRun_cons (hrun c rfl)

/-- A text that ends a run has none in front. -/
theorem takeWhile_eq_nil (h : EndsRun class? rest) : rest.takeWhile class? = [] := by
  cases rest with
  | nil => rfl
  | cons c rest => simp [h c rfl]

/-- A text that ends a run is left as it is. -/
theorem dropWhile_eq_self (h : EndsRun class? rest) : rest.dropWhile class? = rest := by
  cases rest with
  | nil => rfl
  | cons c rest => simp [h c rfl]

/-- The longest run is the one that is known to stand there. -/
theorem takeWhile_run (hrun : ∀ c ∈ run, class? c = true) (hrest : EndsRun class? rest) :
    (run ++ rest).takeWhile class? = run := by
  rw [List.takeWhile_append_of_pos hrun, takeWhile_eq_nil hrest, List.append_nil]

/-- Behind the longest run is what follows the one that is known to stand there. -/
theorem dropWhile_run (hrun : ∀ c ∈ run, class? c = true) (hrest : EndsRun class? rest) :
    (run ++ rest).dropWhile class? = rest := by
  rw [List.dropWhile_append_of_pos hrun, dropWhile_eq_self hrest]

/-- What is behind the longest run ends it. -/
theorem endsRun_dropWhile : EndsRun class? (text.dropWhile class?) := by
  intro c hc
  cases h : text.dropWhile class? with
  | nil => simp [h] at hc
  | cons d rest =>
    have := List.head?_dropWhile_not class? text
    simp only [h, List.head?_cons, Option.mem_def, Option.some.injEq] at hc this
    subst hc
    simpa using this

/-- Everything in the longest run is of its class. -/
theorem of_mem_takeWhile {c : α} (h : c ∈ text.takeWhile class?) : class? c = true :=
  List.all_eq_true.1 List.all_takeWhile c h

/-! ## The run at the end -/

/-- The longest run of a class at the end of a text. -/
def lastRun (class? : α → Bool) (text : List α) : List α :=
  (text.reverse.takeWhile class?).reverse

/-- A run that is put behind a text makes its last run longer. -/
theorem lastRun_append (text : List α) (hrun : ∀ c ∈ run, class? c = true) :
    lastRun class? (text ++ run) = lastRun class? text ++ run := by
  have hreverse : ∀ c ∈ run.reverse, class? c = true := fun c hc => hrun c (List.mem_reverse.1 hc)
  rw [lastRun, lastRun, List.reverse_append, List.takeWhile_append_of_pos hreverse,
    List.reverse_append, List.reverse_reverse]

/-- Behind a character that is not in the class the last run begins anew. -/
theorem lastRun_append_cons (before : List α) {c : α} (hc : class? c = false) (text : List α) :
    lastRun class? (before ++ c :: text) = lastRun class? text := by
  rw [lastRun, lastRun, List.reverse_append, List.reverse_cons, List.append_assoc, List.takeWhile_append]
  split
  · rename_i hall
    rw [List.singleton_append, List.takeWhile_cons_of_neg (by simp [hc]), List.append_nil,
      (List.takeWhile_prefix class?).eq_of_length hall]
  · rfl

/-- A run that stands behind a character that is not in the class is the last one. -/
theorem lastRun_run (before : List α) {c : α} (hc : class? c = false) (hrun : ∀ d ∈ run, class? d = true) :
    lastRun class? (before ++ c :: run) = run := by
  have hnone : lastRun class? ([] : List α) = [] := rfl
  rw [lastRun_append_cons before hc, ← List.nil_append run, lastRun_append [] hrun, hnone]

/-- The last run is an end of the text. -/
theorem lastRun_suffix (class? : α → Bool) (text : List α) : lastRun class? text <:+ text := by
  rw [← List.reverse_prefix, lastRun, List.reverse_reverse]
  exact List.takeWhile_prefix class?

/-- The last run is part of the text. -/
theorem mem_of_mem_lastRun {c : α} (h : c ∈ lastRun class? text) : c ∈ text :=
  (lastRun_suffix class? text).subset h

/-- Everything in the last run is of its class. -/
theorem of_mem_lastRun {c : α} (h : c ∈ lastRun class? text) : class? c = true :=
  of_mem_takeWhile (List.mem_reverse.1 h)

end DocRefs
