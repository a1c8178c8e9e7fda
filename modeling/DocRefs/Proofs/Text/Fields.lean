import DocRefs.Text.Fields

/-!
# Cutting a text at a separator

The pieces of a text are those of the library's `List.splitOn` (`fields_eq_splitOn`), so that joined pieces are cut into
the same pieces again (`fields_intercalate`). No piece holds the separator (`notMem_of_mem_fields`).
-/

namespace DocRefs

variable {separator : Char} {text : List Char}

/-- Every text has a field. -/
theorem fields_ne_nil (separator : Char) (text : List Char) : fields separator text ≠ [] := by
  fun_cases fields separator text <;> simp_all

/-- A text is cut at its first character, or that character belongs to the first piece. -/
theorem fields_cons (separator c : Char) (text : List Char) :
    fields separator (c :: text) =
      if c = separator then [] :: fields separator text else (fields separator text).modifyHead (c :: ·) := by
  rw [fields]
  split
  · rfl
  · split
    · rename_i h
      exact absurd h (fields_ne_nil separator text)
    · rename_i h
      rw [h, List.modifyHead_cons]

/-- A text is cut as the library cuts a list. -/
theorem fields_eq_splitOn (separator : Char) (text : List Char) : fields separator text = text.splitOn separator := by
  induction text with
  | nil => rfl
  | cons c text ih =>
    rw [fields_cons, List.splitOn_cons_eq_if_modifyHead, ih]
    simp only [beq_iff_eq]

/-- A text without the separator is one piece. -/
theorem fields_of_notMem (h : separator ∉ text) : fields separator text = [text] := by
  rw [fields_eq_splitOn, List.splitOn_eq_singleton h]

/-- A text is cut at every separator, so in particular at a given one. -/
theorem fields_append_cons (separator : Char) (before after : List Char) :
    fields separator (before ++ separator :: after) = fields separator before ++ fields separator after := by
  simp only [fields_eq_splitOn, List.splitOn_append_cons_self]

/-- No piece holds the separator. -/
theorem notMem_of_mem_fields {field : List Char} (h : field ∈ fields separator text) : separator ∉ field := by
  induction text generalizing field with
  | nil => simp_all [fields]
  | cons c text ih =>
    rw [fields_cons] at h
    split at h
    · rcases List.mem_cons.1 h with rfl | h
      · simp
      · exact ih h
    · rename_i hc
      obtain ⟨f, fs, hfields⟩ := List.exists_cons_of_ne_nil (fields_ne_nil separator text)
      rw [hfields, List.modifyHead_cons] at h
      rcases List.mem_cons.1 h with rfl | h
      · have hf := ih (hfields ▸ List.mem_cons_self)
        simp [hf, Ne.symm hc]
      · exact ih (hfields ▸ List.mem_cons_of_mem _ h)

/-- Joined pieces are cut into the same pieces again. -/
theorem fields_intercalate {pieces : List (List Char)} (hne : pieces ≠ []) (h : ∀ f ∈ pieces, separator ∉ f) :
    fields separator (List.intercalate [separator] pieces) = pieces := by
  rw [fields_eq_splitOn, List.splitOn_intercalate separator h hne]

end DocRefs
