import DocRefs.Assoc

/-!
# What a table holds after an operation

Setting, taking out and keeping entries, each by what a look-up finds afterwards.
-/

namespace DocRefs.Assoc

variable {κ α : Type} [DecidableEq κ]

@[simp]
theorem get?_empty (key : κ) : (Assoc.empty : Assoc κ α).get? key = none := rfl

theorem get?_cons (e : κ × α) (entries : List (κ × α)) (key : κ) :
    (⟨e :: entries⟩ : Assoc κ α).get? key = if e.1 = key then some e.2 else (⟨entries⟩ : Assoc κ α).get? key := by
  by_cases h : e.1 = key <;> simp [get?, h]

theorem contains_iff {t : Assoc κ α} {key : κ} : t.contains key = true ↔ ∃ value, t.get? key = some value := by
  obtain ⟨entries⟩ := t
  induction entries with
  | nil => simp [contains, get?]
  | cons e entries ih =>
    rw [get?_cons]
    by_cases h : e.1 = key
    · simp [contains, h]
    · simpa [contains, h] using ih

/-- Putting a value in place of what a key had. -/
theorem get?_replace (entries : List (κ × α)) (key other : κ) (value : α) :
    (⟨entries.map fun e => if e.1 = key then (key, value) else e⟩ : Assoc κ α).get? other =
      if other = key ∧ (⟨entries⟩ : Assoc κ α).contains key then some value
        else (⟨entries⟩ : Assoc κ α).get? other := by
  induction entries with
  | nil => simp [contains, get?]
  | cons e entries ih =>
    rw [List.map_cons, get?_cons, get?_cons, ih]
    by_cases he : e.1 = key
    · by_cases ho : other = key
      · simp [contains, he, ho]
      · simp [he, ho, Ne.symm ho]
    · have hcontains : (⟨e :: entries⟩ : Assoc κ α).contains key = (⟨entries⟩ : Assoc κ α).contains key := by
        simp [contains, he]
      rw [hcontains, if_neg he]
      by_cases heo : e.1 = other
      · have ho : ¬ other = key := fun h => he (heo.trans h)
        simp [heo, ho]
      · simp [heo]

/-- A key that is set has its value, and every other key what it had. -/
theorem get?_insert (t : Assoc κ α) (key other : κ) (value : α) :
    (t.insert key value).get? other = if other = key then some value else t.get? other := by
  obtain ⟨entries⟩ := t
  unfold insert
  split
  · rename_i hin
    rw [get?_replace]
    simp [hin]
  · rename_i hnot
    have hnone : ∀ v, (⟨entries⟩ : Assoc κ α).get? key ≠ some v := fun v hv => hnot (contains_iff.2 ⟨v, hv⟩)
    have happend : (⟨entries ++ [(key, value)]⟩ : Assoc κ α).get? other =
        ((⟨entries⟩ : Assoc κ α).get? other).or ((⟨[(key, value)]⟩ : Assoc κ α).get? other) := by
      simp [get?, List.find?_append, Option.map_or]
    rw [happend, get?_cons]
    by_cases ho : other = key
    · simp [ho, Option.eq_none_iff_forall_ne_some.2 hnone]
    · simp [ho, Ne.symm ho, get?]

/-- Keeping the entries of some keys leaves those keys as they were, and nothing else. -/
theorem get?_filter (t : Assoc κ α) (keep : κ → Bool) (key : κ) :
    (⟨t.entries.filter fun e => keep e.1⟩ : Assoc κ α).get? key = if keep key then t.get? key else none := by
  obtain ⟨entries⟩ := t
  simp only [get?, List.find?_filter]
  split
  · rename_i hk
    congr 2
    funext e
    by_cases he : e.1 = key
    · simp [he, hk]
    · simp [he]
  · rename_i hk
    simp only [Option.map_eq_none_iff, List.find?_eq_none, decide_eq_true_eq, not_and]
    rintro e - he rfl
    exact hk he

/-- A key that is taken out has no value, and every other key what it had. -/
theorem get?_erase (t : Assoc κ α) (key other : κ) :
    (t.erase key).get? other = if other = key then none else t.get? other := by
  have h := get?_filter t (fun k => decide (k ≠ key)) other
  rw [erase, h]
  by_cases ho : other = key <;> simp [ho]

/-- The keys of a table stay apart when one is set. -/
theorem nodup_keys_insert {t : Assoc κ α} (h : t.keys.Nodup) (key : κ) (value : α) :
    (t.insert key value).keys.Nodup := by
  unfold insert
  split
  · have hsame : (t.entries.map fun e => if e.1 = key then (key, value) else e).map (·.1) = t.keys := by
      rw [keys, List.map_map]
      refine List.map_congr_left fun e _ => ?_
      by_cases he : e.1 = key <;> simp [he]
    rw [keys, hsame]
    exact h
  · rename_i hnew
    rw [keys, List.map_append, List.nodup_append]
    refine ⟨h, by simp, ?_⟩
    intro k hk k' hk' hkk
    obtain ⟨e, he, rfl⟩ := List.mem_map.1 hk
    obtain rfl : k' = key := by simpa using hk'
    exact hnew (List.any_eq_true.2 ⟨e, he, decide_eq_true hkk⟩)

/-- Where the keys are apart, a key has the value that it is listed with. -/
theorem get?_eq_some_iff {t : Assoc κ α} (h : t.keys.Nodup) {key : κ} {value : α} :
    t.get? key = some value ↔ (key, value) ∈ t.entries := by
  obtain ⟨entries⟩ := t
  induction entries with
  | nil => simp [get?]
  | cons e entries ih =>
    obtain ⟨hnew, hrest⟩ := List.nodup_cons.1 h
    rw [get?_cons, List.mem_cons]
    by_cases he : e.1 = key
    · have hother : (key, value) ∉ entries := fun hin => hnew (List.mem_map.2 ⟨_, hin, he.symm⟩)
      simp only [if_pos he, Option.some.injEq, hother, or_false]
      exact ⟨fun hvalue => by rw [← he, ← hvalue], fun hpair => by rw [← hpair]⟩
    · rw [if_neg he, ih hrest]
      refine ⟨.inr, fun hin => hin.resolve_left ?_⟩
      rintro rfl
      exact he rfl

/-- Setting a key to the value that it has changes nothing. -/
theorem insert_eq_self {t : Assoc κ α} (h : t.keys.Nodup) {key : κ} {value : α} (hvalue : t.get? key = some value) :
    t.insert key value = t := by
  have hsame : ∀ e ∈ t.entries, (if e.1 = key then (key, value) else e) = e := by
    intro e he
    split
    · rename_i hkey
      have hentry : t.get? key = some e.2 := (get?_eq_some_iff h).2 (hkey ▸ he)
      rw [← hkey, Option.some.inj (hvalue.symm.trans hentry)]
    · rfl
  rw [insert, if_pos (contains_iff.2 ⟨value, hvalue⟩)]
  exact congrArg mk ((List.map_congr_left hsame).trans (List.map_id _))

/-- Taking out a key that is not there changes nothing. -/
theorem erase_eq_self {t : Assoc κ α} {key : κ} (h : t.get? key = none) : t.erase key = t := by
  refine congrArg mk (List.filter_eq_self.2 fun e he => decide_eq_true ?_)
  rintro rfl
  obtain ⟨value, hvalue⟩ := contains_iff.1 (List.any_eq_true.2 ⟨e, he, decide_eq_true rfl⟩)
  rw [h] at hvalue
  simp at hvalue

/-- The keys of a table stay apart when one is taken out. -/
theorem nodup_keys_erase {t : Assoc κ α} (h : t.keys.Nodup) (key : κ) : (t.erase key).keys.Nodup :=
  h.sublist (List.filter_sublist.map _)

/-- Setting several keys to one value. -/
theorem get?_foldl_insert (keys : List κ) (value : α) (t : Assoc κ α) (key : κ) :
    (keys.foldl (fun t k => t.insert k value) t).get? key = if key ∈ keys then some value else t.get? key := by
  induction keys generalizing t with
  | nil => simp
  | cons k keys ih =>
    rw [List.foldl_cons, ih, get?_insert]
    by_cases hmem : key ∈ keys
    · simp [hmem]
    · by_cases hk : key = k <;> simp [hk, hmem]

end DocRefs.Assoc
