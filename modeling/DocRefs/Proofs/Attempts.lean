import Mathlib.Data.List.Forall2

/-!
# Doing something to every member of a list

Each member of a list is worked on in order, and the work on any of them may fail. The whole succeeds when the work on
every member does, and its result is the list of the results.
-/

namespace DocRefs

variable {ε α β γ : Type} {f : α → Except ε β}

/-- Two steps succeed when the first does and the second does with its result. -/
theorem bind_eq_ok_iff {x : Except ε α} {y : β} : x >>= f = .ok y ↔ ∃ a, x = .ok a ∧ f a = .ok y := by
  cases x <;> simp [bind, Except.bind]

/-- Naming the cause of a failure does not touch a result. -/
theorem mapError_eq_ok_iff {ε ε' α : Type} {x : Except ε α} {g : ε → ε'} {a : α} :
    x.mapError g = .ok a ↔ x = .ok a := by
  cases x <;> simp [Except.mapError]

/-- Two steps fail when the first does, or the second does with its result. -/
theorem bind_isError_iff {x : Except ε α} :
    (∃ e, x >>= f = .error e) ↔ (∃ e, x = .error e) ∨ ∃ a, x = .ok a ∧ ∃ e, f a = .error e := by
  cases x <;> simp [bind, Except.bind]

/-- The work on a list succeeds when the work on each member does, and gives the results in order. -/
theorem mapM_eq_ok_iff {xs : List α} {ys : List β} :
    xs.mapM f = .ok ys ↔ List.Forall₂ (fun x y => f x = .ok y) xs ys := by
  induction xs generalizing ys with
  | nil => simp [pure, Except.pure, eq_comm]
  | cons x xs ih =>
    rw [List.mapM_cons, List.forall₂_cons_left_iff]
    cases hx : f x with
    | error e => simp [bind, Except.bind]
    | ok y =>
      simp only [Except.ok.injEq, ← ih]
      cases hxs : xs.mapM f with
      | error e => simp [bind, Except.bind]
      | ok zs =>
        simp only [bind, Except.bind, pure, Except.pure, Except.ok.injEq]
        constructor
        · rintro rfl
          exact ⟨y, zs, rfl, rfl, rfl⟩
        · rintro ⟨_, _, rfl, rfl, rfl⟩
          rfl

/-- Every result comes from a member. -/
theorem exists_of_mem_mapM {xs : List α} {ys : List β} (h : xs.mapM f = .ok ys) {y : β} (hy : y ∈ ys) :
    ∃ x ∈ xs, f x = .ok y := by
  induction mapM_eq_ok_iff.1 h with
  | nil => simp at hy
  | cons hx hxs ih =>
    rcases List.mem_cons.1 hy with rfl | hy
    · exact ⟨_, by simp, hx⟩
    · obtain ⟨x, hmem, hx⟩ := ih (mapM_eq_ok_iff.2 hxs) hy
      exact ⟨x, by simp [hmem], hx⟩

/-- What each result shows of its member, the results show of the members, in order. -/
theorem map_eq_of_mapM {xs : List α} {ys : List β} (h : xs.mapM f = .ok ys) {k : β → γ} {g : α → γ}
    (hf : ∀ x y, f x = .ok y → k y = g x) : ys.map k = xs.map g := by
  induction mapM_eq_ok_iff.1 h with
  | nil => rfl
  | cons hx hxs ih => rw [List.map_cons, List.map_cons, hf _ _ hx, ih (mapM_eq_ok_iff.2 hxs)]

/-- Where the work on each image of a member gives the image of the result, the work on the images gives the images of
the results. -/
theorem mapM_map_eq {α' β' : Type} {g : α' → Except ε β'} {k : α → α'} {h : β → β'} {xs : List α}
    (hstep : ∀ x ∈ xs, g (k x) = (f x).map h) : (xs.map k).mapM g = (xs.mapM f).map (List.map h) := by
  induction xs with
  | nil => rfl
  | cons x xs ih =>
    rw [List.map_cons, List.mapM_cons, List.mapM_cons, hstep x List.mem_cons_self,
      ih fun y hy => hstep y (List.mem_cons_of_mem x hy)]
    cases f x with
    | error e => rfl
    | ok y => cases xs.mapM f <;> rfl

/-- The last result comes from the last member. -/
theorem getLast?_of_mapM {xs : List α} {ys : List β} (h : xs.mapM f = .ok ys) {x : α} (hx : xs.getLast? = some x) :
    ∃ y, ys.getLast? = some y ∧ f x = .ok y := by
  induction mapM_eq_ok_iff.1 h with
  | nil => simp at hx
  | @cons a b xs ys hab hrest ih =>
    cases hrest with
    | nil =>
      obtain rfl := Option.some.inj hx
      exact ⟨b, rfl, hab⟩
    | cons hab' hrest' =>
      rw [List.getLast?_cons_cons] at hx ⊢
      exact ih (mapM_eq_ok_iff.2 (.cons hab' hrest')) hx

/-- The work on a list fails when the work on some member does. -/
theorem mapM_isError_iff {xs : List α} : (∃ e, xs.mapM f = .error e) ↔ ∃ x ∈ xs, ∃ e, f x = .error e := by
  induction xs with
  | nil => simp [pure, Except.pure]
  | cons x xs ih =>
    rw [List.mapM_cons]
    cases hx : f x with
    | error e => simp [bind, Except.bind, hx]
    | ok y =>
      simp only [List.mem_cons, exists_eq_or_imp, hx, reduceCtorEq, exists_false, false_or, ← ih]
      cases hxs : xs.mapM f <;> simp [bind, Except.bind, pure, Except.pure]

end DocRefs
