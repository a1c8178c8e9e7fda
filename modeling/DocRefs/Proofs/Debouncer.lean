import DocRefs.Debouncer
import DocRefs.Proofs.Assoc

/-!
# A waiting event is not lost

In a debouncer whose events only tell something (`Debouncer.Telling`), a key that waits still waits after any stretch of
time, or what its event tells has been told (`Debouncer.Brings`). This holds of one step, of the work at hand, and of a
clock that moves.
-/

namespace DocRefs

/-- The job of a task whose event tells something that its key stands for. -/
def Job.Tells {κ ε : Type} (stands : κ → ε → Prop) : Job κ ε → Prop
  | .start _ key actions => ∃ e, stands key e ∧ actions = [.emit e]
  | .fire _ key actions => ∃ e, stands key e ∧ actions = [.emit e]
  | .resume _ _ _ => False

namespace Debouncer

variable {κ ε : Type} {stands : κ → ε → Prop}

/-- Every event that is under way tells something that its key stands for. -/
structure Telling (stands : κ → ε → Prop) (d : Debouncer κ ε) : Prop where
  ready : ∀ job ∈ d.ready, job.Tells stands
  timers : ∀ t ∈ d.timers, t.job.Tells stands

/-- A timer that is set is one timer more, in its place. -/
theorem insertTimer_perm (t : Timer κ ε) (ts : List (Timer κ ε)) : (insertTimer t ts).Perm (t :: ts) := by
  induction ts with
  | nil => exact .refl _
  | cons u us ih =>
    rw [insertTimer]
    split
    · exact (ih.cons u).trans (.swap t u us)
    · exact .refl _

theorem mem_insertTimer {t u : Timer κ ε} {ts : List (Timer κ ε)} : u ∈ insertTimer t ts ↔ u = t ∨ u ∈ ts :=
  (insertTimer_perm t ts).mem_iff.trans List.mem_cons

/-- A job that is put off tells something still. -/
theorem Telling.after {d : Debouncer κ ε} (h : Telling stands d) {job : Job κ ε}
    (hjob : job.Tells stands) (seconds : Binary64) : Telling stands (d.after seconds job) := by
  unfold Debouncer.after
  split
  · refine ⟨h.ready, ?_⟩
    intro t ht
    rcases mem_insertTimer.1 ht with rfl | ht
    · exact hjob
    · exact h.timers t ht
  · refine ⟨?_, h.timers⟩
    intro j hj
    rcases List.mem_append.1 hj with hj | hj
    · exact h.ready j hj
    · exact List.mem_singleton.1 hj ▸ hjob

/-- A timer that fires leaves events that tell something. -/
theorem Telling.fireFirst {d : Debouncer κ ε} (h : Telling stands d) {first : Timer κ ε} {others : List (Timer κ ε)}
    (htimers : d.timers = first :: others) : Telling stands (d.fireFirst first others) := by
  have hall : ∀ t ∈ first :: others, t.job.Tells stands := htimers ▸ h.timers
  refine ⟨?_, ?_⟩
  · intro job hjob
    rcases List.mem_append.1 hjob with hjob | hjob
    · exact h.ready job hjob
    · rcases List.mem_cons.1 hjob with rfl | hjob
      · exact hall first List.mem_cons_self
      · obtain ⟨t, ht, rfl⟩ := List.mem_map.1 hjob
        exact hall t (List.mem_cons_of_mem _ ((List.takeWhile_prefix _).subset ht))
  · intro t ht
    exact hall t (List.mem_cons_of_mem _ ((List.dropWhile_suffix _).subset ht))

variable [DecidableEq κ]

/-- An event that tells something can be scheduled. -/
theorem Telling.schedule {d : Debouncer κ ε} (h : Telling stands d) {key : κ} {e : ε} (he : stands key e) :
    Telling stands (d.schedule key [.emit e]) := by
  refine ⟨?_, h.timers⟩
  intro job hjob
  rcases List.mem_append.1 hjob with hjob | hjob
  · exact h.ready job hjob
  · rw [List.mem_singleton.1 hjob]
    exact ⟨e, he, rfl⟩

/-- A key that is scheduled waits, and so does every key that waited. -/
theorem isPending_schedule (d : Debouncer κ ε) (key other : κ) (actions : List (Action κ ε)) :
    (d.schedule key actions).isPending other = true ↔ other = key ∨ d.isPending other = true := by
  change ((d.pending.erase key).insert key d.tasks).contains other = true ↔ _
  rw [isPending, Assoc.contains_iff, Assoc.contains_iff, Assoc.get?_insert, Assoc.get?_erase]
  by_cases h : other = key <;> simp [h]

/-- What a debouncer came to and what it told: every key that waited still waits, or what it stands for was told. -/
structure Brings (stands : κ → ε → Prop) (d : Debouncer κ ε) (done : Debouncer κ ε × List (Emission κ ε)) : Prop where
  after : Telling stands done.1
  told : ∀ x ∈ done.2, ∃ key e, stands key e ∧ x = .effect e
  kept : ∀ key, d.isPending key = true → done.1.isPending key = true ∨ ∃ e, stands key e ∧ .effect e ∈ done.2

/-- Where nothing is told and the same keys wait, none is lost. -/
theorem Brings.nothing {d d' : Debouncer κ ε} (h : Telling stands d') (hpending : d'.pending = d.pending) :
    Brings stands d (d', []) :=
  ⟨h, by simp, fun key hkey => .inl (by rwa [isPending, hpending])⟩

/-- What loses no key in one stretch and none in the next loses none in both. -/
theorem Brings.trans {d d' d'' : Debouncer κ ε} {out out' : List (Emission κ ε)} (h : Brings stands d (d', out))
    (h' : Brings stands d' (d'', out')) : Brings stands d (d'', out ++ out') := by
  refine ⟨h'.after, ?_, ?_⟩
  · intro x hx
    rcases List.mem_append.1 hx with hx | hx
    · exact h.told x hx
    · exact h'.told x hx
  · intro key hkey
    rcases h.kept key hkey with hkey | ⟨e, he, hout⟩
    · rcases h'.kept key hkey with hkey | ⟨e, he, hout⟩
      · exact .inl hkey
      · exact .inr ⟨e, he, List.mem_append_right _ hout⟩
    · exact .inr ⟨e, he, List.mem_append_left _ hout⟩

/-- One step of a task tells what a key stands for before it takes the key from those that wait. -/
theorem Telling.step {d : Debouncer κ ε} (h : Telling stands d) {job : Job κ ε} (hjob : job.Tells stands) :
    Brings stands d (d.step job) := by
  cases job with
  | start task key actions =>
    rw [Debouncer.step]
    split
    · refine .nothing (h.after ?_ _) ?_
      · exact hjob
      · unfold Debouncer.after
        split <;> rfl
    · exact .nothing h rfl
  | fire task key actions =>
    obtain ⟨e, he, rfl⟩ := hjob
    rw [Debouncer.step]
    split
    · refine ⟨⟨h.ready, h.timers⟩, ?_, ?_⟩
      · intro x hx
        exact ⟨key, e, he, List.mem_singleton.1 hx⟩
      · intro other hother
        by_cases hkey : other = key
        · subst hkey
          exact .inr ⟨e, he, List.mem_singleton.2 rfl⟩
        · refine .inl ?_
          change (d.pending.erase key).contains other = true
          rw [isPending, Assoc.contains_iff] at hother
          rwa [Assoc.contains_iff, Assoc.get?_erase, if_neg hkey]
    · exact .nothing h rfl
  | resume task key actions => exact hjob.elim

/-- The work at hand loses no key that waits. -/
theorem Telling.settle {d : Debouncer κ ε} (h : Telling stands d) : Brings stands d d.settle := by
  fun_induction Debouncer.settle d with
  | case1 d hready => exact .nothing h rfl
  | case2 d job rest hready hlt stepped settled ih =>
    have hrest : Telling stands (d.withReady rest) :=
      ⟨fun j hj => h.ready j (hready ▸ List.mem_cons_of_mem _ hj), h.timers⟩
    have hstep := hrest.step (h.ready job (hready ▸ List.mem_cons_self))
    exact Brings.trans ⟨hstep.after, hstep.told, hstep.kept⟩ (ih hstep.after)

/-- A clock that moves to an instant loses no key that waits. -/
theorem Telling.advanceTo {d : Debouncer κ ε} (h : Telling stands d) (instant : Binary64) :
    Brings stands d (d.advanceTo instant) := by
  fun_induction Debouncer.advanceTo d instant with
  | case1 d htimers => exact .nothing ⟨h.ready, h.timers⟩ rfl
  | case2 d first others htimers hdue hlt fired later ih =>
    have hfired := (h.fireFirst htimers).settle
    exact Brings.trans ⟨hfired.after, hfired.told, hfired.kept⟩ (ih hfired.after)
  | case3 d first others htimers hdue => exact .nothing ⟨h.ready, h.timers⟩ rfl

/-- A stretch of time loses no key that waits. -/
theorem Telling.advance {d : Debouncer κ ε} (h : Telling stands d) (seconds : Binary64) :
    Brings stands d (d.advance seconds) := by
  have hsettled := h.settle
  exact hsettled.trans (hsettled.after.advanceTo _)

end Debouncer

end DocRefs
