import DocRefs.Proofs.Debouncer
import DocRefs.Proofs.Debouncer.Moves

/-!
# Events come in the order in which they were scheduled

One delay serves all events of a debouncer, so none overtakes another. Where every event only tells something, what is
still to come can be listed (`Debouncer.coming`): scheduling a key puts its event last and takes its earlier one out
(`Debouncer.coming_schedule`), and any stretch of time parts the list into what was told, in that order, and what is
still to come (`Debouncer.Steady.advance`).
-/

namespace DocRefs

variable {κ ε : Type}

/-- Whether a job has yet to begin its wait. -/
def Job.isStart : Job κ ε → Bool
  | .start _ _ _ => true
  | _ => false

namespace Debouncer

/-- The jobs of all tasks in the order in which their events come: first those that have waited, then those that wait,
then those that have yet to begin. -/
def upcoming (d : Debouncer κ ε) : List (Job κ ε) :=
  d.ready.filter (!·.isStart) ++ d.timers.map (·.job) ++ d.ready.filter (·.isStart)

variable [DecidableEq κ]

/-- What a job will tell, and under which key, if its task is the one that waits. -/
def telling? (pending : Assoc κ Nat) : Job κ ε → Option (κ × ε)
  | .start task key [.emit e] => if pending.get? key = some task then some (key, e) else none
  | .fire task key [.emit e] => if pending.get? key = some task then some (key, e) else none
  | _ => none

/-- What is still to come, in order. -/
def coming (d : Debouncer κ ε) : List (κ × ε) :=
  d.upcoming.filterMap (telling? d.pending)

/-- Every timer is that of a job that has begun its wait, and goes off no later than one that is set now. -/
def InTurn (d : Debouncer κ ε) : Prop :=
  ∀ t ∈ d.timers, t.job.isStart = false ∧ d.delay.isPositive = true ∧ t.due.le (d.now + d.delay) = true

/-- Every event tells something, and waits as long as any other. -/
structure Steady (stands : κ → ε → Prop) (d : Debouncer κ ε) : Prop where
  telling : Telling stands d
  registered : Registered d.pending d.tasks d.line
  inTurn : InTurn d
  timed : d.delay.isPositive = true → Timed d

/-- What a debouncer came to and what it told: the first part of what was to come. -/
structure Delivers (stands : κ → ε → Prop) (d : Debouncer κ ε) (done : Debouncer κ ε × List (Emission κ ε)) : Prop where
  steady : Steady stands done.1
  parted : ∃ told : List (κ × ε), done.2 = told.map (.effect ·.2) ∧ d.coming = told ++ done.1.coming

variable {stands : κ → ε → Prop} {d d' d'' : Debouncer κ ε}

/-- Nothing is delivered where the same is still to come. -/
theorem Delivers.nothing (h : Steady stands d') (hcoming : d'.coming = d.coming) : Delivers stands d (d', []) :=
  ⟨h, [], rfl, hcoming.symm⟩

/-- What is told in one stretch and the next is the first part of what was to come. -/
theorem Delivers.trans {out out' : List (Emission κ ε)} (h : Delivers stands d (d', out))
    (h' : Delivers stands d' (d'', out')) : Delivers stands d (d'', out ++ out') := by
  obtain ⟨told, hout, hcoming⟩ := h.parted
  obtain ⟨told', hout', hcoming'⟩ := h'.parted
  refine ⟨h'.steady, told ++ told', ?_, ?_⟩
  · rw [List.map_append, ← hout, ← hout']
  · rw [hcoming, hcoming', List.append_assoc]

/-! ## The order of jobs -/

omit [DecidableEq κ] in
/-- The upcoming jobs are those in the line. -/
theorem upcoming_perm (d : Debouncer κ ε) : d.upcoming.Perm d.line := by
  have hready : (d.ready.filter (·.isStart) ++ d.ready.filter (!·.isStart)).Perm d.ready := List.filter_append_perm _ _
  have hparts : d.upcoming.Perm (d.ready.filter (·.isStart) ++ d.ready.filter (!·.isStart) ++ d.timers.map (·.job)) :=
    List.perm_append_comm.trans (List.append_assoc _ _ _ ▸ .refl _)
  exact hparts.trans (hready.append_right _)

omit [DecidableEq κ] in
/-- Where no job has yet to begin its wait, the events come as their jobs stand in the line. -/
theorem upcoming_eq_line (h : ∀ job ∈ d.ready, job.isStart = false) : d.upcoming = d.line := by
  have hnone : d.ready.filter (·.isStart) = [] := List.filter_eq_nil_iff.2 fun job hjob => by simp [h job hjob]
  have hall : d.ready.filter (!·.isStart) = d.ready := List.filter_eq_self.2 fun job hjob => by simp [h job hjob]
  rw [upcoming, hnone, hall, List.append_nil]
  rfl

omit [DecidableEq κ] in
/-- A ready job that has waited comes first. -/
theorem upcoming_cons {job : Job κ ε} {rest : List (Job κ ε)} (hready : d.ready = job :: rest)
    (hjob : job.isStart = false) : d.upcoming = job :: (d.withReady rest).upcoming := by
  rw [upcoming, hready]
  simp [hjob, upcoming, withReady]

omit [DecidableEq κ] in
/-- The first job that has yet to begin its wait comes behind all that wait. -/
theorem upcoming_start {job : Job κ ε} {rest : List (Job κ ε)} (hready : d.ready = job :: rest)
    (hjob : job.isStart = true) :
    d.upcoming = rest.filter (!·.isStart) ++ d.timers.map (·.job) ++ job :: rest.filter (·.isStart) := by
  rw [upcoming, hready]
  simp [hjob]

omit [DecidableEq κ] in
/-- A timer that goes off no sooner than the others is the last one. -/
theorem insertTimer_of_le {t : Timer κ ε} {ts : List (Timer κ ε)} (h : ∀ u ∈ ts, u.due.le t.due = true) :
    insertTimer t ts = ts ++ [t] := by
  induction ts with
  | nil => rfl
  | cons u us ih =>
    rw [insertTimer, if_pos (h u List.mem_cons_self), ih fun v hv => h v (List.mem_cons_of_mem _ hv)]
    rfl

omit [DecidableEq κ] in
/-- A job that begins its wait stays behind those that wait and before those that have yet to begin. -/
theorem InTurn.upcoming_after (h : InTurn d) {job : Job κ ε} (hjob : job.isStart = false) :
    (d.after d.delay job).upcoming = d.ready.filter (!·.isStart) ++ d.timers.map (·.job) ++ job ::
    d.ready.filter (·.isStart) := by
  rw [after]
  split
  · rw [insertTimer_of_le fun u hu => (h u hu).2.2]
    simp [upcoming]
  · rename_i hnot
    have hnone : d.timers = [] := List.eq_nil_iff_forall_not_mem.2 fun t ht => hnot (h t ht).2.1
    simp [upcoming, hnone, hjob]

omit [DecidableEq κ] in
/-- A job whose wait begins goes off no sooner than those that wait. -/
theorem InTurn.after (h : InTurn d) (htimed : d.delay.isPositive = true → Timed d) {job : Job κ ε}
    (hjob : job.isStart = false) : InTurn (d.after d.delay job) := by
  intro t ht
  rw [after_delay, after_now]
  rw [Debouncer.after] at ht
  split at ht
  · rename_i hpositive
    rcases mem_insertTimer.1 ht with rfl | ht
    · have hnow := (htimed hpositive).now.add (htimed hpositive).delay
      exact ⟨hjob, hpositive, hnow.le_refl⟩
    · exact h t ht
  · exact h t ht

/-! ## Steps -/

/-- A job that tells something is to tell it if its key waits for its task. -/
theorem telling?_of_tells {job : Job κ ε} (h : job.Tells stands) :
    ∃ task key e, stands key e ∧ job.Awaits task key [.emit e] ∧
      ∀ pending : Assoc κ Nat, telling? pending job = if pending.get? key = some task then some (key, e) else none := by
  cases job with
  | start task key actions =>
    obtain ⟨e, he, rfl⟩ := h
    exact ⟨task, key, e, he, .start, fun _ => rfl⟩
  | fire task key actions =>
    obtain ⟨e, he, rfl⟩ := h
    exact ⟨task, key, e, he, .fire, fun _ => rfl⟩
  | resume task key actions => exact h.elim

omit [DecidableEq κ] in
/-- The upcoming jobs tell something. -/
theorem Telling.of_mem_upcoming {job : Job κ ε} (h : Telling stands d)
    (hjob : job ∈ d.upcoming) : job.Tells stands := by
  rcases List.mem_append.1 (d.upcoming_perm.mem_iff.1 hjob) with hjob | hjob
  · exact h.ready job hjob
  · obtain ⟨t, ht, rfl⟩ := List.mem_map.1 hjob
    exact h.timers t ht

/-- A key waits exactly if its event is still to come. -/
theorem Steady.isPending_iff (h : Steady stands d) {key : κ} : d.isPending key = true ↔ ∃ e, (key, e) ∈ d.coming := by
  rw [isPending, Assoc.contains_iff]
  constructor
  · rintro ⟨task, htask⟩
    obtain ⟨actions, job, hjob, hawaits⟩ := h.registered.held key task htask
    have hmem := d.upcoming_perm.mem_iff.2 hjob
    obtain ⟨task', key', e, -, hawaits', htells⟩ := telling?_of_tells (h.telling.of_mem_upcoming hmem)
    obtain ⟨rfl, rfl⟩ : task' = task ∧ key' = key := by cases hawaits <;> cases hawaits' <;> exact ⟨rfl, rfl⟩
    exact ⟨e, List.mem_filterMap.2 ⟨job, hmem, by rw [htells, if_pos htask]⟩⟩
  · rintro ⟨e, he⟩
    obtain ⟨job, hjob, htelling⟩ := List.mem_filterMap.1 he
    obtain ⟨task, key', e', -, -, htells⟩ := telling?_of_tells (h.telling.of_mem_upcoming hjob)
    rw [htells, Option.ite_none_right_eq_some] at htelling
    obtain ⟨hlive, hsame⟩ := htelling
    exact ⟨task, (Prod.mk.inj (Option.some.inj hsame)).1 ▸ hlive⟩

/-- What comes stands for its key. -/
theorem Steady.stands_of_mem (h : Steady stands d) {x : κ × ε} (hx : x ∈ d.coming) : stands x.1 x.2 := by
  obtain ⟨job, hjob, htelling⟩ := List.mem_filterMap.1 hx
  obtain ⟨task, key, e, he, -, htells⟩ := telling?_of_tells (h.telling.of_mem_upcoming hjob)
  rw [htells, Option.ite_none_right_eq_some] at htelling
  rw [← Option.some.inj htelling.2]
  exact he

/-- A key that is scheduled comes last, and once. -/
theorem Steady.coming_schedule (h : Steady stands d) (key : κ) (e : ε) :
    (d.schedule key [.emit e]).coming = d.coming.filter (·.1 ≠ key) ++ [(key, e)] := by
  have hnew : (d.schedule key [.emit e]).upcoming = d.upcoming ++ [.start d.tasks key [.emit e]] := by
    simp [upcoming, schedule, cancel, Job.isStart]
  have hget : ∀ other, (d.schedule key [.emit e]).pending.get? other = if other = key then some d.tasks
      else d.pending.get? other := by
    intro other
    change ((d.pending.erase key).insert key d.tasks).get? other = _
    rw [Assoc.get?_insert, Assoc.get?_erase]
    split <;> rfl
  have hold : ∀ job ∈ d.upcoming, telling? (d.schedule key [.emit e]).pending job =
      (telling? d.pending job).filter (fun x => decide (x.1 ≠ key)) := by
    intro job hjob
    obtain ⟨task, key', e', -, hawaits, htells⟩ := telling?_of_tells (h.telling.of_mem_upcoming hjob)
    have hmade : task < d.tasks := hawaits.task_eq ▸ h.registered.numbered job (d.upcoming_perm.mem_iff.1 hjob)
    rw [htells, htells, hget]
    by_cases hkey : key' = key
    · rw [if_pos hkey, if_neg fun heq => absurd (Option.some.inj heq) (by omega)]
      split <;> simp [Option.filter, hkey]
    · rw [if_neg hkey]
      split <;> simp [Option.filter, hkey]
  rw [coming, hnew, List.filterMap_append, List.filterMap_congr hold, coming, List.filter_filterMap]
  simp [telling?, hget]

/-- A debouncer of which nothing was asked has nothing to come. -/
theorem steady_idle (delay : Binary64) : Steady stands ({ delay } : Debouncer κ ε) := by
  refine ⟨⟨by simp, by simp⟩, ⟨by simp [line], by simp [line], by simp⟩, fun t ht => absurd ht List.not_mem_nil, ?_⟩
  intro hpositive
  exact (sound_idle (Binary64.zero_le_of_isPositive hpositive)).timed

/-- A steady debouncer stays so when an event is scheduled that tells something. -/
theorem Steady.schedule (h : Steady stands d) {key : κ} {e : ε} (he : stands key e) :
    Steady stands (d.schedule key [.emit e]) := by
  have hmove : Move d _ (d.schedule key [.emit e]) := .schedule d key [.emit e]
  exact ⟨h.telling.schedule he, hmove.registered h.registered, h.inTurn,
    fun hpositive => hmove.timed (h.timed hpositive)⟩

/-- After a step of the first job a debouncer is steady if its timers are in turn. -/
theorem Steady.after_step (h : Steady stands d) {job : Job κ ε} {rest : List (Job κ ε)} (hready : d.ready = job :: rest)
    (hinTurn : InTurn ((d.withReady rest).step job).1) : Steady stands ((d.withReady rest).step job).1 := by
  have htelling : Telling stands (d.withReady rest) :=
    ⟨fun other hother => h.telling.ready other (hready ▸ List.mem_cons_of_mem _ hother), h.telling.timers⟩
  have hmoves := step_moves (d.withReady rest) job
  rw [next_withReady hready] at hmoves
  refine ⟨(htelling.step (h.telling.ready job (hready ▸ List.mem_cons_self))).after,
    hmoves.registered h.registered, hinTurn, ?_⟩
  rw [hmoves.delay_eq]
  exact fun hpositive => hmoves.timed (h.timed hpositive)

/-- A job that begins its wait, or is dropped, tells nothing. -/
theorem Steady.step_start (h : Steady stands d) {task : Nat} {key : κ} {e : ε} {rest : List (Job κ ε)}
    (hready : d.ready = .start task key [.emit e] :: rest) :
    Delivers stands d ((d.withReady rest).step (.start task key [.emit e])) := by
  have hinTurn : InTurn (d.withReady rest) := h.inTurn
  have htimed : (d.withReady rest).delay.isPositive = true → Timed (d.withReady rest) := by
    intro hpositive
    obtain ⟨hdelay, hnow, hordered, hahead⟩ := h.timed hpositive
    exact ⟨hdelay, hnow, hordered, hahead⟩
  have hsteady := h.after_step hready
  rw [Debouncer.step] at hsteady ⊢
  split at hsteady
  · rename_i hlive
    rw [if_pos hlive]
    refine .nothing (hsteady (hinTurn.after htimed rfl)) ?_
    rw [coming, coming, after_pending, hinTurn.upcoming_after rfl, upcoming_start hready rfl]
    simp only [List.filterMap_append, List.filterMap_cons]
    rfl
  · rename_i hdead
    rw [if_neg hdead]
    refine .nothing (hsteady hinTurn) ?_
    have hnothing : telling? d.pending (.start task key [.emit e]) = none :=
      if_neg fun hlive => hdead (isLive_iff.2 hlive)
    rw [coming, coming, upcoming_start hready rfl]
    simp only [List.filterMap_append, List.filterMap_cons, hnothing]
    rw [← List.filterMap_append, ← List.filterMap_append]
    rfl

/-- A job whose wait is over tells its event, unless it was dropped. -/
theorem Steady.step_fire (h : Steady stands d) {task : Nat} {key : κ} {e : ε} {rest : List (Job κ ε)}
    (hready : d.ready = .fire task key [.emit e] :: rest) :
    Delivers stands d ((d.withReady rest).step (.fire task key [.emit e])) := by
  have hsteady := h.after_step hready
  have hupcoming := upcoming_cons hready rfl
  rw [Debouncer.step] at hsteady ⊢
  split at hsteady
  · rename_i hlive
    rw [if_pos hlive]
    have hlive : d.pending.get? key = some task := isLive_iff.1 hlive
    refine ⟨hsteady h.inTurn, [(key, e)], rfl, ?_⟩
    have htold : telling? d.pending (.fire task key [.emit e]) = some (key, e) := if_pos hlive
    -- No other job is that of the key's waiting task, so the others tell what they told before.
    have hsame : ∀ other ∈ (d.withReady rest).upcoming,
        telling? d.pending other = telling? (d.pending.erase key) other := by
      intro other hother
      have hmem : other ∈ d.upcoming := hupcoming ▸ List.mem_cons_of_mem _ hother
      obtain ⟨task', key', e', -, hawaits, htells⟩ := telling?_of_tells (h.telling.of_mem_upcoming hmem)
      have hne : task' ≠ task := by
        rintro rfl
        have hdistinct := (h.registered.perm d.upcoming_perm.symm).distinct
        rw [hupcoming, List.map_cons, List.nodup_cons] at hdistinct
        exact hdistinct.1 (List.mem_map.2 ⟨other, hother, hawaits.task_eq⟩)
      rw [htells, htells, Assoc.get?_erase]
      by_cases hkey : key' = key
      · subst hkey
        rw [if_pos rfl, if_neg fun heq => hne (Option.some.inj (heq.symm.trans hlive)), if_neg (by simp)]
      · rw [if_neg hkey]
    rw [coming, hupcoming, List.filterMap_cons, htold, List.filterMap_congr hsame]
    rfl
  · rename_i hdead
    rw [if_neg hdead]
    refine .nothing (hsteady h.inTurn) ?_
    have hnothing : telling? d.pending (.fire task key [.emit e]) = none :=
      if_neg fun hlive => hdead (isLive_iff.2 hlive)
    rw [coming, coming, hupcoming, List.filterMap_cons, hnothing]
    rfl

/-- A step tells the first part of what was to come, and leaves a steady debouncer. -/
theorem Steady.step (h : Steady stands d) {job : Job κ ε} {rest : List (Job κ ε)} (hready : d.ready = job :: rest) :
    Delivers stands d ((d.withReady rest).step job) := by
  have htells := h.telling.ready job (hready ▸ List.mem_cons_self)
  cases job with
  | start task key actions =>
    obtain ⟨e, -, rfl⟩ := htells
    exact h.step_start hready
  | fire task key actions =>
    obtain ⟨e, -, rfl⟩ := htells
    exact h.step_fire hready
  | resume task key actions => exact htells.elim

/-! ## Running -/

/-- The work at hand tells the first part of what is to come. -/
theorem Steady.settle (h : Steady stands d) : Delivers stands d d.settle := by
  fun_induction Debouncer.settle d with
  | case1 d hready => exact .nothing h rfl
  | case2 d job rest hready hlt stepped settled ih =>
    have hstep := h.step hready
    exact Delivers.trans ⟨hstep.steady, hstep.parted⟩ (ih hstep.steady)

/-- What comes stays the same when the first timers go off. -/
theorem Steady.fireFirst (h : Steady stands d) (hready : d.ready = []) {first : Timer κ ε} {others : List (Timer κ ε)}
    (htimers : d.timers = first :: others) :
    Steady stands (d.fireFirst first others) ∧ (d.fireFirst first others).coming = d.coming := by
  have hmove : Move d none (d.fireFirst first others) := .fire hready htimers
  have hinTurn : ∀ t ∈ first :: others, t.job.isStart = false ∧ d.delay.isPositive = true ∧
    t.due.le (d.now + d.delay) = true :=
    htimers ▸ h.inTurn
  have htimed := h.timed (hinTurn first List.mem_cons_self).2.1
  have hfired := hmove.timed htimed
  obtain ⟨hdue, hle⟩ := htimed.ahead first (htimers ▸ List.mem_cons_self)
  have hlater := htimed.now.add_le_add hdue hle htimed.delay
  refine ⟨⟨h.telling.fireFirst htimers, hmove.registered h.registered, ?_, fun _ => hfired⟩, ?_⟩
  · intro t ht
    obtain ⟨hstart, hpositive, hnear⟩ := hinTurn t (List.mem_cons_of_mem _ ((List.dropWhile_suffix _).subset ht))
    exact ⟨hstart, hpositive, Binary64.le_trans hnear hlater⟩
  · have hbegun : ∀ job ∈ (d.fireFirst first others).ready, job.isStart = false := by
      intro job hjob
      change job ∈ d.ready ++ first.job :: (others.takeWhile fun t => t.due.le first.due).map (·.job) at hjob
      rw [hready, List.nil_append] at hjob
      rcases List.mem_cons.1 hjob with rfl | hjob
      · exact (hinTurn first List.mem_cons_self).1
      · obtain ⟨t, ht, rfl⟩ := List.mem_map.1 hjob
        exact (hinTurn t (List.mem_cons_of_mem _ ((List.takeWhile_prefix _).subset ht))).1
    rw [coming, coming, upcoming_eq_line hbegun, upcoming_eq_line (d := d) (by simp [hready]), line_fireFirst htimers]
    rfl

/-- The clock may move on while nothing is due. -/
theorem Steady.tick (h : Steady stands d) (hready : d.ready = []) {instant : Binary64}
    (hforward : d.delay.isPositive = true → instant.IsInstant ∧ d.now.le instant = true)
    (hlater : ∀ t ∈ d.timers, t.due.le instant = false) : Steady stands { d with now := instant } := by
  refine ⟨⟨h.telling.ready, h.telling.timers⟩, h.registered, ?_, ?_⟩
  · intro t ht
    obtain ⟨hstart, hpositive, hnear⟩ := h.inTurn t ht
    obtain ⟨hinstant, hle⟩ := hforward hpositive
    have htimed := h.timed hpositive
    exact ⟨hstart, hpositive, Binary64.le_trans hnear (htimed.now.add_le_add hinstant hle htimed.delay)⟩
  · intro hpositive
    obtain ⟨hinstant, hle⟩ := hforward hpositive
    exact Move.timed (h.timed hpositive) (.tick hready hinstant hle hlater)

/-- A clock that moves to an instant tells the first part of what is to come. -/
theorem Steady.advanceTo (h : Steady stands d) (hready : d.ready = []) {instant : Binary64}
    (hforward : d.delay.isPositive = true → instant.IsInstant ∧ d.now.le instant = true) :
    Delivers stands d (d.advanceTo instant) := by
  fun_induction Debouncer.advanceTo d instant with
  | case1 d htimers => exact .nothing (h.tick hready hforward (by simp [htimers])) rfl
  | case2 d first others htimers hdue hlt fired later ih =>
    obtain ⟨hfired, hcoming⟩ := h.fireFirst hready htimers
    have hsettled := hfired.settle
    have hnow : fired.1.now = first.due := settle_now _
    have hdelay : fired.1.delay = d.delay := (settle_moves _).delay_eq
    have hlater := ih hsettled.steady (settle_ready _) (by
      rw [hnow, hdelay]
      exact fun hpositive => ⟨(hforward hpositive).1, hdue⟩)
    obtain ⟨told, hout, hparted⟩ := hsettled.parted
    exact Delivers.trans ⟨hsettled.steady, told, hout, hcoming ▸ hparted⟩ hlater
  | case3 d first others htimers hdue =>
    have hdue : first.due.le instant = false := Bool.not_eq_true _ ▸ hdue
    have hpositive := (h.inTurn first (htimers ▸ List.mem_cons_self)).2.1
    exact .nothing (h.tick hready hforward ((h.timed hpositive).later htimers hdue)) rfl

/-- A stretch of time parts what is to come into what is told, in that order, and what is still to come. -/
theorem Steady.advance (h : Steady stands d) {seconds : Binary64} (hforward : Binary64.zero.le seconds = true) :
    Delivers stands d (d.advance seconds) := by
  have hsettled := h.settle
  refine hsettled.trans (hsettled.steady.advanceTo (settle_ready d) ?_)
  intro hpositive
  have htimed := hsettled.steady.timed hpositive
  exact ⟨htimed.now.add hforward, htimed.now.le_add hforward⟩

end Debouncer

end DocRefs
