import DocRefs.Proofs.Debouncer
import DocRefs.Proofs.Debouncer.Journal
import DocRefs.Proofs.Number.Binary64

/-!
# What a debouncer may do next

Whatever is asked of a debouncer, it goes on in small steps (`Debouncer.Move`): a task is made or dropped, the first job
of the queue is dealt with, or the clock moves on because the queue is empty. Every run is made of such moves, with the
journal as the record of their deeds (`Debouncer.journal_moves`). So what each move keeps holds throughout a run: each
task has one job, each task that waits has one that still waits, and no timer is overdue (`Debouncer.Sound`).
-/

namespace DocRefs

variable {κ ε : Type}

/-- The task that a job belongs to. -/
def Job.task : Job κ ε → Nat
  | .start task _ _ => task
  | .fire task _ _ => task
  | .resume task _ _ => task

/-- A job of a task whose event has not begun. -/
inductive Job.Awaits (task : Nat) (key : κ) (actions : List (Action κ ε)) : Job κ ε → Prop
  | start : Awaits task key actions (.start task key actions)
  | fire : Awaits task key actions (.fire task key actions)

theorem Job.Awaits.task_eq {task : Nat} {key : κ} {actions : List (Action κ ε)} {job : Job κ ε}
    (h : job.Awaits task key actions) : job.task = task := by
  cases h <;> rfl

/-- A task that has begun awaits nothing. -/
theorem Job.not_awaits_resume {task task' : Nat} {key key' : κ} {actions actions' : List (Action κ ε)} :
    ¬ (Job.resume task' key' actions').Awaits task key actions := by
  rintro ⟨⟩

/-- Whether an event goes straight on behind an action. -/
def Action.goesOn : Action κ ε → Bool
  | .fail => false
  | .sleep _ => false
  | _ => true

namespace Debouncer

/-- The jobs of all tasks, those that wait for nothing first. -/
def line (d : Debouncer κ ε) : List (Job κ ε) :=
  d.ready ++ d.timers.map (·.job)

variable [DecidableEq κ]

/-- A step that a debouncer may take, with what it does. -/
inductive Move : Debouncer κ ε → Option (Deed κ ε) → Debouncer κ ε → Prop
  | schedule (d : Debouncer κ ε) (key : κ) (actions : List (Action κ ε)) :
      Move d (some (.scheduled d.tasks key actions)) (d.schedule key actions)
  | cancel (d : Debouncer κ ε) (key : κ) : Move d (some (.cancelled key)) (d.cancel key)
  | cancelAll (d : Debouncer κ ε) : Move d (some .cancelledAll) d.cancelAll
  | wait {d : Debouncer κ ε} {task : Nat} {key : κ} {actions : List (Action κ ε)} {rest : List (Job κ ε)}
      (hready : d.ready = .start task key actions :: rest) (hlive : d.isLive task key = true) :
      Move d none ((d.withReady rest).after d.delay (.fire task key actions))
  | drop {d : Debouncer κ ε} {job : Job κ ε} {task : Nat} {key : κ}
      {actions : List (Action κ ε)} {rest : List (Job κ ε)}
      (hready : d.ready = job :: rest) (hjob : job.Awaits task key actions) (hdead : d.isLive task key = false) :
      Move d none (d.withReady rest)
  | begins {d : Debouncer κ ε} {task : Nat} {key : κ} {actions : List (Action κ ε)} {rest : List (Job κ ε)}
      (hready : d.ready = .fire task key actions :: rest) (hlive : d.isLive task key = true) :
      Move d (some (.began task key actions)) (((d.withReady rest).cancel key).next (.resume task key actions))
  | act {d : Debouncer κ ε} {task : Nat} {key : κ} {action : Action κ ε}
      {actions : List (Action κ ε)} {rest : List (Job κ ε)}
      (hready : d.ready = .resume task key (action :: actions) :: rest) (hgoes : action.goesOn = true) :
      Move d (some (.did task key action)) ((d.withReady rest).next (.resume task key actions))
  | fail {d : Debouncer κ ε} {task : Nat} {key : κ} {actions : List (Action κ ε)} {rest : List (Job κ ε)}
      (hready : d.ready = .resume task key (.fail :: actions) :: rest) :
      Move d (some (.did task key .fail)) (d.withReady rest)
  | sleep {d : Debouncer κ ε} {task : Nat} {key : κ} {seconds : Binary64}
      {actions : List (Action κ ε)} {rest : List (Job κ ε)}
      (hready : d.ready = .resume task key (.sleep seconds :: actions) :: rest) :
      Move d (some (.did task key (.sleep seconds))) ((d.withReady rest).after seconds (.resume task key actions))
  | finish {d : Debouncer κ ε} {task : Nat} {key : κ} {rest : List (Job κ ε)}
      (hready : d.ready = .resume task key [] :: rest) : Move d none (d.withReady rest)
  | fire {d : Debouncer κ ε} {first : Timer κ ε} {others : List (Timer κ ε)} (hready : d.ready = [])
      (htimers : d.timers = first :: others) : Move d none (d.fireFirst first others)
  | tick {d : Debouncer κ ε} {instant : Binary64} (hready : d.ready = []) (hinstant : instant.IsInstant)
      (hforward : d.now.le instant = true) (hlater : ∀ t ∈ d.timers, t.due.le instant = false) :
      Move d none { d with now := instant }

/-- Several moves, with the journal of their deeds. -/
inductive Moves : Debouncer κ ε → List (Entry κ ε) → Debouncer κ ε → Prop
  | nil (d : Debouncer κ ε) : Moves d [] d
  | silent {d d' d'' : Debouncer κ ε} {log : List (Entry κ ε)} (h : Move d none d')
      (hs : Moves d' log d'') : Moves d log d''
  | deed {d d' d'' : Debouncer κ ε} {deed : Deed κ ε} {log : List (Entry κ ε)} (h : Move d (some deed) d')
      (hs : Moves d' log d'') : Moves d (⟨deed, d'⟩ :: log) d''

/-- Moves go on where others ended. -/
theorem Moves.append {d d' d'' : Debouncer κ ε} {log more : List (Entry κ ε)} (h : Moves d log d')
    (hmore : Moves d' more d'') : Moves d (log ++ more) d'' := by
  induction h with
  | nil => exact hmore
  | silent h _ ih => exact .silent h (ih hmore)
  | deed h _ ih => exact .deed h (ih hmore)

/-! ## What every move keeps -/

/-- Each task has one job, and each task that waits for a key has one that has not begun. -/
structure Registered (pending : Assoc κ Nat) (tasks : Nat) (line : List (Job κ ε)) : Prop where
  numbered : ∀ job ∈ line, job.task < tasks
  distinct : (line.map Job.task).Nodup
  held : ∀ key task, pending.get? key = some task → ∃ actions, ∃ job ∈ line, job.Awaits task key actions

/-- The timers are in order and none is overdue. -/
structure Timed (d : Debouncer κ ε) : Prop where
  delay : Binary64.zero.le d.delay = true
  now : d.now.IsInstant
  ordered : d.timers.Pairwise fun t u => t.due.le u.due = true
  ahead : ∀ t ∈ d.timers, t.due.IsInstant ∧ d.now.le t.due = true

/-- What holds of a debouncer throughout a run. -/
structure Sound (d : Debouncer κ ε) : Prop where
  registered : Registered d.pending d.tasks d.line
  timed : Timed d

section Registered

variable {pending : Assoc κ Nat} {tasks task : Nat} {key : κ} {actions : List (Action κ ε)}
  {line line' : List (Job κ ε)} {job job' : Job κ ε}

/-- Whether a line is registered does not depend on its order. -/
theorem Registered.perm (h : Registered pending tasks line) (hperm : line.Perm line') :
    Registered pending tasks line' := by
  refine ⟨fun job hjob => h.numbered job (hperm.mem_iff.2 hjob), (hperm.map Job.task).nodup_iff.1 h.distinct, ?_⟩
  intro key task hpending
  obtain ⟨actions, job, hjob, hawaits⟩ := h.held key task hpending
  exact ⟨actions, job, hperm.mem_iff.1 hjob, hawaits⟩

/-- A task has one job only. -/
theorem Registered.eq_of_task_eq (h : Registered pending tasks line) (hjob : job ∈ line) (hjob' : job' ∈ line)
    (htask : job.task = job'.task) : job = job' :=
  List.inj_on_of_nodup_map h.distinct hjob hjob' htask

/-- Another job of the same task takes the place of the first one. It still awaits what that one awaited, if the task
still waits. -/
theorem Registered.replace (h : Registered pending tasks (job :: line)) (htask : job'.task = job.task)
    (hstill : ∀ key task actions, job.Awaits task key actions → pending.get? key = some task →
      job'.Awaits task key actions) :
    Registered pending tasks (job' :: line) := by
  refine ⟨?_, ?_, ?_⟩
  · intro other hother
    rcases List.mem_cons.1 hother with rfl | hother
    · exact htask ▸ h.numbered job List.mem_cons_self
    · exact h.numbered other (List.mem_cons_of_mem _ hother)
  · rw [List.map_cons, htask, ← List.map_cons]
    exact h.distinct
  · intro key task hpending
    obtain ⟨actions, other, hother, hawaits⟩ := h.held key task hpending
    rcases List.mem_cons.1 hother with rfl | hother
    · exact ⟨actions, job', List.mem_cons_self, hstill key task actions hawaits hpending⟩
    · exact ⟨actions, other, List.mem_cons_of_mem _ hother, hawaits⟩

/-- The job of a task that does not wait may go. -/
theorem Registered.remove (h : Registered pending tasks (job :: line))
    (hdead : ∀ key task actions, job.Awaits task key actions → pending.get? key ≠ some task) :
    Registered pending tasks line := by
  refine ⟨fun other hother => h.numbered other (List.mem_cons_of_mem _ hother), (List.nodup_cons.1 h.distinct).2, ?_⟩
  intro key task hpending
  obtain ⟨actions, other, hother, hawaits⟩ := h.held key task hpending
  rcases List.mem_cons.1 hother with rfl | hother
  · exact absurd hpending (hdead key task actions hawaits)
  · exact ⟨actions, other, hother, hawaits⟩

/-- Tasks may cease to wait. -/
theorem Registered.drop {fewer : Assoc κ Nat} (h : Registered pending tasks line)
    (hfewer : ∀ key task, fewer.get? key = some task → pending.get? key = some task) : Registered fewer tasks line :=
  ⟨h.numbered, h.distinct, fun key task hpending => h.held key task (hfewer key task hpending)⟩

/-- A new task waits for a key in place of the one that waited. -/
theorem Registered.schedule (h : Registered pending tasks line) (key : κ) (actions : List (Action κ ε)) :
    Registered ((pending.erase key).insert key tasks) (tasks + 1) (.start tasks key actions :: line) := by
  refine ⟨?_, List.nodup_cons.2 ⟨?_, h.distinct⟩, ?_⟩
  · intro job hjob
    rcases List.mem_cons.1 hjob with rfl | hjob
    · exact Nat.lt_succ_self tasks
    · exact Nat.lt_succ_of_lt (h.numbered job hjob)
  · intro hmem
    obtain ⟨job, hjob, htask⟩ := List.mem_map.1 hmem
    exact absurd (h.numbered job hjob) (by rw [htask]; exact Nat.lt_irrefl tasks)
  · intro other task hpending
    rw [Assoc.get?_insert, Assoc.get?_erase] at hpending
    by_cases hkey : other = key
    · subst hkey
      rw [if_pos rfl] at hpending
      obtain rfl := Option.some.inj hpending
      exact ⟨actions, _, List.mem_cons_self, .start⟩
    · rw [if_neg hkey, if_neg hkey] at hpending
      obtain ⟨actions, job, hjob, hawaits⟩ := h.held other task hpending
      exact ⟨actions, job, List.mem_cons_of_mem _ hjob, hawaits⟩

/-- A task waits for one key only. -/
theorem Registered.key_eq (h : Registered pending tasks line) {key key' : κ} (hkey : pending.get? key = some task)
    (hkey' : pending.get? key' = some task) : key = key' := by
  obtain ⟨actions, job, hjob, hawaits⟩ := h.held key task hkey
  obtain ⟨actions', job', hjob', hawaits'⟩ := h.held key' task hkey'
  obtain rfl := h.eq_of_task_eq hjob hjob' (hawaits.task_eq.trans hawaits'.task_eq.symm)
  cases hawaits <;> cases hawaits' <;> rfl

/-- A task that a key waits for was made before. -/
theorem Registered.task_lt (h : Registered pending tasks line)
    (hpending : pending.get? key = some task) : task < tasks := by
  obtain ⟨actions, job, hjob, hawaits⟩ := h.held key task hpending
  exact hawaits.task_eq ▸ h.numbered job hjob

end Registered

/-! ## The line -/

section Line

variable {d : Debouncer κ ε} {job : Job κ ε} {rest : List (Job κ ε)}

omit [DecidableEq κ] in
/-- The first ready job is the first in the line. -/
theorem line_eq_cons (h : d.ready = job :: rest) : d.line = job :: (d.withReady rest).line := by
  rw [line, h]
  rfl

omit [DecidableEq κ] in
/-- A job that is put off is one job more in the line. -/
theorem line_after (d : Debouncer κ ε) (seconds : Binary64) (job : Job κ ε) :
    (d.after seconds job).line.Perm (job :: d.line) := by
  rw [after]
  split
  · exact (((insertTimer_perm _ d.timers).map _).append_left d.ready).trans List.perm_middle
  · change (d.ready ++ [job] ++ d.timers.map (·.job)).Perm _
    rw [List.append_assoc]
    exact List.perm_middle

/-- An event that is scheduled is one job more in the line. -/
theorem line_schedule (d : Debouncer κ ε) (key : κ) (actions : List (Action κ ε)) :
    (d.schedule key actions).line.Perm (.start d.tasks key actions :: d.line) := by
  change (d.ready ++ [Job.start d.tasks key actions] ++ d.timers.map Timer.job).Perm _
  rw [List.append_assoc]
  exact List.perm_middle

omit [DecidableEq κ] in
/-- A timer that goes off leaves its job in the line. -/
theorem line_fireFirst {first : Timer κ ε} {others : List (Timer κ ε)} (h : d.timers = first :: others) :
    (d.fireFirst first others).line = d.line := by
  have hsplit : others.map (·.job) = (others.takeWhile fun t => t.due.le first.due).map (·.job) ++
      (others.dropWhile fun t => t.due.le first.due).map (·.job) := by
    rw [← List.map_append, List.takeWhile_append_dropWhile]
  rw [line, line, h, List.map_cons, hsplit]
  simp [fireFirst]

end Line

/-! ## Timers -/

section Timers

variable {d : Debouncer κ ε}

omit [DecidableEq κ] in
/-- Timers stay in the order of their instants when one is set. -/
theorem insertTimer_ordered {t : Timer κ ε} {ts : List (Timer κ ε)} (ht : t.due.IsInstant)
    (hts : ∀ u ∈ ts, u.due.IsInstant) (h : ts.Pairwise fun t u => t.due.le u.due = true) :
    (insertTimer t ts).Pairwise fun t u => t.due.le u.due = true := by
  induction ts with
  | nil => exact List.pairwise_singleton _ t
  | cons u us ih =>
    obtain ⟨hu, hus⟩ := List.pairwise_cons.1 h
    rw [insertTimer]
    split
    · rename_i hle
      refine List.pairwise_cons.2 ⟨?_, ih (fun v hv => hts v (List.mem_cons_of_mem _ hv)) hus⟩
      intro v hv
      rcases mem_insertTimer.1 hv with rfl | hv
      · exact hle
      · exact hu v hv
    · rename_i hnot
      have hle : t.due.le u.due = true := (ht.le_total (hts u List.mem_cons_self)).resolve_right hnot
      refine List.pairwise_cons.2 ⟨?_, h⟩
      intro v hv
      rcases List.mem_cons.1 hv with rfl | hv
      · exact hle
      · exact Binary64.le_trans hle (hu v hv)

omit [DecidableEq κ] in
/-- A job that is put off leaves the timers in order and none overdue. -/
theorem Timed.after (h : Timed d) (seconds : Binary64) (job : Job κ ε) : Timed (d.after seconds job) := by
  rw [Debouncer.after]
  split
  · rename_i hpositive
    have hzero := Binary64.zero_le_of_isPositive hpositive
    have hdue := h.now.add hzero
    refine ⟨h.delay, h.now, insertTimer_ordered hdue (fun u hu => (h.ahead u hu).1) h.ordered, ?_⟩
    intro t ht
    rcases mem_insertTimer.1 ht with rfl | ht
    · exact ⟨hdue, h.now.le_add hzero⟩
    · exact h.ahead t ht
  · exact ⟨h.delay, h.now, h.ordered, h.ahead⟩

omit [DecidableEq κ] in
/-- A timer that goes off leaves the others in order and none overdue. -/
theorem Timed.fireFirst (h : Timed d) {first : Timer κ ε} {others : List (Timer κ ε)}
    (htimers : d.timers = first :: others) : Timed (d.fireFirst first others) := by
  have hordered := h.ordered
  have hahead := h.ahead
  rw [htimers] at hordered hahead
  obtain ⟨hfirst, hothers⟩ := List.pairwise_cons.1 hordered
  have hsub := List.dropWhile_sublist (l := others) fun t => t.due.le first.due
  refine ⟨h.delay, (hahead first List.mem_cons_self).1, hothers.sublist hsub, ?_⟩
  intro t ht
  exact ⟨(hahead t (List.mem_cons_of_mem _ (hsub.subset ht))).1, hfirst t (hsub.subset ht)⟩

omit [DecidableEq κ] in
/-- If the first timer is not due, none is. -/
theorem Timed.later (h : Timed d) {first : Timer κ ε} {others : List (Timer κ ε)} (htimers : d.timers = first :: others)
    {instant : Binary64} (hdue : first.due.le instant = false) : ∀ t ∈ d.timers, t.due.le instant = false := by
  intro t ht
  have hordered := h.ordered
  rw [htimers] at ht hordered
  rcases List.mem_cons.1 ht with rfl | ht
  · exact hdue
  · refine Bool.eq_false_iff.2 fun hle => ?_
    have hfirst := Binary64.le_trans ((List.pairwise_cons.1 hordered).1 t ht) hle
    rw [hdue] at hfirst
    exact Bool.noConfusion hfirst

end Timers

/-! ## Every move is sound -/

section Sound

variable {d d' : Debouncer κ ε} {deed : Option (Deed κ ε)} {log : List (Entry κ ε)}

omit [DecidableEq κ] in
@[simp]
theorem after_pending (d : Debouncer κ ε) (seconds : Binary64) (job : Job κ ε) :
    (d.after seconds job).pending = d.pending := by
  unfold after
  split <;> rfl

omit [DecidableEq κ] in
@[simp]
theorem after_tasks (d : Debouncer κ ε) (seconds : Binary64) (job : Job κ ε) :
    (d.after seconds job).tasks = d.tasks := by
  unfold after
  split <;> rfl

omit [DecidableEq κ] in
@[simp]
theorem after_now (d : Debouncer κ ε) (seconds : Binary64) (job : Job κ ε) : (d.after seconds job).now = d.now := by
  unfold after
  split <;> rfl

omit [DecidableEq κ] in
@[simp]
theorem after_delay (d : Debouncer κ ε) (seconds : Binary64) (job : Job κ ε) :
    (d.after seconds job).delay = d.delay := by
  unfold after
  split <;> rfl

theorem isLive_iff {task : Nat} {key : κ} : d.isLive task key = true ↔ d.pending.get? key = some task :=
  decide_eq_true_iff

theorem not_isLive_iff {task : Nat} {key : κ} : d.isLive task key = false ↔ d.pending.get? key ≠ some task :=
  decide_eq_false_iff_not

/-- A key that waits after another one was cancelled waited before. -/
theorem get?_of_get?_erase {pending : Assoc κ Nat} {key other : κ} {task : Nat}
    (h : (pending.erase key).get? other = some task) : pending.get? other = some task := by
  rw [Assoc.get?_erase] at h
  split at h
  · simp at h
  · exact h

/-- A move leaves every task with one job, and every key that waits with one that has not begun. -/
theorem Move.registered (h : Registered d.pending d.tasks d.line) (hmove : Move d deed d') :
    Registered d'.pending d'.tasks d'.line := by
  cases hmove with
  | schedule key actions => exact (h.schedule key actions).perm (line_schedule d key actions).symm
  | cancel key => exact h.drop fun _ _ => get?_of_get?_erase
  | cancelAll => exact h.drop fun key task hpending => by simp [Debouncer.cancelAll] at hpending
  | wait hready hlive =>
    rw [line_eq_cons hready] at h
    rw [after_pending, after_tasks]
    refine Registered.perm ?_ (line_after _ _ _).symm
    refine h.replace rfl ?_
    rintro _ _ _ ⟨⟩ -
    exact .fire
  | drop hready hjob hdead =>
    rw [line_eq_cons hready] at h
    refine h.remove ?_
    intro key task actions hawaits
    cases hjob <;> cases hawaits <;> exact not_isLive_iff.1 hdead
  | begins hready hlive =>
    rw [line_eq_cons hready] at h
    refine (h.drop fun _ _ => get?_of_get?_erase).replace rfl ?_
    rintro _ _ _ ⟨⟩ hpending
    simp [Assoc.get?_erase] at hpending
  | act hready hgoes =>
    rw [line_eq_cons hready] at h
    exact h.replace rfl fun _ _ _ hawaits => absurd hawaits Job.not_awaits_resume
  | fail hready =>
    rw [line_eq_cons hready] at h
    exact h.remove fun _ _ _ hawaits => absurd hawaits Job.not_awaits_resume
  | sleep hready =>
    rw [line_eq_cons hready] at h
    rw [after_pending, after_tasks]
    refine Registered.perm ?_ (line_after _ _ _).symm
    exact h.replace rfl fun _ _ _ hawaits => absurd hawaits Job.not_awaits_resume
  | finish hready =>
    rw [line_eq_cons hready] at h
    exact h.remove fun _ _ _ hawaits => absurd hawaits Job.not_awaits_resume
  | fire hready htimers =>
    rw [line_fireFirst htimers]
    exact h
  | tick => exact h

/-- A move leaves the timers in order and none overdue. -/
theorem Move.timed (h : Timed d) (hmove : Move d deed d') : Timed d' := by
  have hrest : ∀ rest, Timed (d.withReady rest) := fun rest => ⟨h.delay, h.now, h.ordered, h.ahead⟩
  cases hmove with
  | schedule | cancel | cancelAll | drop | begins | act | fail | finish => exact ⟨h.delay, h.now, h.ordered, h.ahead⟩
  | wait | sleep => exact (hrest _).after _ _
  | fire hready htimers => exact h.fireFirst htimers
  | tick hready hinstant hforward hlater =>
    refine ⟨h.delay, hinstant, h.ordered, ?_⟩
    intro t ht
    have hdue := (h.ahead t ht).1
    exact ⟨hdue, (hinstant.le_total hdue).resolve_right (by simp [hlater t ht])⟩

/-- A move leaves a sound debouncer sound. -/
theorem Move.sound (h : Sound d) (hmove : Move d deed d') : Sound d' :=
  ⟨hmove.registered h.registered, hmove.timed h.timed⟩

/-- A move does not change the interval. -/
theorem Move.delay_eq (hmove : Move d deed d') : d'.delay = d.delay := by
  cases hmove with
  | wait | sleep => exact after_delay _ _ _
  | _ => rfl

/-- A debouncer is sound at every point of a run. -/
theorem Moves.sound (h : Sound d) (hmoves : Moves d log d') : Sound d' ∧ ∀ x ∈ log, Sound x.state := by
  induction hmoves with
  | nil => exact ⟨h, by simp⟩
  | silent hmove _ ih => exact ih (hmove.sound h)
  | deed hmove _ ih =>
    obtain ⟨hend, hlog⟩ := ih (hmove.sound h)
    refine ⟨hend, ?_⟩
    intro x hx
    rcases List.mem_cons.1 hx with rfl | hx
    · exact hmove.sound h
    · exact hlog x hx

/-- Moves leave every task with one job, and every key that waits with one that has not begun. -/
theorem Moves.registered (h : Registered d.pending d.tasks d.line) (hmoves : Moves d log d') :
    Registered d'.pending d'.tasks d'.line := by
  induction hmoves with
  | nil => exact h
  | silent hmove _ ih => exact ih (hmove.registered h)
  | deed hmove _ ih => exact ih (hmove.registered h)

/-- Moves leave the timers in order and none overdue. -/
theorem Moves.timed (h : Timed d) (hmoves : Moves d log d') : Timed d' := by
  induction hmoves with
  | nil => exact h
  | silent hmove _ ih => exact ih (hmove.timed h)
  | deed hmove _ ih => exact ih (hmove.timed h)

/-- Moves do not change the interval. -/
theorem Moves.delay_eq (hmoves : Moves d log d') : d'.delay = d.delay := by
  induction hmoves with
  | nil => rfl
  | silent hmove _ ih => rw [ih, hmove.delay_eq]
  | deed hmove _ ih => rw [ih, hmove.delay_eq]

end Sound

/-! ## Every run is made of moves -/

section Runs

variable {d : Debouncer κ ε}

omit [DecidableEq κ] in
theorem next_withReady {job : Job κ ε} {rest : List (Job κ ε)} (h : d.ready = job :: rest) :
    (d.withReady rest).next job = d := by
  rw [next, withReady, withReady, ← h]

/-- What is left of an event is done in moves. -/
theorem perform_moves (d : Debouncer κ ε) (task : Nat) (key : κ) (actions : List (Action κ ε)) :
    Moves (d.next (.resume task key actions)) (d.performLog task key actions) (d.perform task key actions).1 := by
  induction actions generalizing d with
  | nil => exact .silent (.finish rfl) (.nil d)
  | cons action rest ih =>
    cases action with
    | emit e => exact .deed (.act rfl rfl) (ih d)
    | fail => exact .deed (.fail rfl) (.nil d)
    | sleep seconds => exact .deed (.sleep rfl) (.nil _)
    | schedule k actions => exact .deed (.act rfl rfl) (.deed (.schedule _ k actions) (ih (d.schedule k actions)))
    | cancel k => exact .deed (.act rfl rfl) (.deed (.cancel _ k) (ih (d.cancel k)))

/-- A step is taken in moves. -/
theorem step_moves (d : Debouncer κ ε) (job : Job κ ε) : Moves (d.next job) (d.stepLog job) (d.step job).1 := by
  cases job with
  | start task key actions =>
    rw [step]
    split
    · rename_i hlive
      exact .silent (.wait rfl hlive) (.nil _)
    · rename_i hdead
      exact .silent (.drop rfl .start (Bool.not_eq_true _ ▸ hdead)) (.nil _)
  | fire task key actions =>
    rw [step, stepLog]
    split
    · rename_i hlive
      exact .deed (.begins rfl hlive) (perform_moves (d.cancel key) task key actions)
    · rename_i hdead
      exact .silent (.drop rfl .fire (Bool.not_eq_true _ ▸ hdead)) (.nil _)
  | resume task key actions => exact perform_moves d task key actions

/-- The work at hand is done in moves. -/
theorem settle_moves (d : Debouncer κ ε) : Moves d d.settleLog d.settle.1 := by
  fun_induction settle d with
  | case1 d hready =>
    rw [settleLog_of_nil hready]
    exact .nil d
  | case2 d job rest hready hlt stepped settled ih =>
    rw [settleLog_of_cons hready]
    have hstep := step_moves (d.withReady rest) job
    rw [next_withReady hready] at hstep
    exact hstep.append ih

/-- No work is at hand when it is done. -/
theorem settle_ready (d : Debouncer κ ε) : d.settle.1.ready = [] := by
  fun_induction settle d with
  | case1 d hready => exact hready
  | case2 d job rest hready hlt stepped settled ih => exact ih

theorem perform_now (d : Debouncer κ ε) (task : Nat) (key : κ) (actions : List (Action κ ε)) :
    (d.perform task key actions).1.now = d.now := by
  induction actions generalizing d with
  | nil => rfl
  | cons action rest ih =>
    cases action with
    | emit e => exact ih d
    | fail => rfl
    | sleep seconds => exact after_now d seconds _
    | schedule k actions => exact ih (d.schedule k actions)
    | cancel k => exact ih (d.cancel k)

/-- Time stands still while the work at hand is done. -/
theorem settle_now (d : Debouncer κ ε) : d.settle.1.now = d.now := by
  have hstep : ∀ (d : Debouncer κ ε) (job : Job κ ε), (d.step job).1.now = d.now := by
    intro d job
    cases job with
    | start task key actions =>
      rw [step]
      split
      · exact after_now d _ _
      · rfl
    | fire task key actions =>
      rw [step]
      split
      · exact perform_now (d.cancel key) task key actions
      · rfl
    | resume task key actions => exact perform_now d task key actions
  fun_induction settle d with
  | case1 d hready => rfl
  | case2 d job rest hready hlt stepped settled ih => exact ih.trans (hstep (d.withReady rest) job)

/-- Moving the clock forward is made of moves. The clock then shows the instant, and what is left is due later. -/
theorem advanceTo_moves (h : Sound d) {instant : Binary64} (hready : d.ready = []) (hinstant : instant.IsInstant)
    (hforward : d.now.le instant = true) :
    Moves d (d.advanceToLog instant) (d.advanceTo instant).1 ∧ (d.advanceTo instant).1.now = instant ∧
      (d.advanceTo instant).1.ready = [] ∧ ∀ t ∈ (d.advanceTo instant).1.timers, t.due.le instant = false := by
  fun_induction advanceTo d instant with
  | case1 d htimers =>
    rw [advanceToLog_of_not_le (by simp [htimers])]
    have hlater : ∀ t ∈ d.timers, t.due.le instant = false := by simp [htimers]
    exact ⟨.silent (.tick hready hinstant hforward hlater) (.nil _), rfl, hready, hlater⟩
  | case2 d first others htimers hdue hlt fired later ih =>
    rw [advanceToLog_of_le htimers hdue]
    have hfire : Move d none (d.fireFirst first others) := .fire hready htimers
    have hsettle := settle_moves (d.fireFirst first others)
    have hnow : fired.1.now = first.due := settle_now _
    obtain ⟨hmoves, hend⟩ := ih (hsettle.sound (hfire.sound h)).1 (settle_ready _) (hnow ▸ hdue)
    exact ⟨.silent hfire (hsettle.append hmoves), hend⟩
  | case3 d first others htimers hdue =>
    have hdue : first.due.le instant = false := Bool.not_eq_true _ ▸ hdue
    have hlater := h.timed.later htimers hdue
    rw [advanceToLog_of_not_le fun t ts hts => hlater t (by simp [hts])]
    exact ⟨.silent (.tick hready hinstant hforward hlater) (.nil _), rfl, hready, hlater⟩

/-- Letting time pass is made of moves. Afterwards the clock has moved on, nothing is at hand, and every timer is due
later. -/
theorem advance_moves (h : Sound d) {seconds : Binary64} (hforward : Binary64.zero.le seconds = true) :
    Moves d (d.answerLog (.advance seconds)) (d.advance seconds).1 ∧ (d.advance seconds).1.now = d.now + seconds ∧
      (d.advance seconds).1.ready = [] ∧ ∀ t ∈ (d.advance seconds).1.timers, t.due.le (d.now + seconds) = false := by
  have hsettle := settle_moves d
  have hsound := (hsettle.sound h).1
  obtain ⟨hmoves, hend⟩ := advanceTo_moves hsound (settle_ready d) (hsound.timed.now.add hforward)
    (hsound.timed.now.le_add hforward)
  rw [← settle_now d]
  exact ⟨hsettle.append hmoves, hend⟩

/-- A call is answered in moves. -/
theorem answer_moves (h : Sound d) {call : Call κ ε} (hforward : call.Forward) :
    Moves d (d.answerLog call) (d.answer call).1 := by
  cases call with
  | schedule key actions => exact .deed (.schedule d key actions) (.nil _)
  | cancel key => exact .deed (.cancel d key) (.nil _)
  | cancelAll => exact .deed (.cancelAll d) (.nil _)
  | settle => exact settle_moves d
  | advance seconds => exact (advance_moves h hforward).1

/-- Every run is made of moves, with the journal as the record of their deeds. -/
theorem journal_moves (h : Sound d) {calls : List (Call κ ε)} (hforward : ∀ call ∈ calls, call.Forward) :
    Moves d (d.journal calls) (d.run calls).1 := by
  induction calls generalizing d with
  | nil => exact .nil d
  | cons call calls ih =>
    have hanswer := answer_moves h (hforward call List.mem_cons_self)
    exact hanswer.append (ih (hanswer.sound h).1 fun c hc => hforward c (List.mem_cons_of_mem _ hc))

/-- A debouncer that nothing was asked of is sound. -/
theorem sound_idle {delay : Binary64} (h : Binary64.zero.le delay = true) : Sound ({ delay } : Debouncer κ ε) :=
  ⟨⟨by simp [line], by simp [line], by simp⟩, ⟨h, Binary64.isInstant_zero, List.Pairwise.nil, by simp⟩⟩

end Runs

end Debouncer

end DocRefs
