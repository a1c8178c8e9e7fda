import DocRefs.Proofs.Debouncer.Moves
import DocRefs.Proofs.Text.Runs

/-!
# What becomes of an event

An event that is scheduled waits; if its key is scheduled or cancelled again, or everything is cancelled, before its
time has come, it never begins, and otherwise it begins once, at its time. An event that has begun does its actions in
order, up to a failure, whatever is scheduled or cancelled meanwhile (`Debouncer.Fate`). One move is looked at first, by
cases (`Debouncer.Move.fate`), and then the run (`Debouncer.Moves.fate`).
-/

namespace DocRefs

variable {κ ε : Type}

/-- The actions of an event up to the first that fails. -/
def Action.upToFailure : List (Action κ ε) → List (Action κ ε)
  | [] => []
  | .fail :: _ => [.fail]
  | action :: rest => action :: upToFailure rest

/-- A deed that drops the waiting task of a key. -/
inductive Deed.Supersedes (key : κ) : Deed κ ε → Prop
  | scheduled (task : Nat) (actions : List (Action κ ε)) : Supersedes key (.scheduled task key actions)
  | cancelled : Supersedes key (.cancelled key)
  | cancelledAll : Supersedes key .cancelledAll

/-- The beginning of a task's event. -/
inductive Deed.Begins (task : Nat) : Deed κ ε → Prop
  | began (key : κ) (actions : List (Action κ ε)) : Begins task (.began task key actions)

/-- The action that a task does in a deed. -/
def Deed.doneBy? (task : Nat) : Deed κ ε → Option (Action κ ε)
  | .did t _ action => if t = task then some action else none
  | _ => none

/-- A deed with which the event of a task has nothing to do. -/
def Deed.Spares (task : Nat) (deed : Deed κ ε) : Prop :=
  ¬ deed.Begins task ∧ deed.doneBy? task = none

/-- An event that was scheduled: its task, and when its time comes. -/
structure Event (κ ε : Type) where
  task : Nat
  key : κ
  actions : List (Action κ ε)
  due : Binary64

namespace Debouncer

/-- The actions that a task does in a run, in order. -/
def doneBy (task : Nat) (log : List (Entry κ ε)) : List (Action κ ε) :=
  log.filterMap (·.deed.doneBy? task)

/-- What a task still has to do is in the line. -/
def Remains (d : Debouncer κ ε) (task : Nat) (actions : List (Action κ ε)) : Prop :=
  (∃ key, Job.resume task key actions ∈ d.line) ∨ actions = [] ∧ ∀ key more, Job.resume task key more ∉ d.line

variable [DecidableEq κ]

/-- A task waits, and will wait no longer than until its time comes: it has still to set its timer, or has one, or has
one that has just gone off. -/
structure Awaits (d : Debouncer κ ε) (e : Event κ ε) : Prop where
  live : d.isLive e.task e.key = true
  job : .start e.task e.key e.actions ∈ d.ready ∧ d.now + d.delay = e.due ∨
    .fire e.task e.key e.actions ∈ d.ready ∧ d.now = e.due ∨ ⟨e.due, .fire e.task e.key e.actions⟩ ∈ d.timers

/-- A task waits no longer. -/
structure Gone (d : Debouncer κ ε) (task : Nat) : Prop where
  made : task < d.tasks
  dead : ∀ key, d.pending.get? key ≠ some task

/-- What becomes of a waiting event in a run. -/
inductive Fate (e : Event κ ε) (log : List (Entry κ ε)) (d : Debouncer κ ε) : Prop
  | begun {before later : List (Entry κ ε)} {state : Debouncer κ ε}
      (hlog : log = before ++ ⟨.began e.task e.key e.actions, state⟩ :: later)
      (htime : state.now = e.due) (hbefore : ∀ x ∈ before, ¬ x.deed.Supersedes e.key ∧ x.deed.Spares e.task)
      (honce : ∀ x ∈ later, ¬ x.deed.Begins e.task) {rest : List (Action κ ε)} (hrest : d.Remains e.task rest)
      (hdone : Action.upToFailure e.actions = doneBy e.task later ++ Action.upToFailure rest) (hgone : d.Gone e.task)
  | superseded {before later : List (Entry κ ε)} {x : Entry κ ε} (hlog : log = before ++ x :: later)
      (hx : x.deed.Supersedes e.key)
      (htime : x.state.now.le e.due = true) (hbefore : ∀ y ∈ before, ¬ y.deed.Supersedes e.key)
      (hnever : ∀ y ∈ log, y.deed.Spares e.task) (hrest : d.Remains e.task []) (hgone : d.Gone e.task)
  | waiting (hlog : ∀ x ∈ log, ¬ x.deed.Supersedes e.key ∧ x.deed.Spares e.task) (hawaits : d.Awaits e)

/-! ## A waiting event -/

section Awaits

variable {d d' : Debouncer κ ε} {e : Event κ ε} {deed : Option (Deed κ ε)} {job : Job κ ε}

/-- A task that waits has a job in the line. -/
theorem Awaits.exists_job (h : d.Awaits e) : ∃ job ∈ d.line, job.Awaits e.task e.key e.actions := by
  rcases h.job with ⟨hstart, -⟩ | ⟨hfire, -⟩ | htimer
  · exact ⟨_, List.mem_append_left _ hstart, .start⟩
  · exact ⟨_, List.mem_append_left _ hfire, .fire⟩
  · exact ⟨_, List.mem_append_right _ (List.mem_map_of_mem htimer), .fire⟩

/-- The one job of a waiting task is that of its event. -/
theorem Awaits.of_mem_line (h : d.Awaits e) (hsound : Sound d) (hjob : job ∈ d.line) (htask : job.task = e.task) :
    job.Awaits e.task e.key e.actions := by
  obtain ⟨other, hother, hawaits⟩ := h.exists_job
  rwa [hsound.registered.eq_of_task_eq hjob hother (htask.trans hawaits.task_eq.symm)]

/-- A task that waits has no job that goes on with an event. -/
theorem Awaits.resume_notMem (h : d.Awaits e) (hsound : Sound d) (key : κ) (more : List (Action κ ε)) :
    Job.resume e.task key more ∉ d.line :=
  fun hmem => nomatch h.of_mem_line hsound hmem rfl

/-- The time of a waiting event has not passed. -/
theorem Awaits.now_le (h : d.Awaits e) (hsound : Sound d) : d.now.le e.due = true := by
  rcases h.job with ⟨-, hdue⟩ | ⟨-, hdue⟩ | htimer
  · exact hdue ▸ hsound.timed.now.le_add hsound.timed.delay
  · exact hdue ▸ hsound.timed.now.le_refl
  · exact (hsound.timed.ahead _ htimer).2

/-- An event waits on if its job is left where it is. -/
theorem Awaits.stay (h : d.Awaits e) (hlive : d'.pending.get? e.key = some e.task) (hnow : d'.now = d.now)
    (hdelay : d'.delay = d.delay)
    (hready : ∀ job ∈ d.ready, job.Awaits e.task e.key e.actions → job ∈ d'.ready)
    (htimers : ∀ t ∈ d.timers, t ∈ d'.timers) : d'.Awaits e := by
  refine ⟨isLive_iff.2 hlive, ?_⟩
  rcases h.job with ⟨hstart, hdue⟩ | ⟨hfire, hdue⟩ | htimer
  · exact .inl ⟨hready _ hstart .start, by rw [hnow, hdelay, hdue]⟩
  · exact .inr (.inl ⟨hready _ hfire .fire, by rw [hnow, hdue]⟩)
  · exact .inr (.inr (htimers _ htimer))

/-- A waiting event is gone when its key is not that of its task any more. -/
theorem Awaits.gone (h : d.Awaits e) (hsound : Sound d) (hmade : d.tasks ≤ d'.tasks)
    (hdead : d'.pending.get? e.key ≠ some e.task)
    (hothers : ∀ key, d'.pending.get? key = some e.task → d.pending.get? key = some e.task) : d'.Gone e.task := by
  have hlive := isLive_iff.1 h.live
  refine ⟨Nat.lt_of_lt_of_le (hsound.registered.task_lt hlive) hmade, ?_⟩
  intro key hkey
  obtain rfl := hsound.registered.key_eq (hothers key hkey) hlive
  exact hdead hkey

omit [DecidableEq κ] in
theorem mem_ready_after {seconds : Binary64} {other : Job κ ε} (h : job ∈ d.ready) :
    job ∈ (d.after seconds other).ready := by
  rw [after]
  split
  · exact h
  · exact List.mem_append_left _ h

omit [DecidableEq κ] in
theorem mem_timers_after {seconds : Binary64} {other : Job κ ε} {t : Timer κ ε} (h : t ∈ d.timers) :
    t ∈ (d.after seconds other).timers := by
  rw [after]
  split
  · exact mem_insertTimer.2 (.inr h)
  · exact h

/-- An event that sets its timer waits on. -/
theorem awaits_after_delay (htimed : Timed d) (hlive : d.isLive e.task e.key = true) (hdue : d.now + d.delay = e.due) :
    (d.after d.delay (.fire e.task e.key e.actions)).Awaits e := by
  refine ⟨by rwa [isLive, after_pending], ?_⟩
  rw [after]
  split
  · refine .inr (.inr (mem_insertTimer.2 (.inl ?_)))
    rw [hdue]
  · rename_i hpositive
    refine .inr (.inl ⟨List.mem_append_right _ (List.mem_singleton.2 rfl), ?_⟩)
    rw [← hdue]
    exact (htimed.now.add_of_not_isPositive htimed.delay (Bool.not_eq_true _ ▸ hpositive)).symm

/-- An event waits on if the first job of the queue is dealt with and is not its own. -/
theorem Awaits.stay_behind (h : d.Awaits e) {rest : List (Job κ ε)} (hready : d.ready = job :: rest)
    (hother : ¬ job.Awaits e.task e.key e.actions) (hlive : d'.pending.get? e.key = some e.task) (hnow : d'.now = d.now)
    (hdelay : d'.delay = d.delay) (hrest : ∀ job ∈ rest, job ∈ d'.ready)
    (htimers : ∀ t ∈ d.timers, t ∈ d'.timers) : d'.Awaits e := by
  refine h.stay hlive hnow hdelay ?_ htimers
  intro other hmem hawaits
  rw [hready] at hmem
  rcases List.mem_cons.1 hmem with rfl | hmem
  · exact absurd hawaits hother
  · exact hrest other hmem

/-- A task that has still to set its timer does so at the delay before its time. -/
theorem Awaits.due_of_start (h : d.Awaits e) (hsound : Sound d) (hstart : .start e.task e.key e.actions ∈ d.line) :
    d.now + d.delay = e.due := by
  have hfire : .fire e.task e.key e.actions ∉ d.line := fun hfire =>
    nomatch hsound.registered.eq_of_task_eq hstart hfire rfl
  rcases h.job with ⟨-, hdue⟩ | ⟨hready, -⟩ | htimer
  · exact hdue
  · exact absurd (List.mem_append_left _ hready) hfire
  · exact absurd (List.mem_append_right _ (List.mem_map_of_mem htimer)) hfire

/-- A task whose timer has gone off is at its time. -/
theorem Awaits.due_of_fire (h : d.Awaits e) (hsound : Sound d)
    (hfire : .fire e.task e.key e.actions ∈ d.ready) : d.now = e.due := by
  have hline : .fire e.task e.key e.actions ∈ d.line := List.mem_append_left _ hfire
  rcases h.job with ⟨hstart, -⟩ | ⟨-, hdue⟩ | htimer
  · exact nomatch hsound.registered.eq_of_task_eq (List.mem_append_left _ hstart) hline rfl
  · exact hdue
  · -- The job cannot also be that of a timer.
    have hdistinct := hsound.registered.distinct
    rw [line, List.map_append] at hdistinct
    exact absurd rfl ((List.nodup_append.1 hdistinct).2.2 _ (List.mem_map_of_mem hfire) _
      (List.mem_map_of_mem (List.mem_map_of_mem htimer)))

/-- When the first timers go off, an event with one of them is at its time, and the others wait on. -/
theorem Awaits.fireFirst (h : d.Awaits e) (hsound : Sound d) (hready : d.ready = []) {first : Timer κ ε}
    {others : List (Timer κ ε)} (htimers : d.timers = first :: others) : (d.fireFirst first others).Awaits e := by
  refine ⟨h.live, ?_⟩
  rcases h.job with ⟨hstart, -⟩ | ⟨hfire, -⟩ | htimer
  · simp [hready] at hstart
  · simp [hready] at hfire
  · have hordered := hsound.timed.ordered
    have hahead := hsound.timed.ahead
    rw [htimers] at htimer hordered hahead
    rcases List.mem_cons.1 htimer with heq | htimer
    · refine .inr (.inl ⟨List.mem_append_right _ ?_, ?_⟩)
      · rw [← heq]
        exact List.mem_cons_self
      · exact congrArg Timer.due heq.symm
    · rw [← List.takeWhile_append_dropWhile (p := fun t => t.due.le first.due) (l := others)] at htimer
      rcases List.mem_append.1 htimer with htaken | hleft
      · refine .inr (.inl ⟨List.mem_append_right _ (List.mem_cons_of_mem _ (List.mem_map_of_mem htaken)), ?_⟩)
        have hmem := (List.takeWhile_prefix _).subset htaken
        have hall := List.all_eq_true.1
          (List.all_takeWhile (p := fun t : Timer κ ε => t.due.le first.due) (l := others))
        have hle : e.due.le first.due = true := hall _ htaken
        exact (hahead first List.mem_cons_self).1.le_antisymm (hahead _ (List.mem_cons_of_mem _ hmem)).1
          ((List.pairwise_cons.1 hordered).1 _ hmem) hle
      · exact .inr (.inr hleft)

/-- What one move does to a waiting event: it waits on, or a deed drops it before its time has passed, or it begins at
its time. -/
def Turns (e : Event κ ε) (deed : Option (Deed κ ε)) (d' : Debouncer κ ε) : Prop :=
  (d'.Awaits e ∧ ∀ x ∈ deed, ¬ x.Supersedes e.key ∧ x.Spares e.task) ∨
    (∃ x, deed = some x ∧ x.Supersedes e.key ∧ x.Spares e.task ∧ d'.now.le e.due = true ∧
      d'.Gone e.task ∧ d'.Remains e.task []) ∨
    (deed = some (.began e.task e.key e.actions) ∧ d'.now = e.due ∧ d'.Gone e.task ∧ d'.Remains e.task e.actions)

/-- An event waits on when another key is scheduled, and is dropped when its own one is. -/
theorem Awaits.turns_schedule (h : d.Awaits e) (hsound : Sound d) (key : κ) (actions : List (Action κ ε)) :
    Turns e (some (.scheduled d.tasks key actions)) (d.schedule key actions) := by
  have hlive := isLive_iff.1 h.live
  have hmade := hsound.registered.task_lt hlive
  have hget : ∀ k, (d.schedule key actions).pending.get? k = if k = key then some d.tasks else d.pending.get? k := by
    intro k
    rw [Debouncer.schedule, Debouncer.cancel, Assoc.get?_insert, Assoc.get?_erase]
    split <;> rfl
  by_cases hkey : e.key = key
  · obtain rfl := hkey
    refine .inr (.inl ⟨_, rfl, .scheduled _ _, ⟨by rintro ⟨⟩, rfl⟩, h.now_le hsound,
      h.gone hsound (Nat.le_succ _) ?_ ?_, .inr ⟨rfl, ?_⟩⟩)
    · rw [hget, if_pos rfl]
      simp only [ne_eq, Option.some.injEq]
      omega
    · intro k hk
      rw [hget] at hk
      split at hk
      · simp only [Option.some.injEq] at hk
        omega
      · exact hk
    · intro k more hmem
      rcases List.mem_cons.1 ((line_schedule d _ _).mem_iff.1 hmem) with hnew | hmem
      · cases hnew
      · exact h.resume_notMem hsound k more hmem
  · refine .inl ⟨h.stay ?_ rfl rfl (fun _ hjob _ => List.mem_append_left _ hjob) fun _ ht => ht, ?_⟩
    · rw [hget, if_neg hkey]
      exact hlive
    · rintro _ ⟨⟩
      exact ⟨fun hs => by cases hs; exact hkey rfl, by rintro ⟨⟩, rfl⟩

/-- An event waits on when another key is cancelled, and is dropped when its own one is. -/
theorem Awaits.turns_cancel (h : d.Awaits e) (hsound : Sound d) (key : κ) :
    Turns e (some (.cancelled key)) (d.cancel key) := by
  by_cases hkey : e.key = key
  · obtain rfl := hkey
    refine .inr (.inl ⟨_, rfl, .cancelled, ⟨by rintro ⟨⟩, rfl⟩, h.now_le hsound, h.gone hsound (Nat.le_refl _) ?_ ?_,
      .inr ⟨rfl, h.resume_notMem hsound⟩⟩)
    · simp [Debouncer.cancel, Assoc.get?_erase]
    · exact fun _ => get?_of_get?_erase
  · refine .inl ⟨h.stay ?_ rfl rfl (fun _ hjob _ => hjob) fun _ ht => ht, ?_⟩
    · rw [Debouncer.cancel, Assoc.get?_erase, if_neg hkey]
      exact isLive_iff.1 h.live
    · rintro _ ⟨⟩
      exact ⟨fun hs => by cases hs; exact hkey rfl, by rintro ⟨⟩, rfl⟩

/-- An event is dropped when all keys are cancelled. -/
theorem Awaits.turns_cancelAll (h : d.Awaits e) (hsound : Sound d) : Turns e (some .cancelledAll) d.cancelAll := by
  refine .inr (.inl ⟨_, rfl, .cancelledAll, ⟨by rintro ⟨⟩, rfl⟩, h.now_le hsound, h.gone hsound (Nat.le_refl _) ?_ ?_,
    .inr ⟨rfl, h.resume_notMem hsound⟩⟩)
  · simp [Debouncer.cancelAll]
  · simp [Debouncer.cancelAll]

/-- When a task sets its timer, a waiting event waits on, be the task its own or another. -/
theorem Awaits.setTimer (h : d.Awaits e) (hsound : Sound d) {task : Nat} {key : κ} {actions : List (Action κ ε)}
    {rest : List (Job κ ε)} (hready : d.ready = .start task key actions :: rest) (hwaits : d.isLive task key = true) :
    ((d.withReady rest).after d.delay (.fire task key actions)).Awaits e := by
  by_cases hown : (Job.start task key actions).Awaits e.task e.key e.actions
  · cases hown
    have hdue := h.due_of_start hsound (List.mem_append_left _ (by rw [hready]; exact List.mem_cons_self))
    have htimed := hsound.timed
    exact awaits_after_delay (d := d.withReady rest) ⟨htimed.delay, htimed.now, htimed.ordered,
      htimed.ahead⟩ hwaits hdue
  · exact h.stay_behind hready hown (by rw [after_pending]; exact isLive_iff.1 h.live)
      (after_now _ _ _) (after_delay _ _ _)
      (fun _ hjob => mem_ready_after hjob) fun _ ht => mem_timers_after ht

/-- When an event begins it is the waiting one, whose time it is, or that waits on. -/
theorem Awaits.turns_begins (h : d.Awaits e) (hsound : Sound d) {task : Nat} {key : κ} {actions : List (Action κ ε)}
    {rest : List (Job κ ε)} (hready : d.ready = .fire task key actions :: rest) (hwaits : d.isLive task key = true) :
    Turns e (some (.began task key actions)) (((d.withReady rest).cancel key).next (.resume task key actions)) := by
  have hlive := isLive_iff.1 h.live
  have hfire : .fire task key actions ∈ d.ready := by
    rw [hready]
    exact List.mem_cons_self
  by_cases htask : task = e.task
  · have hown := h.of_mem_line hsound (List.mem_append_left _ hfire) htask
    cases hown
    refine .inr (.inr ⟨rfl, h.due_of_fire hsound hfire, h.gone hsound (Nat.le_refl _) ?_ ?_,
      .inl ⟨_, List.mem_cons_self⟩⟩)
    · simp [Debouncer.cancel, Debouncer.next, Debouncer.withReady, Assoc.get?_erase]
    · exact fun _ => get?_of_get?_erase
  · refine .inl ⟨h.stay_behind hready ?_ ?_ rfl rfl (fun _ hjob => List.mem_cons_of_mem _ hjob) fun _ ht => ht, ?_⟩
    · intro hown
      exact htask hown.task_eq
    · have hkey : e.key ≠ key := by
        rintro rfl
        exact htask (Option.some.inj ((isLive_iff.1 hwaits).symm.trans hlive))
      change (d.pending.erase key).get? e.key = _
      rwa [Assoc.get?_erase, if_neg hkey]
    · rintro _ ⟨⟩
      exact ⟨by rintro ⟨⟩, fun hb => by cases hb; exact htask rfl, rfl⟩

/-- A task that has begun is not the waiting one. -/
theorem Awaits.spared_by_resume (h : d.Awaits e) (hsound : Sound d) {task : Nat} {key : κ} {action : Action κ ε}
    {actions : List (Action κ ε)} {rest : List (Job κ ε)}
    (hready : d.ready = .resume task key (action :: actions) :: rest) :
    ∀ x ∈ some (Deed.did task key action), ¬ x.Supersedes e.key ∧ x.Spares e.task := by
  have htask : task ≠ e.task := by
    rintro rfl
    exact h.resume_notMem hsound key (action :: actions)
      (List.mem_append_left _ (by rw [hready]; exact List.mem_cons_self))
  rintro _ ⟨⟩
  exact ⟨nofun, nofun, if_neg htask⟩

/-- Whatever moves, a waiting event waits on, is dropped before its time, or begins at its time. -/
theorem Move.fate (hsound : Sound d) (hmove : Move d deed d') (h : d.Awaits e) : Turns e deed d' := by
  have hlive := isLive_iff.1 h.live
  cases hmove with
  | schedule key actions => exact h.turns_schedule hsound key actions
  | cancel key => exact h.turns_cancel hsound key
  | cancelAll => exact h.turns_cancelAll hsound
  | wait hready hwaits => exact .inl ⟨h.setTimer hsound hready hwaits, nofun⟩
  | drop hready hjob hdead =>
    refine .inl ⟨h.stay_behind hready ?_ hlive rfl rfl (fun _ hjob => hjob) fun _ ht => ht, nofun⟩
    intro hown
    cases hjob <;> cases hown <;> exact not_isLive_iff.1 hdead hlive
  | begins hready hwaits => exact h.turns_begins hsound hready hwaits
  | act hready hgoes =>
    exact .inl ⟨h.stay_behind hready nofun hlive rfl rfl (fun _ hjob => List.mem_cons_of_mem _ hjob) fun _ ht => ht,
      h.spared_by_resume hsound hready⟩
  | fail hready =>
    exact .inl ⟨h.stay_behind hready nofun hlive rfl rfl (fun _ hjob => hjob) fun _ ht => ht,
      h.spared_by_resume hsound hready⟩
  | sleep hready =>
    refine .inl ⟨h.stay_behind hready nofun ?_ (after_now _ _ _) (after_delay _ _ _)
      (fun _ hjob => mem_ready_after hjob)
      fun _ ht => mem_timers_after ht, h.spared_by_resume hsound hready⟩
    rw [after_pending]
    exact hlive
  | finish hready => exact .inl ⟨h.stay_behind hready nofun hlive rfl rfl (fun _ hjob => hjob) fun _ ht => ht, nofun⟩
  | fire hready htimers => exact .inl ⟨h.fireFirst hsound hready htimers, nofun⟩
  | tick hready hinstant hforward hlater =>
    refine .inl ⟨⟨h.live, ?_⟩, nofun⟩
    rcases h.job with ⟨hstart, -⟩ | ⟨hfire, -⟩ | htimer
    · simp [hready] at hstart
    · simp [hready] at hfire
    · exact .inr (.inr htimer)

end Awaits

/-! ## A task that waits no longer -/

section Gone

variable {d d' : Debouncer κ ε} {deed : Option (Deed κ ε)} {log : List (Entry κ ε)} {task : Nat}
  {rest : List (Action κ ε)}

/-- A task that waits no longer never begins. -/
theorem Move.gone (hmove : Move d deed d') (h : d.Gone task) : d'.Gone task ∧ ∀ x ∈ deed, ¬ x.Begins task := by
  cases hmove with
  | schedule key actions =>
    refine ⟨⟨Nat.lt_succ_of_lt h.made, ?_⟩, by rintro _ ⟨⟩ ⟨⟩⟩
    intro k hk
    rw [Debouncer.schedule, Debouncer.cancel, Assoc.get?_insert, Assoc.get?_erase] at hk
    split at hk
    · exact Nat.ne_of_gt h.made (Option.some.inj hk)
    · exact h.dead k hk
  | cancel key => exact ⟨⟨h.made, fun k hk => h.dead k (get?_of_get?_erase hk)⟩, by rintro _ ⟨⟩ ⟨⟩⟩
  | cancelAll => exact ⟨⟨h.made, fun k hk => by simp [Debouncer.cancelAll] at hk⟩, by rintro _ ⟨⟩ ⟨⟩⟩
  | wait | sleep =>
    refine ⟨⟨by rw [after_tasks]; exact h.made, fun k => by rw [after_pending]; exact h.dead k⟩, ?_⟩
    rintro _ ⟨⟩ ⟨⟩
  | @begins t key actions rest hready hlive =>
    refine ⟨⟨h.made, fun k hk => h.dead k (get?_of_get?_erase hk)⟩, ?_⟩
    rintro _ ⟨⟩ ⟨⟩
    exact h.dead key (isLive_iff.1 hlive)
  | act | fail => exact ⟨⟨h.made, h.dead⟩, by rintro _ ⟨⟩ ⟨⟩⟩
  | drop | finish | fire | tick => exact ⟨⟨h.made, h.dead⟩, by rintro _ ⟨⟩⟩

omit [DecidableEq κ] in
/-- What remains of a task can be told from the jobs in the line that go on. -/
theorem Remains.congr (h : d.Remains task rest)
    (hline : ∀ key more, Job.resume task key more ∈ d'.line ↔ Job.resume task key more ∈ d.line) :
    d'.Remains task rest := by
  rcases h with ⟨key, hmem⟩ | ⟨hnone, hnot⟩
  · exact .inl ⟨key, (hline key rest).2 hmem⟩
  · exact .inr ⟨hnone, fun key more hmem => hnot key more ((hline key more).1 hmem)⟩

/-- What remains of the task of a job that goes on is what the job says. -/
theorem Remains.eq_of_mem (h : d.Remains task rest) (hsound : Sound d) {key : κ} {actions : List (Action κ ε)}
    (hmem : Job.resume task key actions ∈ d.line) : rest = actions := by
  rcases h with ⟨other, hother⟩ | ⟨-, hnot⟩
  · exact (Job.resume.inj (hsound.registered.eq_of_task_eq hother hmem rfl)).2.2
  · exact absurd hmem (hnot key actions)

omit [DecidableEq κ] in
/-- What remains of one task is left alone when a job of another one goes or is replaced. -/
theorem Remains.of_other (h : d.Remains task rest) {job : Job κ ε} {line : List (Job κ ε)}
    (hline : d.line = job :: line) (hother : job.task ≠ task)
    (hline' : ∀ key more, Job.resume task key more ∈ d'.line ↔
      Job.resume task key more ∈ line) :
    d'.Remains task rest := by
  refine h.congr fun key more => ?_
  rw [hline', hline, List.mem_cons]
  constructor
  · exact .inr
  · rintro (rfl | hmem)
    · exact absurd rfl hother
    · exact hmem

/-- The job of a task that goes is the only one of that task. -/
theorem Sound.resume_notMem (hsound : Sound d) {key : κ} {actions : List (Action κ ε)} {line : List (Job κ ε)}
    (hline : d.line = .resume task key actions :: line) (other : κ) (more : List (Action κ ε)) :
    Job.resume task other more ∉ line := by
  have hdistinct := hsound.registered.distinct
  rw [hline, List.map_cons] at hdistinct
  intro hmem
  exact (List.nodup_cons.1 hdistinct).1 (List.mem_map.2 ⟨_, hmem, rfl⟩)

/-- A move does what remains of an event that has begun, one action after the other, or leaves it. -/
theorem Move.remains (hsound : Sound d) (hmove : Move d deed d') (hgone : d.Gone task) (h : d.Remains task rest) :
    ∃ rest', d'.Remains task rest' ∧
      Action.upToFailure rest = (deed.bind (Deed.doneBy? task)).toList ++ Action.upToFailure rest' := by
  cases hmove with
  | schedule key actions =>
    refine ⟨rest, h.congr fun k more => ?_, rfl⟩
    rw [(line_schedule d key actions).mem_iff]
    simp
  | cancel | cancelAll => exact ⟨rest, h, rfl⟩
  | wait hready hlive =>
    refine ⟨rest, h.congr fun k more => ?_, rfl⟩
    rw [(line_after _ _ _).mem_iff, line_eq_cons hready]
    simp
  | drop hready hjob hdead =>
    refine ⟨rest, h.congr fun k more => ?_, rfl⟩
    rw [line_eq_cons hready, List.mem_cons]
    constructor
    · exact .inr
    · rintro (rfl | hmem)
      · exact nomatch hjob
      · exact hmem
  | @begins t key actions queue hready hlive =>
    refine ⟨rest, h.congr fun k more => ?_, rfl⟩
    rw [line_eq_cons hready]
    have hother : t ≠ task := by
      rintro rfl
      exact hgone.dead key (isLive_iff.1 hlive)
    change _ ∈ Job.resume t key actions :: (d.withReady queue).line ↔ _
    simp [Ne.symm hother]
  | @act t key action actions queue hready hgoes =>
    have hline := line_eq_cons hready
    by_cases hown : t = task
    · obtain rfl := hown
      obtain rfl := h.eq_of_mem hsound (hline ▸ List.mem_cons_self)
      refine ⟨actions, .inl ⟨key, List.mem_cons_self⟩, ?_⟩
      cases action <;> simp_all [Action.goesOn, Action.upToFailure, Deed.doneBy?]
    · refine ⟨rest, h.of_other hline hown fun k more => ?_, by simp [Deed.doneBy?, hown]⟩
      change _ ∈ Job.resume t key actions :: (d.withReady queue).line ↔ _
      simp [Ne.symm hown]
  | @fail t key actions queue hready =>
    have hline := line_eq_cons hready
    by_cases hown : t = task
    · obtain rfl := hown
      obtain rfl := h.eq_of_mem hsound (hline ▸ List.mem_cons_self)
      exact ⟨[], .inr ⟨rfl, hsound.resume_notMem hline⟩, by simp [Action.upToFailure, Deed.doneBy?]⟩
    · exact ⟨rest, h.of_other hline hown fun _ _ => Iff.rfl, by simp [Deed.doneBy?, hown]⟩
  | @sleep t key seconds actions queue hready =>
    have hline := line_eq_cons hready
    by_cases hown : t = task
    · obtain rfl := hown
      obtain rfl := h.eq_of_mem hsound (hline ▸ List.mem_cons_self)
      exact ⟨actions, .inl ⟨key, (line_after _ _ _).mem_iff.2 List.mem_cons_self⟩, by
        simp [Action.upToFailure, Deed.doneBy?]⟩
    · refine ⟨rest, h.of_other hline hown fun k more => ?_, by simp [Deed.doneBy?, hown]⟩
      rw [(line_after _ _ _).mem_iff]
      simp [Ne.symm hown]
  | @finish t key queue hready =>
    have hline := line_eq_cons hready
    by_cases hown : t = task
    · obtain rfl := hown
      obtain rfl := h.eq_of_mem hsound (hline ▸ List.mem_cons_self)
      exact ⟨[], .inr ⟨rfl, hsound.resume_notMem hline⟩, rfl⟩
    · exact ⟨rest, h.of_other hline hown fun _ _ => Iff.rfl, rfl⟩
  | fire hready htimers => exact ⟨rest, h.congr fun _ _ => by rw [line_fireFirst htimers], rfl⟩
  | tick => exact ⟨rest, h, rfl⟩

/-- In a run, a task that waits no longer never begins, and what remains of its event is done in order as far as the run
goes. -/
theorem Moves.gone (hsound : Sound d) (hmoves : Moves d log d') (hgone : d.Gone task) (h : d.Remains task rest) :
    d'.Gone task ∧ (∀ x ∈ log, ¬ x.deed.Begins task) ∧
      ∃ rest', d'.Remains task rest' ∧ Action.upToFailure rest = doneBy task log ++ Action.upToFailure rest' := by
  induction hmoves generalizing rest with
  | nil => exact ⟨hgone, by simp, rest, h, rfl⟩
  | silent hmove _ ih =>
    obtain ⟨rest', hrest', hdone⟩ := hmove.remains hsound hgone h
    obtain ⟨hend, hnever, rest'', hrest'', hlater⟩ := ih (hmove.sound hsound) (hmove.gone hgone).1 hrest'
    exact ⟨hend, hnever, rest'', hrest'', hdone.trans hlater⟩
  | @deed _ d' _ x log hmove _ ih =>
    obtain ⟨rest', hrest', hdone⟩ := hmove.remains hsound hgone h
    obtain ⟨hgone', hnot⟩ := hmove.gone hgone
    obtain ⟨hend, hnever, rest'', hrest'', hlater⟩ := ih (hmove.sound hsound) hgone' hrest'
    refine ⟨hend, ?_, rest'', hrest'', ?_⟩
    · intro y hy
      rcases List.mem_cons.1 hy with rfl | hy
      · exact hnot x rfl
      · exact hnever y hy
    · have hcons : doneBy task (⟨x, d'⟩ :: log) = (x.doneBy? task).toList ++ doneBy task log := by
        cases hx : x.doneBy? task <;> simp [doneBy, hx]
      rw [hdone, hlater, hcons, List.append_assoc, Option.bind_some]

end Gone

/-! ## The run -/

section Run

variable {d d' : Debouncer κ ε} {e : Event κ ε} {log : List (Entry κ ε)}

omit [DecidableEq κ] in
/-- Of some actions at least one is done. -/
theorem upToFailure_eq_nil {actions : List (Action κ ε)} (h : Action.upToFailure actions = []) : actions = [] := by
  cases actions with
  | nil => rfl
  | cons action rest => cases action <;> simp [Action.upToFailure] at h

/-- What becomes of an event is not changed by deeds before it that do not concern it. -/
theorem Fate.cons {x : Entry κ ε} (h : Fate e log d) (hkeeps : ¬ x.deed.Supersedes e.key)
    (hspares : x.deed.Spares e.task) : Fate e (x :: log) d := by
  cases h with
  | begun hlog htime hbefore honce hrest hdone hgone =>
    have hbefore := List.forall_mem_cons.2 ⟨⟨hkeeps, hspares⟩, hbefore⟩
    exact .begun (by rw [hlog, List.cons_append]) htime hbefore honce hrest hdone hgone
  | superseded hlog hx htime hbefore hnever hrest hgone =>
    refine .superseded (by rw [hlog, List.cons_append]) hx htime ?_ ?_ hrest hgone
    · exact List.forall_mem_cons.2 ⟨hkeeps, hbefore⟩
    · exact List.forall_mem_cons.2 ⟨hspares, hnever⟩
  | waiting hlog hawaits => exact .waiting (List.forall_mem_cons.2 ⟨⟨hkeeps, hspares⟩, hlog⟩) hawaits

/-- What becomes of a waiting event in any run. -/
theorem Moves.fate (hsound : Sound d) (hmoves : Moves d log d') (h : d.Awaits e) : Fate e log d' := by
  induction hmoves with
  | nil => exact .waiting (by simp) h
  | silent hmove _ ih =>
    rcases hmove.fate hsound h with ⟨hawaits, -⟩ | ⟨x, hx, -⟩ | ⟨hx, -⟩
    · exact ih (hmove.sound hsound) hawaits
    · exact nomatch hx
    · exact nomatch hx
  | @deed _ d' _ deed log hmove hmoves ih =>
    have hsound' := hmove.sound hsound
    have hlog : ⟨deed, d'⟩ :: log = [] ++ ⟨deed, d'⟩ :: log := rfl
    rcases hmove.fate hsound h with ⟨hawaits, hspares⟩ | ⟨x, hx, hsupersedes, hspares, htime, hgone, hrest⟩ |
      ⟨hx, htime, hgone, hrest⟩
    · obtain ⟨hkeeps, hspares⟩ := hspares _ rfl
      exact (ih hsound' hawaits).cons hkeeps hspares
    · obtain rfl := Option.some.inj hx
      obtain ⟨hgone', hnever, rest', hrest', hdone⟩ := hmoves.gone hsound' hgone hrest
      obtain ⟨hnone, hleft⟩ := List.append_eq_nil_iff.1 hdone.symm
      obtain rfl := upToFailure_eq_nil hleft
      have hlater : ∀ y ∈ log, y.deed.Spares e.task := fun y hy => ⟨hnever y hy, List.filterMap_eq_nil_iff.1 hnone y hy⟩
      exact .superseded hlog hsupersedes htime (by simp) (List.forall_mem_cons.2 ⟨hspares, hlater⟩) hrest' hgone'
    · obtain rfl := Option.some.inj hx
      obtain ⟨hgone', hnever, rest', hrest', hdone⟩ := hmoves.gone hsound' hgone hrest
      exact .begun hlog htime (by simp) hnever hrest' hdone hgone'

/-- An event that has just been scheduled waits for its time. -/
theorem Move.awaits_scheduled {task : Nat} {key : κ} {actions : List (Action κ ε)}
    (hmove : Move d (some (.scheduled task key actions)) d') :
    d'.Awaits ⟨task, key, actions, d'.now + d.delay⟩ := by
  cases hmove with
  | schedule =>
    refine ⟨isLive_iff.2 ?_, .inl ⟨List.mem_append_right _ (List.mem_singleton.2 rfl), rfl⟩⟩
    rw [Debouncer.schedule, Assoc.get?_insert, if_pos rfl]
    rfl

/-- What becomes of every event that is scheduled in a run. -/
theorem Moves.fate_of_scheduled (hsound : Sound d) (hmoves : Moves d log d')
    {before later : List (Entry κ ε)} {task : Nat} {key : κ}
    {actions : List (Action κ ε)} {state : Debouncer κ ε}
    (hlog : log = before ++ ⟨.scheduled task key actions, state⟩ :: later) :
    Fate ⟨task, key, actions, state.now + d.delay⟩ later d' := by
  induction hmoves generalizing before with
  | nil => simp at hlog
  | silent hmove _ ih =>
    rw [← hmove.delay_eq]
    exact ih (hmove.sound hsound) hlog
  | deed hmove hmoves ih =>
    cases before with
    | nil =>
      obtain ⟨hentry, rfl⟩ := List.cons.inj hlog
      obtain ⟨rfl, rfl⟩ := Entry.mk.inj hentry
      exact hmoves.fate (hmove.sound hsound) hmove.awaits_scheduled
    | cons x before =>
      rw [← hmove.delay_eq]
      exact ih (hmove.sound hsound) (List.cons.inj hlog).2

/-- A job of a task whose event has not begun was there before, or the event has just been scheduled. -/
theorem Move.awaits_before {deed : Option (Deed κ ε)} (hmove : Move d deed d') {task : Nat} {key : κ}
    {actions : List (Action κ ε)} {job : Job κ ε} (hjob : job ∈ d'.line) (hawaits : job.Awaits task key actions) :
    (∃ job ∈ d.line, job.Awaits task key actions) ∨ deed = some (.scheduled task key actions) := by
  cases hmove with
  | schedule k more =>
    rcases List.mem_cons.1 ((line_schedule d k more).mem_iff.1 hjob) with rfl | hjob
    · cases hawaits
      exact .inr rfl
    · exact .inl ⟨job, hjob, hawaits⟩
  | cancel | cancelAll | tick => exact .inl ⟨job, hjob, hawaits⟩
  | wait hready hlive =>
    refine .inl ?_
    rw [line_eq_cons hready]
    rcases List.mem_cons.1 ((line_after _ _ _).mem_iff.1 hjob) with rfl | hjob
    · cases hawaits
      exact ⟨_, List.mem_cons_self, .start⟩
    · exact ⟨job, List.mem_cons_of_mem _ hjob, hawaits⟩
  | drop hready | fail hready | finish hready =>
    refine .inl ⟨job, ?_, hawaits⟩
    rw [line_eq_cons hready]
    exact List.mem_cons_of_mem _ hjob
  | begins hready | act hready =>
    refine .inl ⟨job, ?_, hawaits⟩
    rw [line_eq_cons hready]
    rcases List.mem_cons.1 hjob with rfl | hjob
    · exact nomatch hawaits
    · exact List.mem_cons_of_mem _ hjob
  | sleep hready =>
    refine .inl ⟨job, ?_, hawaits⟩
    rw [line_eq_cons hready]
    rcases List.mem_cons.1 ((line_after _ _ _).mem_iff.1 hjob) with rfl | hjob
    · exact nomatch hawaits
    · exact List.mem_cons_of_mem _ hjob
  | fire hready htimers => exact .inl ⟨job, line_fireFirst htimers ▸ hjob, hawaits⟩

/-- Whatever begins in a run was scheduled in it before, or its task had a job already. -/
theorem Moves.scheduled_of_began (hmoves : Moves d log d') {before later : List (Entry κ ε)} {task : Nat} {key : κ}
    {actions : List (Action κ ε)} {state : Debouncer κ ε}
    (hlog : log = before ++ ⟨.began task key actions, state⟩ :: later) :
    (∃ job ∈ d.line, job.Awaits task key actions) ∨ ∃ x ∈ before, x.deed = .scheduled task key actions := by
  induction hmoves generalizing before with
  | nil => simp at hlog
  | silent hmove _ ih =>
    rcases ih hlog with ⟨job, hjob, hawaits⟩ | hbefore
    · exact .inl ((hmove.awaits_before hjob hawaits).resolve_right nofun)
    · exact .inr hbefore
  | @deed d d' d'' deed log hmove hmoves ih =>
    cases before with
    | nil =>
      obtain ⟨hentry, rfl⟩ := List.cons.inj hlog
      obtain ⟨rfl, rfl⟩ := Entry.mk.inj hentry
      cases hmove with
      | begins hready hlive =>
        refine .inl ⟨_, ?_, .fire⟩
        rw [line_eq_cons hready]
        exact List.mem_cons_self
    | cons x before =>
      obtain ⟨rfl, htail⟩ := List.cons.inj hlog
      rcases ih htail with ⟨job, hjob, hawaits⟩ | ⟨y, hy, hscheduled⟩
      · rcases hmove.awaits_before hjob hawaits with hline | hdeed
        · exact .inl hline
        · exact .inr ⟨_, List.mem_cons_self, Option.some.inj hdeed⟩
      · exact .inr ⟨y, List.mem_cons_of_mem _ hy, hscheduled⟩

/-! ## One job for each key that waits -/

/-- The jobs of a key's waiting task. -/
def liveJobs (d : Debouncer κ ε) (key : κ) : List (Job κ ε) :=
  d.line.filter fun
    | .start task k _ => k = key && d.isLive task key
    | .fire task k _ => k = key && d.isLive task key
    | .resume _ _ _ => false

/-- The live jobs of a key are those in the line that await its event. -/
theorem mem_liveJobs {key : κ} {job : Job κ ε} :
    job ∈ d.liveJobs key ↔ job ∈ d.line ∧ ∃ task actions, job.Awaits task key actions ∧
    d.pending.get? key = some task := by
  rw [liveJobs, List.mem_filter]
  refine and_congr_right fun _ => ?_
  cases job with
  | start task k actions | fire task k actions =>
    simp only [Bool.and_eq_true, decide_eq_true_eq, isLive_iff]
    constructor
    · rintro ⟨rfl, hlive⟩
      exact ⟨task, actions, by constructor, hlive⟩
    · rintro ⟨_, _, ⟨⟩, hlive⟩
      exact ⟨rfl, hlive⟩
  | resume task k actions =>
    simp only [Bool.false_eq_true, false_iff]
    rintro ⟨_, _, ⟨⟩, -⟩

/-- A key has one live job if it waits, and none otherwise. -/
theorem Sound.length_liveJobs (hsound : Sound d) (key : κ) :
    (d.liveJobs key).length = if d.isPending key then 1 else 0 := by
  by_cases hpending : d.isPending key = true
  · rw [if_pos hpending]
    obtain ⟨task, htask⟩ := Assoc.contains_iff.1 hpending
    obtain ⟨actions, job, hjob, hawaits⟩ := hsound.registered.held key task htask
    have hone : ∀ other ∈ d.liveJobs key, other = job := by
      intro other hother
      obtain ⟨hline, task', actions', hawaits', htask'⟩ := mem_liveJobs.1 hother
      obtain rfl := Option.some.inj (htask.symm.trans htask')
      exact hsound.registered.eq_of_task_eq hline hjob (hawaits'.task_eq.trans hawaits.task_eq.symm)
    have hmem : job ∈ d.liveJobs key := mem_liveJobs.2 ⟨hjob, task, actions, hawaits, htask⟩
    have hnodup : (d.liveJobs key).Nodup := (List.Nodup.of_map Job.task hsound.registered.distinct).filter _
    have hsingle : d.liveJobs key = [job] := by
      by_contra hne
      rcases (hnodup.ne_singleton_iff job).1 hne with hnil | ⟨other, hother, hdiffers⟩
      · simp [hnil] at hmem
      · exact hdiffers (hone other hother)
    rw [hsingle, List.length_singleton]
  · rw [if_neg hpending, List.length_eq_zero_iff, List.eq_nil_iff_forall_not_mem]
    intro job hjob
    obtain ⟨-, task, actions, -, htask⟩ := mem_liveJobs.1 hjob
    exact hpending (Assoc.contains_iff.2 ⟨task, htask⟩)

end Run

/-- Only the last event of a key fires, once, unless it is dropped. Take any run in which time does not go back, with
any delay that is not negative. What it shows is what is seen of its journal. Each event that it schedules begins once,
at the instant of its scheduling and the delay, if no deed that drops its key's task comes before; if one does, which it
can up to that very instant, the event never begins; and otherwise it still waits for that instant. An event that has
begun does its actions in order up to a failure, whatever is scheduled or cancelled later, and what it has not yet done
is in the line. Nothing begins that was not scheduled. At every point a key has one live job if it waits, and none
otherwise. After a stretch of time the clock has moved on by it, nothing is at hand, and every timer is due later. -/
theorem run_fires {delay : Binary64} (hdelay : Binary64.zero.le delay = true) {calls : List (Call κ ε)}
    (hforward : ∀ call ∈ calls, call.Forward) :
    let idle : Debouncer κ ε := { delay }
    let d := (idle.run calls).1
    let log := idle.journal calls
    (idle.run calls).2 = emissions log ∧
    (∀ before later task key actions state, log = before ++ ⟨.scheduled task key actions, state⟩ :: later →
      Fate ⟨task, key, actions, state.now + delay⟩ later d) ∧
    (∀ before later task key actions state, log = before ++ ⟨.began task key actions, state⟩ :: later →
      ∃ x ∈ before, x.deed = .scheduled task key actions) ∧
    (∀ s ∈ d :: log.map (·.state), ∀ key, (s.liveJobs key).length = if s.isPending key then 1 else 0) ∧
    (∀ earlier seconds, calls = earlier ++ [.advance seconds] →
      d.now = (idle.run earlier).1.now + seconds ∧ d.ready = [] ∧ ∀ t ∈ d.timers, t.due.le d.now = false) := by
  have hidle := sound_idle (κ := κ) (ε := ε) hdelay
  have hmoves := journal_moves hidle hforward
  obtain ⟨hsound, hstates⟩ := hmoves.sound hidle
  refine ⟨run_emissions _ calls, ?_, ?_, ?_, ?_⟩
  · intro before later task key actions state hlog
    exact hmoves.fate_of_scheduled hidle hlog
  · intro before later task key actions state hlog
    refine (hmoves.scheduled_of_began hlog).resolve_left ?_
    rintro ⟨job, hjob, -⟩
    simp [line] at hjob
  · intro s hs key
    rcases List.mem_cons.1 hs with rfl | hs
    · exact hsound.length_liveJobs key
    · obtain ⟨x, hx, rfl⟩ := List.mem_map.1 hs
      exact (hstates x hx).length_liveJobs key
  · rintro earlier seconds rfl
    have hearlier := journal_moves hidle fun call hcall => hforward call (List.mem_append_left _ hcall)
    have hseconds := hforward (.advance seconds) (List.mem_append_right _ (List.mem_singleton.2 rfl))
    obtain ⟨-, hnow, hready, hlater⟩ := advance_moves (hearlier.sound hidle).1 hseconds
    rw [run_concat]
    refine ⟨hnow, hready, ?_⟩
    intro t ht
    rw [answer, hnow]
    exact hlater t ht

/-- Two events for one key, the second of which schedules another key before it fails, in a run that ends as the last
timer goes off. -/
theorem run_fires_burst :
    let idle : Debouncer String Nat := { delay := .finite false 4 }
    let calls : List (Call String Nat) := [.schedule "a" [.emit 1], .advance (.finite false 3),
      .schedule "a" [.emit 2, .schedule "b" [.emit 3], .fail, .emit 4], .advance (.finite false 4),
        .advance (.finite false 4)]
    (idle.run calls).2 = [.effect 2, .failed "a", .effect 3] ∧
      ∃ later state, idle.journal calls = ⟨.scheduled 0 "a" [.emit 1], state⟩ :: later ∧
        Fate ⟨0, "a", [.emit 1], .finite false 4⟩ later (idle.run calls).1 := by
  have hdelay : Binary64.zero.le (.finite false 4) = true := by decide
  have hdue : Binary64.zero + .finite false 4 = .finite false 4 := by decide +kernel
  intro idle calls
  have hforward : ∀ call ∈ calls, call.Forward := by
    simp [calls, Call.Forward, Binary64.zero, Binary64.le, Binary64.signedUnits]
  have hlog : idle.journal calls =
      [] ++ ⟨.scheduled 0 "a" [.emit 1], idle.schedule "a" [.emit 1]⟩ ::
        (idle.schedule "a" [.emit 1]).journal calls.tail := rfl
  obtain ⟨-, hfates, -⟩ := run_fires hdelay hforward
  have hfate := hfates _ _ _ _ _ _ hlog
  have hnow : (idle.schedule "a" [.emit 1]).now = Binary64.zero := rfl
  rw [hnow, hdue] at hfate
  exact ⟨by decide +kernel, _, _, hlog, hfate⟩

end Debouncer

end DocRefs
