import DocRefs.Assoc
import DocRefs.Number.Binary64

/-!
# Debouncing

Bursts of events are folded, by key, into one that fires when the key has been quiet for a while. Scheduling a key
starts a task, which waits for the delay and then performs the event's actions; the key's earlier task, if it still
waits, is dropped.

Time stands still between calls of `advance`. Work that waits for nothing is kept in a queue and done in order; timers
of one instant join the queue together, in the order in which they were set.
-/

namespace DocRefs

/-- What an event does once it fires, step by step: an effect outside, a failure that ends it, a wait, an event of its
own, or the end of a key's waiting task. -/
inductive Action (κ ε : Type)
  | emit (effect : ε)
  | fail
  | sleep (seconds : Binary64)
  | schedule (key : κ) (actions : List (Action κ ε))
  | cancel (key : κ)

/-- A step of a task: it begins to wait, it fires, or it goes on after a wait of its own. -/
inductive Job (κ ε : Type)
  | start (task : Nat) (key : κ) (actions : List (Action κ ε))
  | fire (task : Nat) (key : κ) (actions : List (Action κ ε))
  | resume (task : Nat) (key : κ) (actions : List (Action κ ε))

/-- A step that is due at an instant. -/
structure Timer (κ ε : Type) where
  due : Binary64
  job : Job κ ε

/-- What is seen from outside: an effect, or the failure of a key's event. -/
inductive Emission (κ ε : Type)
  | effect (e : ε)
  | failed (key : κ)
deriving Repr, DecidableEq

/-- The tasks of a debouncer. `pending` holds the task that waits for each key; timers are in the order in which they
fire. -/
structure Debouncer (κ ε : Type) where
  delay : Binary64
  now : Binary64 := .zero
  tasks : Nat := 0
  pending : Assoc κ Nat := .empty
  ready : List (Job κ ε) := []
  timers : List (Timer κ ε) := []

namespace Debouncer

variable {κ ε : Type}

/-- Puts a timer behind all those that are due no later. -/
def insertTimer (t : Timer κ ε) : List (Timer κ ε) → List (Timer κ ε)
  | [] => [t]
  | u :: us => if u.due.le t.due then u :: insertTimer t us else t :: u :: us

/-- Does a step after some seconds; a wait that is not positive only goes to the end of the queue. -/
def after (d : Debouncer κ ε) (seconds : Binary64) (job : Job κ ε) : Debouncer κ ε :=
  if seconds.isPositive then { d with timers := insertTimer ⟨d.now + seconds, job⟩ d.timers }
  else { d with ready := d.ready ++ [job] }

variable [DecidableEq κ]

/-- Drops the waiting task of a key. -/
def cancel (d : Debouncer κ ε) (key : κ) : Debouncer κ ε :=
  { d with pending := d.pending.erase key }

/-- Drops every waiting task. -/
def cancelAll (d : Debouncer κ ε) : Debouncer κ ε :=
  { d with pending := .empty }

/-- Starts a task for a key in place of its waiting one. -/
def schedule (d : Debouncer κ ε) (key : κ) (actions : List (Action κ ε)) : Debouncer κ ε :=
  let d := d.cancel key
  { d with
    tasks := d.tasks + 1
    pending := d.pending.insert key d.tasks
    ready := d.ready ++ [.start d.tasks key actions] }

/-- Whether a task waits for a key. -/
def isPending (d : Debouncer κ ε) (key : κ) : Bool :=
  d.pending.contains key

/-- Whether a task is the one that waits for a key. -/
def isLive (d : Debouncer κ ε) (task : Nat) (key : κ) : Bool :=
  d.pending.get? key = some task

/-- Performs the actions of a task's event up to a wait, a failure, or the end. -/
def perform (d : Debouncer κ ε) (task : Nat) (key : κ) : List (Action κ ε) → Debouncer κ ε × List (Emission κ ε)
  | [] => (d, [])
  | .emit e :: rest =>
    let (d, out) := perform d task key rest
    (d, .effect e :: out)
  | .fail :: _ => (d, [.failed key])
  | .sleep seconds :: rest => (d.after seconds (.resume task key rest), [])
  | .schedule k actions :: rest => perform (d.schedule k actions) task key rest
  | .cancel k :: rest => perform (d.cancel k) task key rest

/-- Does one step of a task; a task that was dropped does nothing. -/
def step (d : Debouncer κ ε) : Job κ ε → Debouncer κ ε × List (Emission κ ε)
  | .start task key actions => if d.isLive task key then (d.after d.delay (.fire task key actions), []) else (d, [])
  | .fire task key actions => if d.isLive task key then (d.cancel key).perform task key actions else (d, [])
  | .resume task key actions => d.perform task key actions

/-! ## The work that is left -/

mutual

/-- The steps that an action may lead to beyond the event's own. -/
def actionWork : Action κ ε → Nat
  | .emit _ => 0
  | .fail => 0
  | .sleep _ => 2
  | .schedule _ actions => actionsWork actions + 3
  | .cancel _ => 0

/-- The steps that actions may lead to beyond the event's own. -/
def actionsWork : List (Action κ ε) → Nat
  | [] => 0
  | a :: rest => actionWork a + actionsWork rest

end

/-- The steps that a job may still lead to, while it is in the queue. -/
def jobWork : Job κ ε → Nat
  | .start _ _ actions => actionsWork actions + 3
  | .fire _ _ actions => actionsWork actions + 1
  | .resume _ _ actions => actionsWork actions + 1

/-- The steps that a list of jobs may lead to. -/
def queueWork : List (Job κ ε) → Nat
  | [] => 0
  | job :: jobs => jobWork job + queueWork jobs

/-- The steps that timers may lead to: one more each than in the queue. -/
def timerWork : List (Timer κ ε) → Nat
  | [] => 0
  | t :: timers => jobWork t.job + 1 + timerWork timers

/-- The steps that are left. -/
def work (d : Debouncer κ ε) : Nat :=
  queueWork d.ready + timerWork d.timers

omit [DecidableEq κ] in
theorem queueWork_append (jobs more : List (Job κ ε)) : queueWork (jobs ++ more) = queueWork jobs + queueWork more := by
  induction jobs with
  | nil => simp [queueWork]
  | cons job jobs ih =>
    simp only [List.cons_append, queueWork, ih]
    omega

omit [DecidableEq κ] in
theorem timerWork_append (timers more : List (Timer κ ε)) :
    timerWork (timers ++ more) = timerWork timers + timerWork more := by
  induction timers with
  | nil => simp [timerWork]
  | cons t timers ih =>
    simp only [List.cons_append, timerWork, ih]
    omega

omit [DecidableEq κ] in
/-- A timer that is set adds its own work. -/
theorem timerWork_insertTimer (t : Timer κ ε) (ts : List (Timer κ ε)) :
    timerWork (insertTimer t ts) = jobWork t.job + 1 + timerWork ts := by
  induction ts with
  | nil => simp [insertTimer, timerWork]
  | cons u us ih =>
    unfold insertTimer
    split
    · simp only [timerWork, ih]
      omega
    · simp only [timerWork]

omit [DecidableEq κ] in
/-- A job that is put off brings its own work and one step more at most. -/
theorem work_after_le (d : Debouncer κ ε) (seconds : Binary64) (job : Job κ ε) :
    (d.after seconds job).work ≤ d.work + jobWork job + 1 := by
  unfold after
  split
  · simp only [work, timerWork_insertTimer]
    omega
  · simp only [work, queueWork_append, queueWork]
    omega

/-- An event that is scheduled brings its actions, and three steps that lead to them. -/
theorem work_schedule (d : Debouncer κ ε) (key : κ) (actions : List (Action κ ε)) :
    (d.schedule key actions).work = d.work + (actionsWork actions + 3) := by
  simp only [schedule, cancel, work, queueWork_append, queueWork, jobWork]
  omega

/-- Performing actions leaves no more work than they promised. -/
theorem work_perform_le (d : Debouncer κ ε) (task : Nat) (key : κ) (actions : List (Action κ ε)) :
    (d.perform task key actions).1.work ≤ d.work + actionsWork actions := by
  induction actions generalizing d with
  | nil => simp [perform]
  | cons a rest ih =>
    cases a with
    | emit e =>
      have := ih d
      simp only [perform, actionsWork]
      omega
    | fail => simp [perform]
    | sleep seconds =>
      have := work_after_le d seconds (.resume task key rest)
      simp only [perform, jobWork, actionsWork, actionWork] at this ⊢
      omega
    | schedule k body =>
      have h1 := ih (d.schedule k body)
      have h2 := work_schedule d k body
      simp only [perform, actionsWork, actionWork]
      omega
    | cancel k =>
      have := ih (d.cancel k)
      have hc : (d.cancel k).work = d.work := rfl
      simp only [perform, actionsWork]
      omega

/-- A step leaves less work than it was. -/
theorem work_step_lt (d : Debouncer κ ε) (job : Job κ ε) : (d.step job).1.work < d.work + jobWork job := by
  cases job with
  | start task key actions =>
    have := work_after_le d d.delay (.fire task key actions)
    simp only [step, jobWork] at this ⊢
    cases d.isLive task key <;> simp only [Bool.false_eq_true, ↓reduceIte] <;> omega
  | fire task key actions =>
    have := work_perform_le (d.cancel key) task key actions
    have hc : (d.cancel key).work = d.work := rfl
    simp only [step, jobWork]
    cases d.isLive task key <;> simp only [Bool.false_eq_true, ↓reduceIte] <;> omega
  | resume task key actions =>
    have := work_perform_le d task key actions
    simp only [step, jobWork]
    omega

/-! ## Running -/

/-- Takes the first job from the queue. -/
def withReady (d : Debouncer κ ε) (ready : List (Job κ ε)) : Debouncer κ ε :=
  { d with ready }

/-- Does all the work that waits for nothing. -/
def settle (d : Debouncer κ ε) : Debouncer κ ε × List (Emission κ ε) :=
  match h : d.ready with
  | [] => (d, [])
  | job :: rest =>
    have : ((d.withReady rest).step job).1.work < d.work := by
      have := work_step_lt (d.withReady rest) job
      simp only [work, withReady, h, queueWork] at this ⊢
      omega
    let stepped := (d.withReady rest).step job
    let settled := settle stepped.1
    (settled.1, stepped.2 ++ settled.2)
termination_by d.work

/-- No work is added by doing what is at hand. -/
theorem work_settle_le (d : Debouncer κ ε) : d.settle.1.work ≤ d.work := by
  fun_induction settle d with
  | case1 d h => exact Nat.le_refl _
  | case2 d job rest h hlt stepped settled ih => exact Nat.le_trans ih (Nat.le_of_lt hlt)

/-- The instant of the first timer, with everything that is due then in the queue. -/
def fireFirst (d : Debouncer κ ε) (first : Timer κ ε) (others : List (Timer κ ε)) : Debouncer κ ε :=
  { d with
    now := first.due
    ready := d.ready ++ first.job :: (others.takeWhile fun t => t.due.le first.due).map (·.job)
    timers := others.dropWhile fun t => t.due.le first.due }

omit [DecidableEq κ] in
/-- A timer that fires leaves less work. -/
theorem work_fireFirst_lt (d : Debouncer κ ε) (first : Timer κ ε) (others : List (Timer κ ε))
    (h : d.timers = first :: others) : (d.fireFirst first others).work < d.work := by
  have hsum : ∀ ts : List (Timer κ ε), queueWork (ts.map (·.job)) ≤ timerWork ts := by
    intro ts
    induction ts with
    | nil => simp [queueWork, timerWork]
    | cons t ts ih =>
      simp only [List.map_cons, queueWork, timerWork]
      omega
  have h1 := hsum (others.takeWhile fun t => t.due.le first.due)
  have h2 := timerWork_append (others.takeWhile fun t => t.due.le first.due)
    (others.dropWhile fun t => t.due.le first.due)
  rw [List.takeWhile_append_dropWhile] at h2
  simp only [work, fireFirst, h, queueWork_append, queueWork, timerWork]
  omega

/-- Moves the clock to an instant: every timer that is due by then fires at its own instant. -/
def advanceTo (d : Debouncer κ ε) (instant : Binary64) : Debouncer κ ε × List (Emission κ ε) :=
  match h : d.timers with
  | [] => ({ d with now := instant }, [])
  | first :: others =>
    if first.due.le instant then
      have : (d.fireFirst first others).settle.1.work < d.work :=
        Nat.lt_of_le_of_lt (work_settle_le _) (work_fireFirst_lt d first others h)
      let fired := (d.fireFirst first others).settle
      let later := advanceTo fired.1 instant
      (later.1, fired.2 ++ later.2)
    else ({ d with now := instant }, [])
termination_by d.work

/-- Moves the clock by some seconds. -/
def advance (d : Debouncer κ ε) (seconds : Binary64) : Debouncer κ ε × List (Emission κ ε) :=
  let (d, out) := d.settle
  let (d, more) := d.advanceTo (d.now + seconds)
  (d, out ++ more)

end Debouncer

end DocRefs
