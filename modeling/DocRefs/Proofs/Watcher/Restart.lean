import DocRefs.Proofs.Watcher

/-!
# Starting a watcher again

A watch may end by itself or fail, and what is left of it then stays with the watcher until it is stopped. While it
stays a start opens no other watch, though none runs any more; and the failure of a watch comes up when it is stopped
and keeps it from being taken away. So a watcher that is started comes to life exactly if none of its watches is over
and not stopped, and it can be stopped, and started after that, exactly if its watch has not failed
(`Watcher.run_restarts`).

All that can happen to a watcher is told by one lemma (`Watcher.happen_cases`).
-/

namespace DocRefs

namespace Watcher

/-! ## What may happen -/

/-- What may happen to a watcher: a move, or the failure of the watch. -/
inductive Event
  | move (m : Move)
  | failure

/-- What comes into the queue. -/
def Event.fed : Event → List Feed
  | move m => m.fed
  | failure => [.crash]

/-- Lets something happen. -/
def happen (w : Watcher) (fails : List FilePath → Bool) : Event → Watcher
  | .move m => (w.move fails m).1
  | .failure => (w.feed .crash fails).1

/-- Lets one thing happen after another. -/
def after (w : Watcher) (fails : List FilePath → Bool) (events : List Event) : Watcher :=
  events.foldl (happen · fails) w

/-- A watcher of a directory, from its beginning. -/
def run (directory : FilePath) (fails : List FilePath → Bool) (events : List Event) : Watcher :=
  after { directory := directory } fails events

/-- A watch that runs leaves nothing in the queue. -/
def Drained (w : Watcher) : Prop :=
  w.loop = .running → w.queue = []

variable {w : Watcher} {e : Event} {fails : List FilePath → Bool}

theorem after_concat (w : Watcher) (fails : List FilePath → Bool) (events : List Event) (e : Event) :
    w.after fails (events ++ [e]) = (w.after fails events).happen fails e := by
  rw [after, List.foldl_append]
  rfl

/-- Reading a queue does not take the loop away. -/
theorem loopAfter_ne_absent (queue : List Feed) : loopAfter queue ≠ .absent := by
  induction queue with
  | nil => simp [loopAfter]
  | cons item rest ih =>
    cases item with
    | batch paths => exact ih
    | finish => simp [loopAfter]
    | crash => simp [loopAfter]

/-- A watch that reads a queue runs on exactly if there is no end mark in it. -/
theorem loopAfter_eq_running_iff (queue : List Feed) :
    loopAfter queue = .running ↔ ∀ item ∈ queue, item.isMark = false := by
  induction queue with
  | nil => simp [loopAfter]
  | cons item rest ih =>
    rw [List.forall_mem_cons]
    cases item with
    | batch paths =>
      rw [loopAfter, ih]
      exact (and_iff_right rfl).symm
    | finish => simp [loopAfter, Feed.isMark]
    | crash => simp [loopAfter, Feed.isMark]

/-- What is fed to a watch that runs is read up to the first end mark. -/
theorem feed_running (fails : List FilePath → Bool) (item : Feed) (h : w.loop = .running) :
    (w.feed item fails).1 =
      { w with loop := loopAfter (w.queue ++ [item]), queue := Feed.behindMark (w.queue ++ [item]) } :=
  (settle_running (w := { w with queue := w.queue ++ [item] }) fails h).1

/-- What is fed to a watch that does not run stays in the queue. -/
theorem feed_still (fails : List FilePath → Bool) (item : Feed) (h : w.loop ≠ .running) :
    (w.feed item fails).1 = { w with queue := w.queue ++ [item] } :=
  congrArg Prod.fst (settle_still (w := { w with queue := w.queue ++ [item] }) fails h)

/-- What happens opens a watch where none is there, or stops the one that is there, or is read by a watch that runs; or
it only waits. -/
theorem happen_cases (fails : List FilePath → Bool) (e : Event) :
    (e = .move .start ∧ w.loop = .absent ∧ w.happen fails e =
      { w with loop := loopAfter w.queue, queue := Feed.behindMark w.queue, opened := w.opened + 1 }) ∨
    (e = .move .stop ∧ w.happen fails e = { w with loop := if w.loop = .crashed then .crashed else .absent }) ∨
    (e ≠ .move .stop ∧ w.loop = .running ∧ w.happen fails e =
      { w with loop := loopAfter (w.queue ++ e.fed), queue := Feed.behindMark (w.queue ++ e.fed) }) ∨
    (e ≠ .move .stop ∧ (w.loop = .running → e.fed = []) ∧ w.happen fails e = { w with queue := w.queue ++ e.fed }) := by
  have hfeed : ∀ item, (w.loop = .running ∧ (w.feed item fails).1 =
        { w with loop := loopAfter (w.queue ++ [item]), queue := Feed.behindMark (w.queue ++ [item]) }) ∨
      ((w.loop = .running → [item] = []) ∧ (w.feed item fails).1 = { w with queue := w.queue ++ [item] }) := by
    intro item
    by_cases hrunning : w.loop = .running
    · exact .inl ⟨hrunning, feed_running fails item hrunning⟩
    · exact .inr ⟨fun h => absurd h hrunning, feed_still fails item hrunning⟩
  have hnothing : ({ w with queue := w.queue ++ [] } : Watcher) = w := by rw [List.append_nil]
  cases e with
  | failure =>
    right; right
    exact (hfeed .crash).imp (fun h => ⟨by simp, h⟩) fun h => ⟨by simp, h⟩
  | move m =>
    cases m with
    | start =>
      by_cases habsent : w.loop = .absent
      · have hreads := (move_reads (m := .start) fails habsent).1
        rw [Move.fed, List.append_nil, openedAfter, if_pos habsent] at hreads
        exact .inl ⟨rfl, habsent, hreads⟩
      · refine .inr (.inr (.inr ⟨by simp, fun _ => rfl, ?_⟩))
        exact (move_still (m := .start) fails habsent).1
    | stop =>
      have hstill := (move_still (w := w) (m := .stop) fails id).1
      rw [Move.fed, List.append_nil] at hstill
      exact .inr (.inl ⟨rfl, hstill⟩)
    | wait => exact .inr (.inr (.inr ⟨by simp, fun _ => rfl, hnothing.symm⟩))
    | emit paths =>
      right; right
      exact (hfeed (.batch paths)).imp (fun h => ⟨by simp, h⟩) fun h => ⟨by simp, h⟩
    | finish =>
      right; right
      exact (hfeed .finish).imp (fun h => ⟨by simp, h⟩) fun h => ⟨by simp, h⟩

/-- After any event a watch that runs has left nothing in the queue. -/
theorem Drained.happen (h : w.Drained) (fails : List FilePath → Bool) (e : Event) : (w.happen fails e).Drained := by
  rcases happen_cases (w := w) fails e with ⟨-, -, hafter⟩ | ⟨-, hafter⟩ | ⟨-, -, hafter⟩ | ⟨-, hfed, hafter⟩
  · rw [hafter]
    intro hrunning
    exact (of_loopAfter_eq_running hrunning).1
  · rw [hafter]
    intro hrunning
    dsimp only at hrunning
    split at hrunning <;> simp at hrunning
  · rw [hafter]
    intro hrunning
    exact (of_loopAfter_eq_running hrunning).1
  · rw [hafter]
    intro hrunning
    have hqueue : w.queue = [] := h hrunning
    change w.queue ++ e.fed = []
    rw [hqueue, hfed hrunning, List.append_nil]

/-- Throughout a run a watch that runs has left nothing in the queue. -/
theorem drained_run (directory : FilePath) (fails : List FilePath → Bool) (events : List Event) :
    (run directory fails events).Drained := by
  induction events using List.reverseRecOn with
  | nil =>
    intro _
    rfl
  | append_singleton events e ih =>
    rw [run, after_concat]
    exact ih.happen fails e

/-! ## A watch that is there -/

/-- Without a stop the watch that is there stays, and runs on as long as it ran and no end mark comes in. -/
theorem Drained.loop_happen (h : w.Drained) (hthere : w.loop ≠ .absent) (hstop : e ≠ .move .stop)
    (fails : List FilePath → Bool) :
    (w.happen fails e).loop ≠ .absent ∧
      ((w.happen fails e).loop = .running ↔ w.loop = .running ∧ ∀ item ∈ e.fed, item.isMark = false) := by
  rcases happen_cases (w := w) fails e with ⟨-, habsent, -⟩ | ⟨he, -⟩ | ⟨-, hrunning, hafter⟩ | ⟨-, hfed, hafter⟩
  · exact absurd habsent hthere
  · exact absurd he hstop
  · rw [hafter, h hrunning, List.nil_append]
    refine ⟨loopAfter_ne_absent _, ?_⟩
    rw [and_iff_right hrunning]
    exact loopAfter_eq_running_iff _
  · rw [hafter]
    refine ⟨hthere, fun hrunning => ⟨hrunning, ?_⟩, fun hrunning => hrunning.1⟩
    rw [hfed hrunning]
    exact List.forall_mem_nil _

/-- However much happens, as long as it is not stopped. -/
theorem Drained.loop_after (h : w.Drained) (hthere : w.loop ≠ .absent) {events : List Event}
    (hstop : Event.move .stop ∉ events) (fails : List FilePath → Bool) :
    (w.after fails events).loop = .running ↔ w.loop = .running ∧ ∀ item ∈ events.flatMap Event.fed,
    item.isMark = false := by
  induction events generalizing w with
  | nil => simp [after]
  | cons e events ih =>
    rw [List.mem_cons, not_or] at hstop
    obtain ⟨hstays, hruns⟩ := h.loop_happen hthere (Ne.symm hstop.1) fails
    refine (ih (h.happen fails e) hstays hstop.2).trans ?_
    rw [hruns, and_assoc, List.flatMap_cons, List.forall_mem_append]

/-- A failed watch stays for ever. -/
theorem crashed_happen (h : w.loop = .crashed) (fails : List FilePath → Bool) (e : Event) :
    (w.happen fails e).loop = .crashed := by
  rcases happen_cases (w := w) fails e with ⟨-, habsent, -⟩ | ⟨-, hafter⟩ | ⟨-, hrunning, -⟩ | ⟨-, -, hafter⟩
  · rw [h] at habsent
    exact absurd habsent (by decide)
  · rw [hafter]
    exact if_pos h
  · rw [h] at hrunning
    exact absurd hrunning (by decide)
  · rw [hafter]
    exact h

/-- A loop that has crashed stays so whatever happens. -/
theorem crashed_after (h : w.loop = .crashed) (fails : List FilePath → Bool) (events : List Event) :
    (w.after fails events).loop = .crashed := by
  induction events using List.reverseRecOn with
  | nil => exact h
  | append_singleton events e ih =>
    rw [after_concat]
    exact crashed_happen ih fails e

/-! ## Coming to life -/

/-- A start brings a watcher to life: a watch opens or runs already, and it runs from then on as long as it is not
stopped and neither what waits nor what comes in brings its end. -/
structure StartsAlive (w : Watcher) (fails : List FilePath → Bool) : Prop where
  opens : (w.start fails).1.opened = w.opened + 1 ∨ w.isRunning = true
  runs : ∀ events : List Event, Event.move .stop ∉ events →
    (((w.start fails).1.after fails events).isRunning = true ↔
      ∀ item ∈ w.queue ++ events.flatMap Event.fed, item.isMark = false)

/-- A stop ends a watcher: it returns, no watch runs then, and a start brings it to life again. -/
def StopsClean (w : Watcher) (fails : List FilePath → Bool) : Prop :=
  ∃ stopped output, w.stop = .ok (stopped, output) ∧ stopped.isRunning = false ∧ stopped.StartsAlive fails

theorem isRunning_iff (w : Watcher) : w.isRunning = true ↔ w.loop = .running :=
  decide_eq_true_iff

/-- Where no watch is there one opens. -/
theorem startsAlive_of_absent (h : w.loop = .absent) (fails : List FilePath → Bool) : w.StartsAlive fails := by
  have hstarted : (w.start fails).1 =
      { w with loop := loopAfter w.queue, queue := Feed.behindMark w.queue, opened := w.opened + 1 } := by
    have hreads := (move_reads (m := .start) fails h).1
    rwa [Move.fed, List.append_nil, openedAfter, if_pos h] at hreads
  have hdrained : (w.start fails).1.Drained := by
    rw [hstarted]
    intro hrunning
    exact (of_loopAfter_eq_running hrunning).1
  have hthere : (w.start fails).1.loop = loopAfter w.queue := by rw [hstarted]
  refine ⟨.inl (by rw [hstarted]), ?_⟩
  intro events hstop
  rw [isRunning_iff, hdrained.loop_after (hthere ▸ loopAfter_ne_absent _) hstop, hthere, loopAfter_eq_running_iff,
    List.forall_mem_append]

/-- Where one is there a start does nothing. -/
theorem start_of_there (h : w.loop ≠ .absent) (fails : List FilePath → Bool) : w.start fails = (w, {}) := by
  rw [start, if_neg h]

/-- A watch that runs runs on. -/
theorem Drained.startsAlive (h : w.Drained) (hrunning : w.loop = .running) (fails : List FilePath → Bool) :
    w.StartsAlive fails := by
  have hthere : w.loop ≠ .absent := by
    rw [hrunning]
    decide
  refine ⟨.inr ((isRunning_iff w).2 hrunning), ?_⟩
  intro events hstop
  rw [start_of_there hthere, isRunning_iff, h.loop_after hthere hstop, and_iff_right hrunning,
    h hrunning, List.nil_append]

/-- A watch that is over and was not stopped keeps another from opening. -/
theorem not_startsAlive (hthere : w.loop ≠ .absent) (hover : w.loop ≠ .running) (fails : List FilePath → Bool) :
    ¬ w.StartsAlive fails := by
  intro hstarts
  have hopens := hstarts.opens
  rw [start_of_there hthere, isRunning_iff] at hopens
  rcases hopens with hopened | hrunning
  · exact absurd hopened (Nat.ne_of_lt (Nat.lt_succ_self _))
  · exact hover hrunning

/-- A start brings a watcher to life exactly if no watch is there or one runs. -/
theorem Drained.startsAlive_iff (h : w.Drained) (fails : List FilePath → Bool) :
    w.StartsAlive fails ↔ w.loop = .absent ∨ w.loop = .running := by
  constructor
  · intro hstarts
    by_contra hover
    rw [not_or] at hover
    exact not_startsAlive hover.1 hover.2 fails hstarts
  · rintro (habsent | hrunning)
    · exact startsAlive_of_absent habsent fails
    · exact h.startsAlive hrunning fails

/-- The failure of a watch comes up when it is stopped. -/
theorem stop_of_crashed (h : w.loop = .crashed) : w.stop = .error () := by
  rw [stop, h]

/-- A loop that has not crashed can be stopped. -/
theorem exists_stop (h : w.loop ≠ .crashed) : ∃ output, w.stop = .ok ({ w with loop := .absent }, output) := by
  unfold stop
  split
  · rename_i habsent
    exact ⟨_, by rw [← habsent]⟩
  · rename_i hcrashed
    exact absurd hcrashed h
  · exact ⟨_, rfl⟩

/-- A stop ends a watcher exactly if its watch has not failed. -/
theorem stopsClean_iff (w : Watcher) (fails : List FilePath → Bool) : w.StopsClean fails ↔ w.loop ≠ .crashed := by
  constructor
  · rintro ⟨stopped, output, hstop, -, -⟩ hcrashed
    rw [stop_of_crashed hcrashed] at hstop
    exact absurd hstop (by simp)
  · intro hsound
    obtain ⟨output, hstop⟩ := exists_stop hsound
    exact ⟨_, output, hstop, rfl, startsAlive_of_absent rfl fails⟩

theorem run_append (directory : FilePath) (fails : List FilePath → Bool) (events more : List Event) :
    run directory fails (events ++ more) = (run directory fails events).after fails more :=
  List.foldl_append

/-- However a watcher comes to be where it is, a start brings it to life exactly if no watch is there or one runs, and a
stop ends it exactly if its watch has not failed. Where the watch is over a start does nothing; where it has failed a
stop brings up the failure, and so it goes for ever, whatever happens then. -/
theorem run_restarts (directory : FilePath) (fails : List FilePath → Bool) (events : List Event) :
    let w := run directory fails events
    (w.StartsAlive fails ↔ w.loop = .absent ∨ w.loop = .running) ∧
    (w.StopsClean fails ↔ w.loop ≠ .crashed) ∧
    (w.loop = .finished ∨ w.loop = .crashed → w.start fails = (w, {})) ∧
    (w.loop = .crashed → ∀ more, (run directory fails (events ++ more)).stop = .error () ∧
      ¬ (run directory fails (events ++ more)).StartsAlive fails) := by
  intro w
  refine ⟨(drained_run directory fails events).startsAlive_iff fails, stopsClean_iff w fails, ?_, ?_⟩
  · intro hover
    refine start_of_there ?_ fails
    rcases hover with h | h <;> rw [h] <;> decide
  · intro hcrashed more
    have hstays : (run directory fails (events ++ more)).loop = .crashed := by
      rw [run_append]
      exact crashed_after hcrashed fails more
    refine ⟨stop_of_crashed hstays, not_startsAlive ?_ ?_ fails⟩
    · rw [hstays]
      decide
    · rw [hstays]
      decide

/-- A watch that ended is not followed by another one when its watcher is started again, and one that failed is not
stopped. -/
theorem not_restarted :
    let ended := run ⟨0, ["docs"]⟩ (fun _ => false) [.move .start, .move .finish]
    let failed := run ⟨0, ["docs"]⟩ (fun _ => false) [.move .start, .failure]
    (¬ ended.StartsAlive (fun _ => false) ∧ (ended.start (fun _ => false)).1.isRunning = false ∧
      (ended.start (fun _ => false)).1.opened = 1) ∧
    ¬ failed.StopsClean (fun _ => false) ∧ failed.stop = .error () := by
  intro ended failed
  have hstill : (ended.start fun _ => false).1.isRunning = false ∧
    (ended.start fun _ => false).1.opened = 1 := by decide
  have hstop : failed.stop = .error () := rfl
  refine ⟨⟨?_, hstill⟩, ?_, hstop⟩
  · intro hstarts
    have hnone : ¬ ((ended.start fun _ => false).1.opened = ended.opened + 1 ∨ ended.isRunning = true) := by decide
    exact hnone hstarts.opens
  · rintro ⟨stopped, output, hstopped, -, -⟩
    rw [hstop] at hstopped
    exact absurd hstopped (by simp)

end Watcher

end DocRefs
