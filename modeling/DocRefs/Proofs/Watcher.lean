import DocRefs.Watcher
import Mathlib.Data.List.Induction
import Mathlib.Data.List.Nodup

/-!
# A watcher neither loses nor repeats a change

A watcher is started and stopped, its end is waited for, and batches of changes and ends of the watch come into its
queue. What is taken from the queue is written down with the number of the watch that took it (`Watcher.Life`). However
such a life goes, what came in is what was taken, in its order and each once, and what waits still; and what is passed
on are the batches that were taken, as far as they are of interest (`Watcher.life_faithful`).

What a move takes is all that waits up to the first end mark (`Watcher.consume_eq`), and it takes that only where a
watch runs or opens (`Watcher.move_cases`).
-/

namespace DocRefs

/-! ## A queue and its end marks -/

namespace Feed

/-- Whether a watch ends here. -/
def isMark : Feed → Bool
  | batch _ => false
  | finish => true
  | crash => true

/-- The front of a queue up to the first end mark, with the mark. -/
def upToMark : List Feed → List Feed
  | [] => []
  | batch paths :: rest => batch paths :: upToMark rest
  | mark :: _ => [mark]

/-- What stands behind the first end mark of a queue. -/
def behindMark : List Feed → List Feed
  | [] => []
  | batch _ :: rest => behindMark rest
  | _ :: rest => rest

/-- A queue is what comes up to its first end mark and what comes behind that. -/
theorem upToMark_append_behindMark (queue : List Feed) : upToMark queue ++ behindMark queue = queue := by
  induction queue with
  | nil => rfl
  | cons item rest ih =>
    cases item with
    | batch paths => rw [upToMark, behindMark, List.cons_append, ih]
    | finish => rfl
    | crash => rfl

/-- An end mark is the last that is taken. -/
theorem pairwise_upToMark (queue : List Feed) : (upToMark queue).Pairwise fun a _ => a.isMark = false := by
  induction queue with
  | nil => exact .nil
  | cons item rest ih =>
    cases item with
    | batch paths => exact .cons (fun _ _ => rfl) ih
    | finish => exact List.pairwise_singleton _ _
    | crash => exact List.pairwise_singleton _ _

end Feed

namespace Watcher

/-- The state of a loop that has read a queue. -/
def loopAfter : List Feed → Loop
  | [] => .running
  | .batch _ :: rest => loopAfter rest
  | .finish :: _ => .finished
  | .crash :: _ => .crashed

/-- A loop that runs on has read everything and met no end mark. -/
theorem of_loopAfter_eq_running {queue : List Feed} (h : loopAfter queue = .running) :
    Feed.behindMark queue = [] ∧ ∀ item ∈ Feed.upToMark queue, item.isMark = false := by
  induction queue with
  | nil => exact ⟨rfl, by simp [Feed.upToMark]⟩
  | cons item rest ih =>
    cases item with
    | batch paths =>
      obtain ⟨hbehind, hmarks⟩ := ih h
      refine ⟨hbehind, ?_⟩
      intro item hitem
      rcases List.mem_cons.1 hitem with rfl | hitem
      · rfl
      · exact hmarks item hitem
    | finish => simp [loopAfter] at h
    | crash => simp [loopAfter] at h

/-- A queue without a failure leaves the loop running or finished. -/
theorem loopAfter_ne {queue : List Feed} (hcrash : Feed.crash ∉ queue) :
    loopAfter queue ≠ .crashed ∧ loopAfter queue ≠ .absent := by
  induction queue with
  | nil => simp [loopAfter]
  | cons item rest ih =>
    rw [List.mem_cons, not_or] at hcrash
    cases item with
    | batch paths => exact ih hcrash.2
    | finish => simp [loopAfter]
    | crash => exact absurd rfl hcrash.1

/-! ## The paths of interest -/

/-- What is passed on of something from the queue. -/
def passed (directory : FilePath) : Feed → Option (List FilePath)
  | .batch paths => if relevant directory paths = [] then none else some (relevant directory paths)
  | _ => none

/-- Taking members up one by one takes each once. -/
theorem foldl_once (paths done : List FilePath) (hdone : done.Nodup) :
    (paths.foldl (fun done p => if done.contains p then done else done ++ [p]) done).Nodup ∧
      ∀ p, p ∈ paths.foldl (fun done p => if done.contains p then done else done ++ [p]) done ↔
      p ∈ done ∨ p ∈ paths := by
  induction paths generalizing done with
  | nil => exact ⟨hdone, by simp⟩
  | cons first rest ih =>
    rw [List.foldl_cons]
    split
    · rename_i hthere
      have hfirst := List.contains_iff_mem.1 hthere
      obtain ⟨hnodup, hmem⟩ := ih done hdone
      refine ⟨hnodup, fun p => ?_⟩
      rw [hmem, List.mem_cons, ← or_assoc, or_iff_left_of_imp (b := p = first) fun hp => hp ▸ hfirst]
    · rename_i hnew
      have hfirst : first ∉ done := mt List.contains_iff_mem.2 hnew
      have hmore : (done ++ [first]).Nodup := List.nodup_append_comm.2 (List.nodup_cons.2 ⟨hfirst, hdone⟩)
      obtain ⟨hnodup, hmem⟩ := ih (done ++ [first]) hmore
      refine ⟨hnodup, fun p => ?_⟩
      rw [hmem, List.mem_append, List.mem_singleton, List.mem_cons, or_assoc]

/-- A batch is passed on as the set of its paths that are of interest. -/
theorem relevant_spec (directory : FilePath) (paths : List FilePath) :
    (relevant directory paths).Nodup ∧ ∀ p, p ∈ relevant directory paths ↔ p ∈ paths ∧
    isRelevant directory p = true := by
  obtain ⟨hnodup, hmem⟩ := foldl_once (paths.filter (isRelevant directory)) [] List.nodup_nil
  refine ⟨hnodup, fun p => ?_⟩
  rw [relevant, hmem]
  simp

/-! ## Reading the queue -/

/-- A loop takes what is in the queue up to the first end mark, and passes on what is of interest in it. -/
theorem consume_eq (directory : FilePath) (fails : List FilePath → Bool) (queue : List Feed) :
    (consume directory fails queue).1 = (loopAfter queue, Feed.behindMark queue) ∧
      (consume directory fails queue).2.calls = (Feed.upToMark queue).filterMap (passed directory) := by
  induction queue with
  | nil => exact ⟨rfl, rfl⟩
  | cons item rest ih =>
    cases item with
    | finish => exact ⟨rfl, rfl⟩
    | crash => exact ⟨rfl, rfl⟩
    | batch paths =>
      obtain ⟨hstate, hcalls⟩ := ih
      refine ⟨hstate, ?_⟩
      change (passOn directory fails paths).calls ++ (consume directory fails rest).2.calls = _
      rw [hcalls, Feed.upToMark, List.filterMap_cons, passOn, passed]
      cases relevant directory paths <;> simp

/-! ## Moves -/

/-- What happens to a watcher. -/
inductive Move
  | start
  | stop
  | wait
  | emit (paths : List FilePath)
  | finish

/-- What a move puts in the queue. -/
def Move.fed : Move → List Feed
  | start => []
  | stop => []
  | wait => []
  | emit paths => [.batch paths]
  | finish => [.finish]

/-- Makes a move. Waiting for the end of the watch changes nothing. -/
def move (w : Watcher) (fails : List FilePath → Bool) : Move → Watcher × WatcherOutput
  | .start => w.start fails
  | .stop => match w.stop with
    | .ok stopped => stopped
    | .error () => (w, {})
  | .wait => (w, {})
  | .emit paths => w.feed (.batch paths) fails
  | .finish => w.feed .finish fails

/-- Whether a move lets a watch read the queue: one that runs when something comes in, or one that opens. -/
def Reads (w : Watcher) : Move → Prop
  | .start => w.loop = .absent
  | .emit _ => w.loop = .running
  | .finish => w.loop = .running
  | _ => False

/-- The number of the watch that there is after a move. -/
def openedAfter (w : Watcher) : Move → Nat
  | .start => if w.loop = .absent then w.opened + 1 else w.opened
  | _ => w.opened

/-- The loop after a move in which no watch reads: stopping takes it away, unless its failure comes up then. -/
def left (w : Watcher) : Move → Loop
  | .stop => if w.loop = .crashed then .crashed else .absent
  | _ => w.loop

variable {w : Watcher} {m : Move}

/-- A watch that runs reads its queue up to the first end mark. -/
theorem settle_running (fails : List FilePath → Bool) (h : w.loop = .running) :
    (w.settle fails).1 = { w with loop := loopAfter w.queue, queue := Feed.behindMark w.queue } ∧
      (w.settle fails).2.calls = (Feed.upToMark w.queue).filterMap (passed w.directory) := by
  obtain ⟨hstate, hcalls⟩ := consume_eq w.directory fails w.queue
  rw [settle, isRunning, if_pos (decide_eq_true h)]
  generalize consume w.directory fails w.queue = result at hstate hcalls
  obtain ⟨⟨loop, queue⟩, output⟩ := result
  obtain ⟨rfl, rfl⟩ := Prod.mk.inj hstate
  exact ⟨rfl, hcalls⟩

/-- A watch that does not run reads nothing. -/
theorem settle_still (fails : List FilePath → Bool) (h : w.loop ≠ .running) : w.settle fails = (w, {}) := by
  rw [settle, isRunning, if_neg (by simpa using h)]

/-- Where a watch reads, a move takes all that waits up to the first end mark. -/
theorem move_reads (fails : List FilePath → Bool) (h : w.Reads m) :
    (w.move fails m).1 = { w with
      loop := loopAfter (w.queue ++ m.fed), queue := Feed.behindMark (w.queue ++ m.fed), opened := w.openedAfter m } ∧
      (w.move fails m).2.calls = (Feed.upToMark (w.queue ++ m.fed)).filterMap (passed w.directory) := by
  cases m with
  | start =>
    have habsent : w.loop = .absent := h
    obtain ⟨hstate, hcalls⟩ := settle_running (w := { w with loop := .running, opened := w.opened + 1 }) fails rfl
    rw [move, start, if_pos habsent, openedAfter, if_pos habsent, Move.fed, List.append_nil]
    exact ⟨hstate, hcalls⟩
  | stop => exact absurd h id
  | wait => exact absurd h id
  | emit paths => exact settle_running (w := { w with queue := w.queue ++ [.batch paths] }) fails h
  | finish => exact settle_running (w := { w with queue := w.queue ++ [.finish] }) fails h

/-- Where no watch reads, what comes in waits, and at most the watch is taken away. -/
theorem move_still (fails : List FilePath → Bool) (h : ¬ w.Reads m) :
    (w.move fails m).1 = { w with loop := w.left m, queue := w.queue ++ m.fed } ∧ (w.move fails m).2.calls = [] := by
  cases m with
  | start =>
    have hthere : w.loop ≠ .absent := h
    rw [move, start, if_neg hthere, Move.fed, List.append_nil]
    exact ⟨rfl, rfl⟩
  | stop =>
    rw [move, stop, Move.fed, List.append_nil, left]
    obtain ⟨directory, loop, queue, opened⟩ := w
    cases loop <;> exact ⟨rfl, rfl⟩
  | wait =>
    rw [move, Move.fed, List.append_nil]
    exact ⟨rfl, rfl⟩
  | emit paths =>
    rw [move, feed, settle_still (w := { w with queue := w.queue ++ [.batch paths] }) fails h]
    exact ⟨rfl, rfl⟩
  | finish =>
    rw [move, feed, settle_still (w := { w with queue := w.queue ++ [.finish] }) fails h]
    exact ⟨rfl, rfl⟩

/-- A watch that runs on without reading had nothing to read. -/
theorem of_left_eq_running (h : ¬ w.Reads m) (hleft : w.left m = .running) : w.loop = .running ∧ m.fed = [] := by
  cases m with
  | start => exact ⟨hleft, rfl⟩
  | stop =>
    rw [left] at hleft
    split at hleft <;> simp at hleft
  | wait => exact ⟨hleft, rfl⟩
  | emit paths => exact absurd hleft h
  | finish => exact absurd hleft h

/-- A loop that has not crashed is not left crashed. -/
theorem left_ne_crashed (h : w.loop ≠ .crashed) : w.left m ≠ .crashed := by
  cases m with
  | stop =>
    rw [left, if_neg h]
    simp
  | start => exact h
  | wait => exact h
  | emit paths => exact h
  | finish => exact h

/-- Whether what is passed on fails makes no difference to what is taken and passed on. -/
theorem move_fails (w : Watcher) (fails fails' : List FilePath → Bool) (m : Move) :
    (w.move fails' m).1 = (w.move fails m).1 ∧ (w.move fails' m).2.calls = (w.move fails m).2.calls := by
  by_cases h : w.Reads m
  · exact ⟨(move_reads fails' h).1.trans (move_reads fails h).1.symm,
      (move_reads fails' h).2.trans (move_reads fails h).2.symm⟩
  · exact ⟨(move_still fails' h).1.trans (move_still fails h).1.symm,
      (move_still fails' h).2.trans (move_still fails h).2.symm⟩

/-! ## Lives -/

/-- A watcher in the course of its life: what was taken from its queue, each with the number of the watch that took it,
and what it did. -/
structure Life where
  watcher : Watcher
  taken : List (Nat × Feed) := []
  output : WatcherOutput := {}

namespace Life

/-- A life goes on by one move. What is gone from the front of the queue was taken. -/
def move (fails : List FilePath → Bool) (l : Life) (m : Move) : Life :=
  let (after, output) := l.watcher.move fails m
  let waiting := l.watcher.queue ++ m.fed
  { watcher := after
    taken := l.taken ++ (waiting.take (waiting.length - after.queue.length)).map (after.opened, ·)
    output := l.output ++ output }

variable {l : Life}

/-- Where a watch reads, it takes all that waits up to the first end mark. -/
theorem taken_reads (fails : List FilePath → Bool) (h : l.watcher.Reads m) :
    (l.move fails m).taken =
      l.taken ++ (Feed.upToMark (l.watcher.queue ++ m.fed)).map (l.watcher.openedAfter m, ·) := by
  have hfront := Feed.upToMark_append_behindMark (l.watcher.queue ++ m.fed)
  have hlength : (l.watcher.queue ++ m.fed).length - (Feed.behindMark (l.watcher.queue ++ m.fed)).length =
      (Feed.upToMark (l.watcher.queue ++ m.fed)).length := by
    have hlengths := congrArg List.length hfront
    rw [List.length_append] at hlengths
    omega
  have htake := List.prefix_iff_eq_take.1 ⟨_, hfront⟩
  simp only [move, (move_reads fails h).1]
  rw [hlength, ← htake]

/-- A move in which no watch reads takes nothing. -/
theorem taken_still (fails : List FilePath → Bool) (h : ¬ l.watcher.Reads m) : (l.move fails m).taken = l.taken := by
  simp only [move, (move_still fails h).1]
  simp

theorem watcher_move (fails : List FilePath → Bool) (l : Life) (m : Move) :
    (l.move fails m).watcher = (l.watcher.move fails m).1 := rfl

theorem calls_move (fails : List FilePath → Bool) (l : Life) (m : Move) :
    (l.move fails m).output.calls = l.output.calls ++ (l.watcher.move fails m).2.calls := rfl

/-- Of what is taken, a later thing is never taken by an earlier watch, and nothing is taken by a watch that has taken
an end mark. -/
def InOrder (a b : Nat × Feed) : Prop :=
  a.1 ≤ b.1 ∧ (a.2.isMark = true → a.1 < b.1)

/-- A life in which all that came in is accounted for. -/
structure Accounted (directory : FilePath) (moves : List Move) (l : Life) : Prop where
  watched : l.watcher.directory = directory
  queue : moves.flatMap Move.fed = l.taken.map Prod.snd ++ l.watcher.queue
  calls : l.output.calls = (l.taken.map Prod.snd).filterMap (passed directory)
  order : l.taken.Pairwise InOrder
  numbered : ∀ t ∈ l.taken, t.1 ≤ l.watcher.opened
  running : l.watcher.loop = .running → l.watcher.queue = [] ∧ ∀ t ∈ l.taken, t.2.isMark = true → t.1 < l.watcher.opened
  sound : l.watcher.loop ≠ .crashed

variable {directory : FilePath} {moves : List Move}

/-- A watch that reads has taken no end mark yet. -/
theorem Accounted.mark_lt (h : l.Accounted directory moves) (hreads : l.watcher.Reads m) :
    ∀ t ∈ l.taken, t.1 ≤ l.watcher.openedAfter m ∧ (t.2.isMark = true → t.1 < l.watcher.openedAfter m) := by
  intro t ht
  have hnumber := h.numbered t ht
  cases m with
  | start =>
    have habsent : l.watcher.loop = .absent := hreads
    rw [openedAfter, if_pos habsent]
    exact ⟨by omega, fun _ => by omega⟩
  | stop => exact absurd hreads id
  | wait => exact absurd hreads id
  | emit paths => exact ⟨hnumber, (h.running hreads).2 t ht⟩
  | finish => exact ⟨hnumber, (h.running hreads).2 t ht⟩

/-- No move feeds a failure. -/
theorem crash_notMem_fed (moves : List Move) : Feed.crash ∉ moves.flatMap Move.fed := by
  intro hcrash
  obtain ⟨m, -, hm⟩ := List.mem_flatMap.1 hcrash
  cases m <;> simp [Move.fed] at hm

/-- Every move keeps the account. -/
theorem Accounted.move (h : l.Accounted directory moves) (fails : List FilePath → Bool) (m : Move) :
    (l.move fails m).Accounted directory (moves ++ [m]) := by
  have hfed : (moves ++ [m]).flatMap Move.fed = l.taken.map Prod.snd ++ (l.watcher.queue ++ m.fed) := by
    rw [List.flatMap_append, h.queue, List.flatMap_singleton, List.append_assoc]
  by_cases hreads : l.watcher.Reads m
  · obtain ⟨hwatcher, hcalls⟩ := move_reads fails hreads
    have htaken := taken_reads fails hreads
    have hnew : ((Feed.upToMark (l.watcher.queue ++ m.fed)).map (l.watcher.openedAfter m, ·)).map Prod.snd =
        Feed.upToMark (l.watcher.queue ++ m.fed) := by
      rw [List.map_map]
      exact List.map_id _
    have hcrash : Feed.crash ∉ l.watcher.queue ++ m.fed := fun hm =>
      crash_notMem_fed (moves ++ [m]) (hfed ▸ List.mem_append_right _ hm)
    refine ⟨?_, ?_, ?_, ?_, ?_, ?_, ?_⟩
    · rw [watcher_move, hwatcher]
      exact h.watched
    · rw [watcher_move, hwatcher, htaken, List.map_append, hnew, List.append_assoc,
        Feed.upToMark_append_behindMark, hfed]
    · rw [calls_move, hcalls, htaken, List.map_append, hnew, List.filterMap_append, h.calls, h.watched]
    · rw [htaken, List.pairwise_append]
      refine ⟨h.order, ?_, ?_⟩
      · rw [List.pairwise_map]
        refine (Feed.pairwise_upToMark _).imp fun {a b} hmark => ⟨Nat.le_refl _, fun hm => ?_⟩
        exact absurd (hmark.symm.trans hm) Bool.false_ne_true
      · intro t ht u hu
        obtain ⟨item, -, rfl⟩ := List.mem_map.1 hu
        exact h.mark_lt hreads t ht
    · intro t ht
      rw [htaken, List.mem_append] at ht
      rw [watcher_move, hwatcher]
      rcases ht with ht | ht
      · exact (h.mark_lt hreads t ht).1
      · obtain ⟨item, -, rfl⟩ := List.mem_map.1 ht
        exact Nat.le_refl _
    · rw [watcher_move, hwatcher, htaken]
      intro hrunning
      obtain ⟨hbehind, hmarks⟩ := of_loopAfter_eq_running hrunning
      refine ⟨hbehind, fun t ht hmark => ?_⟩
      rcases List.mem_append.1 ht with ht | ht
      · exact (h.mark_lt hreads t ht).2 hmark
      · obtain ⟨item, hitem, rfl⟩ := List.mem_map.1 ht
        exact absurd ((hmarks item hitem).symm.trans hmark) Bool.false_ne_true
    · rw [watcher_move, hwatcher]
      exact (loopAfter_ne hcrash).1
  · obtain ⟨hwatcher, hcalls⟩ := move_still fails hreads
    have htaken := taken_still fails hreads
    refine ⟨?_, ?_, ?_, ?_, ?_, ?_, ?_⟩
    · rw [watcher_move, hwatcher]
      exact h.watched
    · rw [watcher_move, hwatcher, htaken, hfed]
    · rw [calls_move, hcalls, htaken, List.append_nil, h.calls]
    · rw [htaken]
      exact h.order
    · rw [watcher_move, hwatcher, htaken]
      exact h.numbered
    · rw [watcher_move, hwatcher, htaken]
      intro hrunning
      obtain ⟨hloop, hnothing⟩ := of_left_eq_running hreads hrunning
      obtain ⟨hqueue, hmarks⟩ := h.running hloop
      exact ⟨by rw [hqueue, hnothing, List.append_nil], hmarks⟩
    · rw [watcher_move, hwatcher]
      exact left_ne_crashed h.sound

end Life

/-- A life from its beginning. -/
def life (directory : FilePath) (fails : List FilePath → Bool) (moves : List Move) : Life :=
  moves.foldl (Life.move fails) { watcher := { directory := directory } }

variable {directory : FilePath} {fails : List FilePath → Bool}

/-- A life goes on with its next move. -/
theorem life_concat (directory : FilePath) (fails : List FilePath → Bool) (moves : List Move) (m : Move) :
    life directory fails (moves ++ [m]) = (life directory fails moves).move fails m := by
  rw [life, List.foldl_append]
  rfl

/-- In every life all that came in is accounted for. -/
theorem accounted_life (directory : FilePath) (fails : List FilePath → Bool) (moves : List Move) :
    (life directory fails moves).Accounted directory moves := by
  induction moves using List.reverseRecOn with
  | nil => exact ⟨rfl, rfl, rfl, .nil, by simp [life], by simp [life], by simp [life]⟩
  | append_singleton moves m ih =>
    rw [life_concat]
    exact ih.move fails m

/-- Whether what is passed on fails makes no difference to a life, but for what is reported. -/
theorem life_fails (directory : FilePath) (fails fails' : List FilePath → Bool) (moves : List Move) :
    (life directory fails' moves).watcher = (life directory fails moves).watcher ∧
      (life directory fails' moves).taken = (life directory fails moves).taken ∧
      (life directory fails' moves).output.calls = (life directory fails moves).output.calls := by
  induction moves using List.reverseRecOn with
  | nil => exact ⟨rfl, rfl, rfl⟩
  | append_singleton moves m ih =>
    obtain ⟨hwatcher, htaken, hcalls⟩ := ih
    obtain ⟨hafter, hpassed⟩ := move_fails (life directory fails moves).watcher fails fails' m
    rw [life_concat, life_concat, Life.calls_move, Life.calls_move, Life.watcher_move, Life.watcher_move,
      hwatcher, hafter, hcalls, hpassed]
    refine ⟨rfl, ?_, rfl⟩
    simp only [Life.move, hwatcher, hafter, htaken]

/-- After a stop and a start all that waited up to the next end mark was taken by a new watch, and the rest waits
still. -/
theorem life_restart (directory : FilePath) (fails : List FilePath → Bool) (moves : List Move) :
    (life directory fails (moves ++ [.stop, .start])).taken = (life directory fails moves).taken ++
        (Feed.upToMark (life directory fails moves).watcher.queue).map
          ((life directory fails moves).watcher.opened + 1, ·) ∧
      (life directory fails (moves ++ [.stop, .start])).watcher.queue =
        Feed.behindMark (life directory fails moves).watcher.queue := by
  have hsplit : moves ++ [Move.stop, .start] = (moves ++ [.stop]) ++ [.start] := by simp
  have hsound := (accounted_life directory fails moves).sound
  rw [hsplit, life_concat, life_concat]
  generalize life directory fails moves = l at hsound ⊢
  have hstop : ¬ l.watcher.Reads .stop := id
  have hstopped : (l.move fails .stop).watcher = { l.watcher with loop := .absent } := by
    rw [Life.watcher_move, (move_still fails hstop).1, Move.fed, List.append_nil, left, if_neg hsound]
  have hstart : (l.move fails .stop).watcher.Reads .start := by
    rw [hstopped]
    rfl
  have hqueue := congrArg Watcher.queue (move_reads fails hstart).1
  refine ⟨?_, hqueue.trans ?_⟩
  · rw [Life.taken_reads fails hstart, Life.taken_still fails hstop, hstopped, Move.fed, List.append_nil]
    rfl
  · rw [hstopped, Move.fed, List.append_nil]

/-- A call for a batch: the set of its paths that are of interest. -/
def IsCall (directory : FilePath) (call paths : List FilePath) : Prop :=
  call.Nodup ∧ ∀ p, p ∈ call ↔ p ∈ paths ∧ isRelevant directory p = true

/-- The paths of a batch in which one is of interest. -/
def interesting? (directory : FilePath) : Feed → Option (List FilePath)
  | .batch paths => if paths.any (isRelevant directory) then some paths else none
  | _ => none

/-- What is passed on are the calls for the batches in which something is of interest. -/
theorem forall₂_passed (directory : FilePath) (items : List Feed) :
    List.Forall₂ (IsCall directory) (items.filterMap (passed directory))
    (items.filterMap (interesting? directory)) := by
  induction items with
  | nil => exact .nil
  | cons item rest ih =>
    cases item with
    | finish => exact ih
    | crash => exact ih
    | batch paths =>
      have hspec := relevant_spec directory paths
      have hiff : relevant directory paths = [] ↔ paths.any (isRelevant directory) = false := by
        rw [List.eq_nil_iff_forall_not_mem, List.any_eq_false]
        simp only [hspec.2, not_and]
      rw [List.filterMap_cons, List.filterMap_cons, passed, interesting?]
      by_cases hnone : relevant directory paths = []
      · rw [if_pos hnone, hiff.1 hnone]
        exact ih
      · rw [if_neg hnone, if_pos (Bool.of_not_eq_false (mt hiff.2 hnone))]
        exact .cons hspec ih

/-- What holds of the life of a watcher that loses nothing and repeats nothing. -/
structure Faithful (directory : FilePath) (fails : List FilePath → Bool) (moves : List Move) : Prop where
  /-- All that came in was taken, in its order and each once, or waits still. -/
  accounted : moves.flatMap Move.fed =
    (life directory fails moves).taken.map Prod.snd ++ (life directory fails moves).watcher.queue
  /-- The calls are those for the batches that were taken, one for each batch in which something is of interest. -/
  calls : List.Forall₂ (IsCall directory) (life directory fails moves).output.calls
    (((life directory fails moves).taken.map Prod.snd).filterMap (interesting? directory))
  /-- One watch takes after the other, and none after the end mark that it took. -/
  order : (life directory fails moves).taken.Pairwise Life.InOrder
  /-- A watch that runs leaves nothing waiting. -/
  drained : (life directory fails moves).watcher.isRunning = true → (life directory fails moves).watcher.queue = []
  /-- Something is taken only while a watch runs, or by one that opens where none is there. -/
  taking : ∀ m, (life directory fails (moves ++ [m])).taken ≠ (life directory fails moves).taken →
    (life directory fails moves).watcher.isRunning = true ∨ m = .start ∧
      (life directory fails moves).watcher.loop = .absent
  /-- A watch opens only where none is there. -/
  opening : ∀ m, (life directory fails (moves ++ [m])).watcher.opened = (life directory fails moves).watcher.opened ∨
    m = .start ∧ (life directory fails moves).watcher.loop = .absent ∧
      (life directory fails (moves ++ [m])).watcher.opened = (life directory fails moves).watcher.opened + 1
  /-- Calls that fail stop nothing. -/
  failing : ∀ fails', (life directory fails' moves).watcher = (life directory fails moves).watcher ∧
    (life directory fails' moves).taken = (life directory fails moves).taken ∧
    (life directory fails' moves).output.calls = (life directory fails moves).output.calls
  /-- After a stop and a start a new watch has taken what waited, up to the next end mark. -/
  restarting : (life directory fails (moves ++ [.stop, .start])).taken = (life directory fails moves).taken ++
      (Feed.upToMark (life directory fails moves).watcher.queue).map
        ((life directory fails moves).watcher.opened + 1, ·) ∧
    (life directory fails (moves ++ [.stop, .start])).watcher.queue =
      Feed.behindMark (life directory fails moves).watcher.queue

/-- However a watcher is started, stopped and fed, it loses nothing and repeats nothing. -/
theorem life_faithful (directory : FilePath) (fails : List FilePath → Bool) (moves : List Move) :
    Faithful directory fails moves := by
  have haccounted := accounted_life directory fails moves
  refine ⟨haccounted.queue, ?_, haccounted.order, ?_, ?_, ?_, fun fails' => life_fails directory fails fails' moves,
    life_restart directory fails moves⟩
  · rw [haccounted.calls]
    exact forall₂_passed directory _
  · intro hrunning
    exact (haccounted.running (of_decide_eq_true hrunning)).1
  · intro m htaken
    have hreads : (life directory fails moves).watcher.Reads m := by
      by_contra hstill
      exact htaken (life_concat directory fails moves m ▸ Life.taken_still fails hstill)
    cases m with
    | start => exact .inr ⟨rfl, hreads⟩
    | stop => exact absurd hreads id
    | wait => exact absurd hreads id
    | emit paths => exact .inl (decide_eq_true hreads)
    | finish => exact .inl (decide_eq_true hreads)
  · intro m
    rw [life_concat, Life.watcher_move]
    by_cases hreads : (life directory fails moves).watcher.Reads m
    · rw [(move_reads fails hreads).1]
      cases m with
      | start => exact .inr ⟨rfl, hreads, if_pos hreads⟩
      | stop => exact absurd hreads id
      | wait => exact absurd hreads id
      | emit paths => exact .inl rfl
      | finish => exact .inl rfl
    · rw [(move_still fails hreads).1]
      exact .inl rfl

/-- A batch comes in before the first watch, and another one after its end. Every call fails. -/
theorem life_faithful_restarted :
    let directory : FilePath := ⟨1, ["docs"]⟩
    let l := life directory (fun _ => true) [.emit [⟨1, ["docs", "a.md"]⟩], .start, .finish,
      .emit [⟨1, ["docs", "b.md"]⟩, ⟨1, ["docs", "site", "c.md"]⟩], .stop, .start]
    l.watcher.isRunning = true ∧ l.watcher.queue = [] ∧
      l.output.calls = [[⟨1, ["docs", "a.md"]⟩], [⟨1, ["docs", "b.md"]⟩]] :=
  ⟨by decide, (life_faithful _ _ _).drained (by decide), by decide⟩

end Watcher

end DocRefs
