import DocRefs.Debouncer

/-!
# The journal of a run

A debouncer shows its surroundings effects and failures only. Its journal holds all that happens in a run, deed by deed,
each with the debouncer as it is right afterwards. It is told by following the functions that run a debouncer, and what
is seen from outside is the part of it that can be seen (`Debouncer.run_emissions`).
-/

namespace DocRefs

/-- What happens in a run: an event is scheduled, as a new task; the waiting task of one key or of every key is dropped;
the event of a task begins; a task does one action of its event. -/
inductive Deed (κ ε : Type)
  | scheduled (task : Nat) (key : κ) (actions : List (Action κ ε))
  | cancelled (key : κ)
  | cancelledAll
  | began (task : Nat) (key : κ) (actions : List (Action κ ε))
  | did (task : Nat) (key : κ) (action : Action κ ε)

/-- A deed, and the debouncer right after it. -/
structure Entry (κ ε : Type) where
  deed : Deed κ ε
  state : Debouncer κ ε

/-- What is asked of a debouncer: to schedule an event, to drop what waits, to do the work at hand, or to let time
pass. -/
inductive Call (κ ε : Type)
  | schedule (key : κ) (actions : List (Action κ ε))
  | cancel (key : κ)
  | cancelAll
  | settle
  | advance (seconds : Binary64)

variable {κ ε : Type}

/-- What is seen of a deed from outside. -/
def Deed.emission? : Deed κ ε → Option (Emission κ ε)
  | .did _ _ (.emit e) => some (.effect e)
  | .did _ key .fail => some (.failed key)
  | _ => none

/-- Time does not go back. -/
def Call.Forward : Call κ ε → Prop
  | .advance seconds => Binary64.zero.le seconds = true
  | _ => True

namespace Debouncer

/-- Puts a job in front of the queue. -/
def next (d : Debouncer κ ε) (job : Job κ ε) : Debouncer κ ε :=
  d.withReady (job :: d.ready)

variable [DecidableEq κ]

/-- What `perform` does, deed by deed. What the task still has to do is in front of the queue meanwhile. -/
def performLog (d : Debouncer κ ε) (task : Nat) (key : κ) : List (Action κ ε) → List (Entry κ ε)
  | [] => []
  | .emit e :: rest => ⟨.did task key (.emit e), d.next (.resume task key rest)⟩ :: performLog d task key rest
  | .fail :: _ => [⟨.did task key .fail, d⟩]
  | .sleep seconds :: rest => [⟨.did task key (.sleep seconds), d.after seconds (.resume task key rest)⟩]
  | .schedule k actions :: rest =>
    ⟨.did task key (.schedule k actions), d.next (.resume task key rest)⟩ ::
      ⟨.scheduled d.tasks k actions, (d.schedule k actions).next (.resume task key rest)⟩ ::
      performLog (d.schedule k actions) task key rest
  | .cancel k :: rest =>
    ⟨.did task key (.cancel k), d.next (.resume task key rest)⟩ ::
      ⟨.cancelled k, (d.cancel k).next (.resume task key rest)⟩ :: performLog (d.cancel k) task key rest

/-- What `step` does, deed by deed. -/
def stepLog (d : Debouncer κ ε) : Job κ ε → List (Entry κ ε)
  | .start _ _ _ => []
  | .fire task key actions =>
    if d.isLive task key then
      ⟨.began task key actions, (d.cancel key).next (.resume task key actions)⟩ ::
      (d.cancel key).performLog task key actions
    else []
  | .resume task key actions => d.performLog task key actions

/-- A step that is taken leaves less work. -/
theorem work_step_lt_of_ready {d : Debouncer κ ε} {job : Job κ ε} {rest : List (Job κ ε)} (h : d.ready = job :: rest) :
    ((d.withReady rest).step job).1.work < d.work := by
  have := work_step_lt (d.withReady rest) job
  simp only [work, withReady, h, queueWork] at this ⊢
  omega

/-- What `settle` does, deed by deed. -/
def settleLog (d : Debouncer κ ε) : List (Entry κ ε) :=
  match h : d.ready with
  | [] => []
  | job :: rest =>
    have : ((d.withReady rest).step job).1.work < d.work := work_step_lt_of_ready h
    (d.withReady rest).stepLog job ++ settleLog ((d.withReady rest).step job).1
termination_by d.work

/-- What `advanceTo` does, deed by deed. -/
def advanceToLog (d : Debouncer κ ε) (instant : Binary64) : List (Entry κ ε) :=
  match h : d.timers with
  | [] => []
  | first :: others =>
    if first.due.le instant then
      have : (d.fireFirst first others).settle.1.work < d.work :=
        Nat.lt_of_le_of_lt (work_settle_le _) (work_fireFirst_lt d first others h)
      (d.fireFirst first others).settleLog ++ advanceToLog (d.fireFirst first others).settle.1 instant
    else []
termination_by d.work

/-- Does what a call asks. -/
def answer (d : Debouncer κ ε) : Call κ ε → Debouncer κ ε × List (Emission κ ε)
  | .schedule key actions => (d.schedule key actions, [])
  | .cancel key => (d.cancel key, [])
  | .cancelAll => (d.cancelAll, [])
  | .settle => d.settle
  | .advance seconds => d.advance seconds

/-- What `answer` does, deed by deed. -/
def answerLog (d : Debouncer κ ε) : Call κ ε → List (Entry κ ε)
  | .schedule key actions => [⟨.scheduled d.tasks key actions, d.schedule key actions⟩]
  | .cancel key => [⟨.cancelled key, d.cancel key⟩]
  | .cancelAll => [⟨.cancelledAll, d.cancelAll⟩]
  | .settle => d.settleLog
  | .advance seconds => d.settleLog ++ d.settle.1.advanceToLog (d.settle.1.now + seconds)

/-- Does what several calls ask, one after the other. -/
def run (d : Debouncer κ ε) : List (Call κ ε) → Debouncer κ ε × List (Emission κ ε)
  | [] => (d, [])
  | call :: calls => ((run (d.answer call).1 calls).1, (d.answer call).2 ++ (run (d.answer call).1 calls).2)

/-- The journal of a run. -/
def journal (d : Debouncer κ ε) : List (Call κ ε) → List (Entry κ ε)
  | [] => []
  | call :: calls => d.answerLog call ++ journal (d.answer call).1 calls

theorem run_concat (d : Debouncer κ ε) (calls : List (Call κ ε)) (call : Call κ ε) :
    (d.run (calls ++ [call])).1 = ((d.run calls).1.answer call).1 := by
  induction calls generalizing d with
  | nil => rfl
  | cons first calls ih => exact ih (d.answer first).1

/-! ## What is seen of a journal -/

/-- What is seen of the deeds of a journal. -/
def emissions (log : List (Entry κ ε)) : List (Emission κ ε) :=
  log.filterMap (·.deed.emission?)

omit [DecidableEq κ] in
theorem emissions_append (log more : List (Entry κ ε)) : emissions (log ++ more) = emissions log ++ emissions more :=
  List.filterMap_append

/-- Actions emit what their log says. -/
theorem perform_emissions (d : Debouncer κ ε) (task : Nat) (key : κ) (actions : List (Action κ ε)) :
    (d.perform task key actions).2 = emissions (d.performLog task key actions) := by
  induction actions generalizing d with
  | nil => rfl
  | cons action rest ih =>
    cases action with
    | emit e => exact congrArg (Emission.effect e :: ·) (ih d)
    | fail => rfl
    | sleep seconds => rfl
    | schedule k actions => exact ih (d.schedule k actions)
    | cancel k => exact ih (d.cancel k)

/-- A step emits what its log says. -/
theorem step_emissions (d : Debouncer κ ε) (job : Job κ ε) : (d.step job).2 = emissions (d.stepLog job) := by
  cases job with
  | start task key actions =>
    rw [step]
    split <;> rfl
  | fire task key actions =>
    rw [step, stepLog]
    split
    · exact perform_emissions (d.cancel key) task key actions
    · rfl
  | resume task key actions => exact perform_emissions d task key actions

/-- Where nothing is ready nothing is logged. -/
theorem settleLog_of_nil {d : Debouncer κ ε} (h : d.ready = []) : d.settleLog = [] := by
  rw [settleLog]
  split
  · rfl
  · simp_all

/-- The log of the work at hand begins with that of its first step. -/
theorem settleLog_of_cons {d : Debouncer κ ε} {job : Job κ ε} {rest : List (Job κ ε)} (h : d.ready = job :: rest) :
    d.settleLog = (d.withReady rest).stepLog job ++ ((d.withReady rest).step job).1.settleLog := by
  rw [settleLog]
  split
  · simp_all
  · rename_i hjob
    obtain ⟨rfl, rfl⟩ := List.cons.inj (h.symm.trans hjob)
    rfl

/-- The work at hand emits what its log says. -/
theorem settle_emissions (d : Debouncer κ ε) : d.settle.2 = emissions d.settleLog := by
  fun_induction settle d with
  | case1 d hready =>
    rw [settleLog_of_nil hready]
    rfl
  | case2 d job rest hready hlt stepped settled ih =>
    rw [settleLog_of_cons hready, emissions_append, ← step_emissions, ← ih]

/-- Where no timer is due nothing is logged. -/
theorem advanceToLog_of_not_le {d : Debouncer κ ε} {instant : Binary64}
    (h : ∀ first others, d.timers = first :: others → first.due.le instant = false) : d.advanceToLog instant = [] := by
  rw [advanceToLog]
  split
  · rfl
  · rename_i htimers
    simp [h _ _ htimers]

/-- The log of a clock that moves begins with what the first timer brings. -/
theorem advanceToLog_of_le {d : Debouncer κ ε} {instant : Binary64} {first : Timer κ ε} {others : List (Timer κ ε)}
    (htimers : d.timers = first :: others) (hdue : first.due.le instant = true) :
    d.advanceToLog instant =
      (d.fireFirst first others).settleLog ++ (d.fireFirst first others).settle.1.advanceToLog instant := by
  rw [advanceToLog]
  split
  · simp_all
  · rename_i hsome
    obtain ⟨rfl, rfl⟩ := List.cons.inj (htimers.symm.trans hsome)
    rw [if_pos hdue]

/-- A clock that moves emits what its log says. -/
theorem advanceTo_emissions (d : Debouncer κ ε) (instant : Binary64) :
    (d.advanceTo instant).2 = emissions (d.advanceToLog instant) := by
  fun_induction advanceTo d instant with
  | case1 d htimers =>
    rw [advanceToLog_of_not_le (by simp [htimers])]
    rfl
  | case2 d first others htimers hdue hlt fired later ih =>
    rw [advanceToLog_of_le htimers hdue, emissions_append, ← settle_emissions, ← ih]
  | case3 d first others htimers hdue =>
    have hlater : ∀ t ts, d.timers = t :: ts → t.due.le instant = false := by
      intro t ts hts
      obtain ⟨rfl, rfl⟩ := List.cons.inj (htimers.symm.trans hts)
      exact Bool.not_eq_true _ ▸ hdue
    rw [advanceToLog_of_not_le hlater]
    rfl

/-- An answer emits what its log says. -/
theorem answer_emissions (d : Debouncer κ ε) (call : Call κ ε) : (d.answer call).2 = emissions (d.answerLog call) := by
  cases call with
  | schedule key actions => rfl
  | cancel key => rfl
  | cancelAll => rfl
  | settle => exact settle_emissions d
  | advance seconds =>
    rw [answerLog, emissions_append, ← settle_emissions, ← advanceTo_emissions]
    rfl

/-- What a run shows is what is seen of its journal. -/
theorem run_emissions (d : Debouncer κ ε) (calls : List (Call κ ε)) :
    (d.run calls).2 = emissions (d.journal calls) := by
  induction calls generalizing d with
  | nil => rfl
  | cons call calls ih => rw [run, journal, emissions_append, ← answer_emissions, ← ih]

end Debouncer

end DocRefs
