import DocRefs.Command.Machine
import DocRefs.Session
import DocRefs.Watcher

/-!
# A watch from beginning to end

While a watch lasts, a reader waits for one event after the other, and what the events ask for is linted again after a
quiet interval. Reader and intervals share one clock, so first the order of all that happens is found, and then it is
carried out. At an instant at which an event comes in and an interval ends, what began to wait first comes first.
-/

namespace DocRefs

/-- One moment of a watch: an event comes in, something is linted again, or the watch is over. -/
inductive Moment
  | event (e : WatchEvent)
  | relint (target : Relint)
  | finished

/-- Whether the watch goes on. -/
def Moment.isGoing : Moment → Bool
  | finished => false
  | _ => true

namespace Watch

/-- The changed paths of an event that are of interest. -/
def changedBy (directory : FilePath) (e : WatchEvent) : List FilePath :=
  Watcher.relevant directory ((e.paths.getD []).map .ofString)

/-- The end of the reader: the watch is over once the work at hand is done. -/
def ending : List (Action String Moment) :=
  [.sleep .zero, .emit .finished]

/-- What the reader does: it waits for an event, takes it in, schedules what the event asks for, and goes on to the next
one. -/
def reading (asks : WatchEvent → List Relint) : List WatchEvent → List (Action String Moment)
  | [] => ending
  | e :: es =>
    .sleep e.afterSeconds :: .emit (.event e) ::
      if e.interrupt then ending
      else (asks e).map (fun target => .schedule target.key [.emit (.relint target)]) ++ reading asks es

/-- All moments of a watch up to its end, in order. The reader is the first task. -/
def moments (settings : Settings) (directory : FilePath) (events : List WatchEvent) : List Moment :=
  let idle : Debouncer String Moment := { delay := settings.debounce, tasks := 1 }
  let (begun, first) := idle.perform 0 ""
    (reading (fun e => Session.relintsFor settings (changedBy directory e)) events)
  let (_, later) := begun.advance (.infinite false)
  ((first ++ later).filterMap fun
    | .effect moment => some moment
    | .failed _ => none).takeWhile Moment.isGoing

/-- Carries out a moment. -/
def live (s : Session) : Moment → Session × Effects
  | .event e =>
    let s := s.withDisk (s.workspace.fs.apply e.change)
    if e.interrupt then (s, {})
    else
      let paths := e.paths.getD []
      let passed := Watcher.passOn s.directory (fun _ => false) (paths.map .ofString)
      let (s, told) := s.takeIn (changedBy s.directory e)
      (s, .display (.changes paths) ++ ⟨[], passed.log⟩ ++ told)
  | .relint target => s.carryOut target
  | .finished => (s, {})

/-- Carries out moments in order. -/
def liveAll (s : Session) : List Moment → Effects
  | [] => {}
  | m :: ms =>
    let (s, now) := live s m
    now ++ liveAll s ms

end Watch

end DocRefs
