import DocRefs.Log
import DocRefs.Path.FilePath

/-!
# Watching a directory

A watcher passes on batches of changed paths from one queue, without those that lie in directories of no interest. It
reads the queue only while its loop runs; what comes in before waits there.
-/

namespace DocRefs

/-- What a queue of changes brings: a batch of paths, the end of the watch, or its failure. -/
inductive Feed
  | batch (paths : List FilePath)
  | finish
  | crash
deriving Repr

/-- The loop of a watcher: not there, running, or over. A loop that is over stays until the watcher is stopped. -/
inductive Loop
  | absent
  | running
  | finished
  | crashed
deriving Repr, DecidableEq

/-- A watcher: its directory, its loop, the queue, and how many loops were started so far. -/
structure Watcher where
  directory : FilePath
  loop : Loop := .absent
  queue : List Feed := []
  opened : Nat := 0
deriving Repr

/-- What a watcher did: the batches that it passed on, and what it reported. -/
structure WatcherOutput where
  calls : List (List FilePath) := []
  log : List LogEvent := []

/-- One output after another. -/
instance : Append WatcherOutput := ⟨fun a b => ⟨a.calls ++ b.calls, a.log ++ b.log⟩⟩

namespace Watcher

/-- Names of directories whose contents are of no interest. -/
def ignoredNames : List String :=
  [".git", "__pycache__", "node_modules", ".venv", "site"]

/-- Whether a path is of interest: below the directory no component has an ignored name. Of a path that does not lie
below it, all components count. -/
def isRelevant (directory path : FilePath) : Bool :=
  !((directory.below? path).getD path.allParts).any ignoredNames.contains

/-- The paths of a batch that are of interest, each once. -/
def relevant (directory : FilePath) (paths : List FilePath) : List FilePath :=
  (paths.filter (isRelevant directory)).foldl (fun done p => if done.contains p then done else done ++ [p]) []

/-- Whether the loop runs. -/
def isRunning (w : Watcher) : Bool :=
  w.loop = .running

/-- Passes on a batch, unless nothing in it is of interest. `fails` says of a batch whether handling it fails, which is
reported and ends nothing. -/
def passOn (directory : FilePath) (fails : List FilePath → Bool) (paths : List FilePath) : WatcherOutput :=
  match relevant directory paths with
  | [] => {}
  | batch => ⟨[batch], .changesSeen batch.length :: if fails batch then [.changeHandlerFailed] else []⟩

/-- Reads a queue up to its end or to the end of the watch. -/
def consume (directory : FilePath) (fails : List FilePath → Bool) : List Feed → (Loop × List Feed) × WatcherOutput
  | [] => ((.running, []), {})
  | .finish :: rest => ((.finished, rest), {})
  | .crash :: rest => ((.crashed, rest), {})
  | .batch paths :: rest =>
    let (state, later) := consume directory fails rest
    (state, passOn directory fails paths ++ later)

/-- Lets a running loop read the queue. -/
def settle (w : Watcher) (fails : List FilePath → Bool) : Watcher × WatcherOutput :=
  if w.isRunning then
    let ((loop, queue), output) := consume w.directory fails w.queue
    ({ w with loop, queue }, output)
  else (w, {})

/-- Starts a loop, if none is there. -/
def start (w : Watcher) (fails : List FilePath → Bool) : Watcher × WatcherOutput :=
  if w.loop = .absent then
    let (w, output) := settle { w with loop := .running, opened := w.opened + 1 } fails
    (w, ⟨[], [.watchStarted w.directory.toString]⟩ ++ output)
  else (w, {})

/-- Ends the loop and takes it away. The failure of a loop comes up here, and the loop then stays. -/
def stop (w : Watcher) : Except Unit (Watcher × WatcherOutput) :=
  match w.loop with
  | .absent => .ok (w, {})
  | .crashed => .error ()
  | _ => .ok ({ w with loop := .absent }, ⟨[], [.watchStopped w.directory.toString]⟩)

/-- Puts something at the end of the queue. -/
def feed (w : Watcher) (item : Feed) (fails : List FilePath → Bool) : Watcher × WatcherOutput :=
  settle { w with queue := w.queue ++ [item] } fails

end Watcher

end DocRefs
