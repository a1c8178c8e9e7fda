import DocRefs.Files.Basic

/-!
# The log

What the library reports while it works, each event with its severity and its text.
-/

namespace DocRefs

/-- How grave an event is. -/
inductive Severity
  | debug
  | info
  | warning
  | error
deriving Repr, DecidableEq

/-- The name of a severity. -/
def Severity.name : Severity → String
  | debug => "DEBUG"
  | info => "INFO"
  | warning => "WARNING"
  | error => "ERROR"

/-- The rank of a severity, from the least grave on. -/
def Severity.rank : Severity → Nat
  | debug => 0
  | info => 1
  | warning => 2
  | error => 3

/-- Something worth reporting. -/
inductive LogEvent
  | rootSearched (start : String) (root : Option String) (probes : Nat)
  | rootsForgotten
  | listingFailed (directory : String) (error : FileError)
  | listingsDropped (count : Nat)
  | callbackFailed (key : String)
  | watchStarted (directory : String)
  | watchStopped (directory : String)
  | changesSeen (count : Nat)
  | changeHandlerFailed
deriving Repr, DecidableEq

namespace LogEvent

/-- How grave an event is. -/
def severity : LogEvent → Severity
  | rootSearched .. => .debug
  | rootsForgotten => .info
  | listingFailed .. => .warning
  | listingsDropped _ => .debug
  | callbackFailed _ => .error
  | watchStarted _ => .info
  | watchStopped _ => .info
  | changesSeen _ => .info
  | changeHandlerFailed => .error

/-- The text of an event. -/
def message : LogEvent → String
  | rootSearched start root probes =>
    let found := root.getD "None"
    s!"Root for {start}: {found} ({probes} directories probed)"
  | rootsForgotten => "Root marker changed; root cache cleared"
  | listingFailed directory error => s!"Error reading directory {directory}: {error.message}"
  | listingsDropped count => s!"Dropped {count} cached directory listing(s)"
  | callbackFailed key => s!"Debounced callback failed for {key}"
  | watchStarted directory => s!"Watcher started for {directory}"
  | watchStopped directory => s!"Watcher stopped for {directory}"
  | changesSeen count => s!"Detected changes in {count} path(s)"
  | changeHandlerFailed => "Error in watcher callback"

end LogEvent

end DocRefs
