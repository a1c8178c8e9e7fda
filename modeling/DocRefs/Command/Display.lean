import DocRefs.Command.Run
import DocRefs.Input.Json.Parser
import DocRefs.Input.Json.Printer
import DocRefs.Record

/-!
# What a program run prints

The command line, run over a machine that a JSON text describes: the lines for the two output streams, and the exit
code.
-/

namespace DocRefs

/-- The lines in which something is shown. The cells of a table are parted by tabs; what a server would serve is not
shown. -/
def Output.lines : Output → List String
  | line text => [text]
  | table headers rows => (headers :: rows).map (String.intercalate "\t")
  | report documents => [String.ofList (Diagnostic.reportValue documents).write]
  | changes _ => []
  | serveHttp _ _ => []
  | serveTools _ _ => []

/-- A log event as a line. -/
def LogEvent.line (e : LogEvent) : String :=
  s!"{e.severity.name} {e.message}"

/-- The text of an error that ends a command. -/
def CommandError.message : CommandError → String
  | settings e => e.message
  | request e => e.message
  | file e => e.message

/-- What a program run prints, and its exit code. -/
structure Printed where
  out : List String := []
  err : List String := []
  code : Nat

namespace Printed

/-- A run that ends with a complaint. -/
def complaint (text : String) : Printed :=
  { err := [text], code := 2 }

/-- The result of a command as it is printed. -/
def ofResult (r : CommandResult) : Printed :=
  let out := r.effects.shown.flatMap Output.lines
  let log := r.effects.log.map LogEvent.line
  match r.exit with
  | .ok code => ⟨out, log, code⟩
  | .error e => ⟨out, log ++ [e.message], 1⟩

/-- Runs the command line over the machine that a text describes. -/
def ofRun (description : String) (arguments : List String) : Printed :=
  match Json.read description.toList with
  | .error _ => complaint "The machine is not described in JSON."
  | .ok v =>
    match Checked.machine v with
    | .error _ => complaint "The description of the machine is at fault."
    | .ok machine =>
      match CommandLine.run? machine arguments with
      | none => complaint "The command line is not understood."
      | some r => ofResult r

end Printed

end DocRefs
