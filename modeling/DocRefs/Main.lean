import DocRefs.Command.Display

/-!
# The program

The first line of standard input describes the machine, in JSON. What the command shows goes to standard output, what it
reports to standard error.
-/

/-- Runs the command line. -/
def main (arguments : List String) : IO UInt32 := do
  let description ← (← IO.getStdin).getLine
  let printed := DocRefs.Printed.ofRun description arguments
  printed.out.forM IO.println
  printed.err.forM IO.eprintln
  return printed.code.toUInt32
