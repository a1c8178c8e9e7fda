import DocRefs.Diagnostic
import DocRefs.Log

/-!
# What is shown

What the commands put on the console, with its markup, together with what is reported on the way. What is shown is
recorded as it is handed to the console. How the console draws it is left out: it is taken that the console draws every
line that it is handed, and returns. A console that refuses a text, such as one in which a path or a marker closes a tag
of the markup that was not opened, would end the command there.
-/

namespace DocRefs

/-- One thing that is shown. -/
inductive Output
  | line (text : String)
  | table (headers : List String) (rows : List (List String))
  | report (documents : List (String × List Diagnostic))
  | changes (paths : List String)
  | serveHttp (host : String) (port : Int)
  | serveTools (name transport : String)

/-- What is shown and what is reported. -/
structure Effects where
  shown : List Output := []
  log : List LogEvent := []

/-- One after another. -/
instance : Append Effects := ⟨fun a b => ⟨a.shown ++ b.shown, a.log ++ b.log⟩⟩

namespace Effects

/-- Something that is shown, and nothing else. -/
def display (out : Output) : Effects :=
  ⟨[out], []⟩

/-- A line that is shown, and nothing else. It is taken that the console returns, whatever markup the line holds. -/
def say (text : String) : Effects :=
  display (.line text)

end Effects

namespace Output

/-- A table and the number of its rows. -/
def tableWithCount (headers : List String) (rows : List (List String)) : Effects :=
  ⟨[.table headers rows, .line s!"({rows.length} rows)"], []⟩

end Output

end DocRefs
