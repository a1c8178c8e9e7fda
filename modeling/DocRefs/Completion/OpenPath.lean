import DocRefs.Reference.Scan

/-!
# The path under the cursor

While a reference is being typed, the text of the line up to the cursor ends inside its path: behind an opener stand
path characters only.
-/

namespace DocRefs.OpenPath

/-- Whether one of the two opening marks occurs; most lines hold none. -/
def mentionsOpener : List Char → Bool
  | '{' :: '*' :: _ => true
  | '{' :: '!' :: _ => true
  | _ :: rest => mentionsOpener rest
  | [] => false

/-- What stands behind the last opener. -/
def behindLastOpener? : List Char → Option (List Char)
  | [] => none
  | c :: rest =>
    match behindLastOpener? rest with
    | some tail => some tail
    | none => (Form.readOpener? (c :: rest)).map (·.2)

/-- Whether a path is followed by the beginning of a block. -/
def startsBlock (tail : List Char) : Bool :=
  let rest := tail.dropWhile isPathChar
  let afterGap := rest.dropWhile isBlank
  tail.head?.any isPathChar && rest.head?.any isBlank && (Label.split afterGap).2.head? == some '['

/-- The part of a path that is typed so far, if the cursor is in the path of an open reference. -/
def ofLine? (linePrefix : List Char) : Option (List Char) :=
  if !mentionsOpener linePrefix then none
  else
    match behindLastOpener? linePrefix with
    | none => none
    | some tail => if startsBlock tail then none else if tail.all isPathChar then some tail else none

end DocRefs.OpenPath
