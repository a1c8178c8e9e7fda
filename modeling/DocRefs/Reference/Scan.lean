import DocRefs.Reference
import DocRefs.Reference.Form

/-!
# Finding references

A reference is read from the front of a text part by part: no part can begin with a character that the part before it
may go on with, so nothing is ever taken back. The scan tries every offset from left to right and goes on behind each
reference that it finds.
-/

namespace DocRefs

/-- The keyword at the front of a text, if one is there, and the rest. -/
def Label.split : List Char → Option Label × List Char
  | 'l' :: 'n' :: rest => (some .lines, rest)
  | 'h' :: 'l' :: rest => (some .highlight, rest)
  | text => (none, text)

/-- The block at the front of a text and the rest. -/
def Block.read? (text : List Char) : Option (Block × List Char) :=
  let gap := text.takeWhile isBlank
  let (label, rest) := Label.split (text.dropWhile isBlank)
  match rest with
  | '[' :: rest =>
    let body := rest.takeWhile isBodyChar
    match rest.dropWhile isBodyChar with
    | ']' :: rest => if gap.isEmpty || body.isEmpty then none else some (⟨gap, label, body⟩, rest)
    | _ => none
  | _ => none

/-- What is behind a label is not longer than the text. -/
theorem Label.length_split_le (text : List Char) : (Label.split text).2.length ≤ text.length := by
  unfold Label.split
  split <;> simp only [List.length_cons] <;> omega

/-- A block takes some of the text. -/
theorem Block.length_lt_of_read? {text : List Char} {b : Block} {rest : List Char}
    (h : Block.read? text = some (b, rest)) : rest.length < text.length := by
  unfold Block.read? at h
  have h1 := Label.length_split_le (text.dropWhile isBlank)
  have h2 := (List.dropWhile_suffix isBlank (l := text)).length_le
  simp only at h
  split at h
  · next r hr =>
    have h3 := (List.dropWhile_suffix isBodyChar (l := r)).length_le
    split at h
    · next r' hr' =>
      split at h
      · simp at h
      · simp only [Option.some.injEq, Prod.mk.injEq] at h
        rw [← h.2]
        rw [hr'] at h3
        rw [hr] at h1
        simp only [List.length_cons] at h1 h3
        omega
    · simp at h
  · simp at h

/-- The blocks at the front of a text, as many as there are, and the rest. -/
def Block.readAll (text : List Char) : List Block × List Char :=
  match h : Block.read? text with
  | none => ([], text)
  | some (b, rest) =>
    have := Block.length_lt_of_read? h
    let (bs, rest) := Block.readAll rest
    (b :: bs, rest)
termination_by text.length

namespace Form

/-- The modifier at the front of a text, if one is there, and the rest. -/
def splitModifier : List Char → Option Char × List Char
  | c :: rest => if isModifier c then (some c, rest) else (none, c :: rest)
  | [] => (none, [])

/-- The opener at the front of a text, as its family, modifier and blanks, and the rest. -/
def readOpener? : List Char → Option ((Family × Option Char × List Char) × List Char)
  | '{' :: mark :: rest =>
    (Family.ofMark? mark).bind fun family =>
      let (modifier, rest) := splitModifier rest
      let gap := rest.takeWhile isBlank
      if gap.isEmpty then none else some ((family, modifier, gap), rest.dropWhile isBlank)
  | _ => none

/-- The reference at the front of a text and the rest. -/
def read? (text : List Char) : Option (Form × List Char) :=
  (readOpener? text).bind fun ((family, modifier, gap), rest) =>
    let path := rest.takeWhile isPathChar
    let (blocks, rest) := Block.readAll (rest.dropWhile isPathChar)
    let tail := rest.takeWhile isBlank
    match rest.dropWhile isBlank with
    | mark :: '}' :: rest =>
      if path.isEmpty || mark != family.mark then none
      else some (⟨family, modifier, gap, path, blocks, tail⟩, rest)
    | _ => none

/-- The references of a text with their offsets, left to right and none within another. The text is what is left from an
offset on; `skip` characters of it belong to a reference already found. -/
def findFrom (offset skip : Nat) : List Char → List (Nat × Form)
  | [] => []
  | c :: rest =>
    match skip with
    | skip + 1 => findFrom (offset + 1) skip rest
    | 0 =>
      match read? (c :: rest) with
      | none => findFrom (offset + 1) 0 rest
      | some (form, _) => (offset, form) :: findFrom (offset + 1) (form.text.length - 1) rest

/-- The references of a text with their offsets. -/
def findAll (text : List Char) : List (Nat × Form) :=
  findFrom 0 0 text

/-- The labelled blocks with their bodies, in order. Labels count only in a reference where a single space stands right
before one of them. -/
def labelled (f : Form) : List (Label × List Char) :=
  if f.blocks.any fun b => b.label.isSome && b.gap.getLast? == some ' ' then
    f.blocks.filterMap fun b => b.label.map (·, b.body)
  else []

/-- What the last block with a label holds. -/
def lastOf (label : Label) (blocks : List (Label × List Range)) : Option (List Range) :=
  (blocks.reverse.find? (·.1 = label)).map (·.2)

/-- The reference that a form at an offset writes. -/
def toReference (offset : Nat) (f : Form) : Except NumeralTooLong Reference := do
  let blocks ← f.labelled.mapM fun (label, body) => return (label, ← Range.ofSegments (fields ',' body))
  return {
    filePath := String.ofList f.path
    lineRanges := lastOf .lines blocks
    highlightRanges := lastOf .highlight blocks
    span := ⟨offset, offset + f.text.length⟩ }

end Form

/-- Every reference of a text, left to right. -/
def Reference.scan (text : String) : Except NumeralTooLong (List Reference) :=
  (Form.findAll text.toList).mapM fun (offset, form) => form.toReference offset

end DocRefs
