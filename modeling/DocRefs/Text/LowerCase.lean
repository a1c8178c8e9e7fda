import DocRefs.Text.LowerCase.Table

/-!
# Lower case

The full lower-case form of a text: one character each, but for the dotted capital I, which becomes two, and the capital
sigma, which takes its final form at the end of a word.
-/

namespace DocRefs.LowerCase

/-- The simple lower-case form of a character. -/
def simple (c : Char) : Char :=
  if c.toNat < 128 then c.toLower
  else
    match runs.find? fun (first, last, step, _) => first ≤ c.toNat && c.toNat ≤ last &&
        (c.toNat - first) % step == 0 with
    | some (_, _, _, shift) => Char.ofNat (c.toNat + shift).toNat
    | none => c

/-- Characters with case that are not skipped. -/
def isCased (c : Char) : Bool :=
  casedRanges.any fun (first, last) => first ≤ c.toNat && c.toNat ≤ last

/-- Characters that are skipped when looking for one with case. -/
def isSkipped (c : Char) : Bool :=
  skippedRanges.any fun (first, last) => first ≤ c.toNat && c.toNat ≤ last

/-- The first character of the text that is not skipped has case. -/
def meetsCased (text : List Char) : Bool :=
  ((text.find? fun c => !isSkipped c).map isCased).getD false

/-- The capital sigma. -/
def sigma : Char := '\u03a3'

/-- The lower-case form of the rest of a text, whose characters before it are given from the nearest to the first. -/
def after (before : List Char) : List Char → List Char
  | [] => []
  | c :: rest =>
    (if c = sigma then if meetsCased before && !meetsCased rest then ['\u03c2'] else ['\u03c3']
      else if c = '\u0130' then ['i', '\u0307']
      else [simple c]) ++ after (c :: before) rest

end DocRefs.LowerCase

namespace DocRefs

/-- The lower-case form of a text. -/
def lowerCase (s : String) : String :=
  String.ofList (LowerCase.after [] s.toList)

end DocRefs
