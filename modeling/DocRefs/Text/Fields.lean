/-!
# Fields

A text cut at every occurrence of a separator.
-/

namespace DocRefs

/-- The pieces of a text between the separators, always one more than there are separators. -/
def fields (separator : Char) : List Char → List (List Char)
  | [] => [[]]
  | c :: rest =>
    if c = separator then [] :: fields separator rest
    else
      match fields separator rest with
      | [] => [[c]]
      | f :: fs => (c :: f) :: fs

end DocRefs
