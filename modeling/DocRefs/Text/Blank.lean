/-!
# Blanks

Three classes of blank characters, each the one that a reader of this library uses: six ASCII blanks part a reference,
the characters with the White_Space property surround a number, and four separator controls join them when a setting is
blank.
-/

namespace DocRefs

/-- The six ASCII blanks: space, tab, line feed, carriage return, vertical tab and form feed. -/
def isBlank (c : Char) : Bool :=
  c == ' ' || c == '\t' || c == '\n' || c == '\r' || c == '\x0b' || c == '\x0c'

/-- Characters with the White_Space property. -/
def isWhiteSpace (c : Char) : Bool :=
  isBlank c || c == '\u0085' || c == '\u00a0' || c == '\u1680' || ('\u2000' ≤ c && c ≤ '\u200a') || c == '\u2028' ||
    c == '\u2029' || c == '\u202f' || c == '\u205f' || c == '\u3000'

/-- White space and the four separator controls. -/
def isSpacing (c : Char) : Bool :=
  isWhiteSpace c || ('\x1c' ≤ c && c ≤ '\x1f')

/-- A text without the characters of a class at its two ends. -/
def trimBoth (class? : Char → Bool) (text : List Char) : List Char :=
  (((text.dropWhile class?).reverse).dropWhile class?).reverse

end DocRefs
