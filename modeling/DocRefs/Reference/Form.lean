import DocRefs.Text.Blank

/-!
# The written form of a reference

A reference is written `{* path ln[..] hl[..] *}` or `{! path ln[..] hl[..] !}`. `Form` is its syntax, part by part;
`Form.text` writes it, and `Form.WellFormed` says which characters each part may hold. Their texts are the language of
references.
-/

namespace DocRefs

/-- Word characters: ASCII letters, digits and the underscore. -/
def isWordChar (c : Char) : Bool :=
  c.isAlphanum || c == '_'

/-- Characters of a path in a reference. -/
def isPathChar (c : Char) : Bool :=
  isWordChar c || c == '/' || c == '.' || c == '-'

/-- Characters between the brackets of a block. -/
def isBodyChar (c : Char) : Bool :=
  isWordChar c || c == ',' || c == ':' || c == '-'

/-- The two kinds of brackets: a reference closes with the mark that it opens with. -/
inductive Family
  | star
  | bang
deriving Repr, DecidableEq

/-- The mark of a kind of brackets. -/
def Family.mark : Family → Char
  | star => '*'
  | bang => '!'

/-- The family that a mark belongs to. -/
def Family.ofMark? (c : Char) : Option Family :=
  if c = '*' then some .star else if c = '!' then some .bang else none

/-- Characters that may stand right after the opening mark. -/
def isModifier (c : Char) : Bool :=
  c == '>' || c == '+' || c == '-'

/-- The keywords that label a block. -/
inductive Label
  | lines
  | highlight
deriving Repr, DecidableEq

/-- A keyword as it is written. -/
def Label.text : Label → List Char
  | lines => ['l', 'n']
  | highlight => ['h', 'l']

/-- A bracketed block with the blanks before it. -/
structure Block where
  gap : List Char
  label : Option Label
  body : List Char
deriving Repr, DecidableEq

/-- A block as it is written. -/
def Block.text (b : Block) : List Char :=
  b.gap ++ (b.label.elim [] Label.text ++ '[' :: (b.body ++ [']']))

/-- The parts of a written reference. -/
structure Form where
  family : Family
  modifier : Option Char
  gap : List Char
  path : List Char
  blocks : List Block
  tail : List Char
deriving Repr, DecidableEq

namespace Form

/-- What stands before the path. -/
def opener (f : Form) : List Char :=
  '{' :: f.family.mark :: (f.modifier.toList ++ f.gap)

/-- A reference as it is written. -/
def text (f : Form) : List Char :=
  f.opener ++ (f.path ++ (f.blocks.flatMap Block.text ++ (f.tail ++ [f.family.mark, '}'])))

end Form

/-- A text of one or more blanks. -/
def IsGap (text : List Char) : Prop :=
  text ≠ [] ∧ ∀ c ∈ text, isBlank c

/-- Blanks before a block, and a body of one or more characters that it may hold. -/
structure Block.WellFormed (b : Block) : Prop where
  gap : IsGap b.gap
  body : b.body ≠ [] ∧ ∀ c ∈ b.body, isBodyChar c

/-- Which characters the parts of a reference may hold. -/
structure Form.WellFormed (f : Form) : Prop where
  modifier : ∀ c ∈ f.modifier, isModifier c
  gap : IsGap f.gap
  path : f.path ≠ [] ∧ ∀ c ∈ f.path, isPathChar c
  blocks : ∀ b ∈ f.blocks, b.WellFormed
  tail : ∀ c ∈ f.tail, isBlank c

end DocRefs
