import DocRefs.Text.Hex
import DocRefs.Text.Printable
import DocRefs.Text.Surrogate

/-!
# Quoted text

The form in which a path or a setting is quoted in a message: between single quotes, or double ones when it holds a
single quote and no double one, with everything that is not printable written by its code.
-/

namespace DocRefs.Quoted

/-- The quote that a text is put between. -/
def quoteFor (text : List Char) : Char :=
  if text.contains '\'' && !text.contains '"' then '"' else '\''

/-- How one character is written between the quotes. -/
def escape (quote c : Char) : List Char :=
  if c = quote || c = '\\' then ['\\', c]
  else if c = '\n' then ['\\', 'n']
  else if c = '\r' then ['\\', 'r']
  else if c = '\t' then ['\\', 't']
  else if isPrintable c then [c]
  else
    let code := Surrogate.codeOf c
    if code < 0x100 then '\\' :: 'x' :: Hex.digits 2 code
    else if code < 0x10000 then '\\' :: 'u' :: Hex.digits 4 code
    else '\\' :: 'U' :: Hex.digits 8 code

end DocRefs.Quoted

namespace DocRefs

/-- A text between quotes. -/
def quoted (s : String) : String :=
  let quote := Quoted.quoteFor s.toList
  String.ofList (quote :: (s.toList.flatMap (Quoted.escape quote) ++ [quote]))

end DocRefs
