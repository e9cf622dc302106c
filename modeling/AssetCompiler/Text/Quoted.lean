import AssetCompiler.Text.Digit
import AssetCompiler.Text.Printable

/-!
Quoted text for messages: single quotes, or double quotes where the text holds a single one and no
double one. A backslash, the quote in use and all that has no visible form are escaped.
-/
namespace AssetCompiler.Text

/-- The quote character for a text. -/
def quoteFor (s : List Char) : Char :=
  if s.contains '\'' && !s.contains '"' then '"' else '\''

/-- One character between quotes. -/
def quotedChar (quote c : Char) : List Char :=
  if c = '\\' || c = quote then ['\\', c]
  else if c = '\n' then ['\\', 'n']
  else if c = '\r' then ['\\', 'r']
  else if c = '\t' then ['\\', 't']
  else if isPrintable c then [c]
  else if c.toNat < 0x100 then '\\' :: 'x' :: (padded 16 2 c.toNat).toList
  else if c.toNat < 0x10000 then '\\' :: 'u' :: (padded 16 4 c.toNat).toList
  else '\\' :: 'U' :: (padded 16 8 c.toNat).toList

def quoted (s : String) : String :=
  let quote := quoteFor s.toList
  String.ofList (quote :: s.toList.flatMap (quotedChar quote) ++ [quote])

/-- A quoted text, or the word for an absent one. -/
def quotedOption : Option String → String
  | some s => quoted s
  | none => "None"

end AssetCompiler.Text
