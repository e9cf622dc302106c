import AssetCompiler.Decimal

/-!
Written JSON. A style fixes the blanks between the tokens and whether characters beyond ASCII are
escaped; the values written do not depend on it.
-/
namespace AssetCompiler.Json

inductive Layout
  | tight
  | spaced
  | indented (step : Nat)
  deriving DecidableEq

structure Style where
  layout : Layout
  asciiOnly : Bool
  deriving DecidableEq

/-- One line, a blank after each comma and colon, ASCII only. -/
def Style.line : Style := ⟨.spaced, true⟩

/-- One line without any blanks. -/
def Style.compact : Style := ⟨.tight, false⟩

/-- One item a line, two blanks for each level. -/
def Style.pages : Style := ⟨.indented 2, false⟩

/-- As `pages`, ASCII only. -/
def Style.asciiPages : Style := ⟨.indented 2, true⟩

/-- The escape of one unit of sixteen bits. -/
def unitEscape (n : Nat) : List Char := '\\' :: 'u' :: (Text.padded 16 4 n).toList

/-- The escape of a character by its number: one unit, or two for a character beyond the first
65536. -/
def codeEscape (c : Char) : List Char :=
  if c.toNat < 0x10000 then unitEscape c.toNat
  else
    let n := c.toNat - 0x10000
    unitEscape (0xd800 + n / 0x400) ++ unitEscape (0xdc00 + n % 0x400)

/-- One character of a text between quotes. -/
def escapeChar (asciiOnly : Bool) (c : Char) : List Char :=
  if c = '"' ∨ c = '\\' then ['\\', c]
  else if c = '\n' then ['\\', 'n']
  else if c = '\r' then ['\\', 'r']
  else if c = '\t' then ['\\', 't']
  else if c.toNat = 0x08 then ['\\', 'b']
  else if c.toNat = 0x0c then ['\\', 'f']
  else if c.toNat < 0x20 then codeEscape c
  else if asciiOnly ∧ 0x7e < c.toNat then codeEscape c
  else [c]

def writeText (asciiOnly : Bool) (s : String) : List Char :=
  '"' :: s.toList.flatMap (escapeChar asciiOnly) ++ ['"']

/-- The start of a new line at a level, where the layout has lines. -/
def Layout.newLine (level : Nat) : Layout → List Char
  | .indented step => '\n' :: List.replicate (step * level) ' '
  | _ => []

def Layout.afterComma (level : Nat) : Layout → List Char
  | .spaced => [' ']
  | other => other.newLine level

def Layout.afterColon : Layout → List Char
  | .tight => []
  | _ => [' ']

mutual

def render (style : Style) (level : Nat) : Json → List Char
  | .null => "null".toList
  | .bool true => "true".toList
  | .bool false => "false".toList
  | .int n => (Text.signedDecimal n).toList
  | .real d => d.text.toList
  | .nan => "NaN".toList
  | .infinity negative => (if negative then "-Infinity" else "Infinity").toList
  | .str s => writeText style.asciiOnly s
  | .arr [] => ['[', ']']
  | .arr (item :: items) =>
    '[' :: style.layout.newLine (level + 1) ++ render style (level + 1) item ++
      renderItems style (level + 1) items ++ style.layout.newLine level ++ [']']
  | .obj [] => ['{', '}']
  | .obj ((k, v) :: fields) =>
    '{' :: style.layout.newLine (level + 1) ++ writeText style.asciiOnly k ++
      ':' :: style.layout.afterColon ++ render style (level + 1) v ++
      renderFields style (level + 1) fields ++ style.layout.newLine level ++ ['}']

/-- The items after the first. -/
def renderItems (style : Style) (level : Nat) : List Json → List Char
  | [] => []
  | item :: items =>
    ',' :: style.layout.afterComma level ++ render style level item ++
      renderItems style level items

/-- The fields after the first. -/
def renderFields (style : Style) (level : Nat) : List (String × Json) → List Char
  | [] => []
  | (k, v) :: fields =>
    ',' :: style.layout.afterComma level ++ writeText style.asciiOnly k ++
      ':' :: style.layout.afterColon ++ render style level v ++ renderFields style level fields

end

def write (style : Style) (v : Json) : String := String.ofList (render style 0 v)

end AssetCompiler.Json
