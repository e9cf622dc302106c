import AssetCompiler.Decimal
import AssetCompiler.Text.Quoted

/-!
Values as messages show them. Texts inside a value are quoted, a text alone is shown as it is.
-/
namespace AssetCompiler.Json

mutual

/-- A value as it stands inside another one. -/
def shown : Json → String
  | .null => "None"
  | .bool true => "True"
  | .bool false => "False"
  | .int n => Text.signedDecimal n
  | .real d => d.text
  | .nan => "nan"
  | .infinity negative => if negative then "-inf" else "inf"
  | .str s => Text.quoted s
  | .arr items => "[" ++ ", ".intercalate (shownItems items) ++ "]"
  | .obj fields => "\x7b" ++ ", ".intercalate (shownFields fields) ++ "\x7d"

def shownItems : List Json → List String
  | [] => []
  | v :: rest => v.shown :: shownItems rest

def shownFields : List (String × Json) → List String
  | [] => []
  | (k, v) :: rest => (Text.quoted k ++ ": " ++ v.shown) :: shownFields rest

end

/-- A value as it stands alone. -/
def display : Json → String
  | .str s => s
  | v => v.shown

end AssetCompiler.Json
