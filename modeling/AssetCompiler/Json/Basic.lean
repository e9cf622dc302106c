import AssetCompiler.Keyed

/-!
JSON values. Whole numbers are kept apart from fractions, objects keep the order of their keys, and
the three number words that some writers use beside the standard are values too.
-/
namespace AssetCompiler

/-- A decimal fraction `± digits · 10 ^ exponent`. -/
structure Decimal where
  negative : Bool
  digits : Nat
  exponent : Int
  deriving DecidableEq, Repr, Inhabited

inductive Json
  | null
  | bool (b : Bool)
  | int (n : Int)
  | real (d : Decimal)
  | nan
  | infinity (negative : Bool)
  | str (s : String)
  | arr (items : List Json)
  | obj (fields : List (String × Json))
  deriving Inhabited

namespace Json

/-- Emptiness in the widest sense: nothing, no, zero, and texts and collections without content. -/
def isTruthy : Json → Bool
  | null => false
  | bool b => b
  | int n => n != 0
  | real d => d.digits != 0
  | nan | infinity _ => true
  | str s => !s.isEmpty
  | arr items => !items.isEmpty
  | obj fields => !fields.isEmpty

def ofOption : Option String → Json
  | some s => str s
  | none => null

def strings (items : List String) : Json := arr (items.map str)

end Json
end AssetCompiler
