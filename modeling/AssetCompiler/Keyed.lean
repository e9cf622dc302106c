/-!
Tables that keep the order in which their keys first came. Setting a key again changes its value and
leaves it where it stands.
-/
namespace AssetCompiler

abbrev Keyed (κ ν : Type) := List (κ × ν)

namespace Keyed

variable {κ ν : Type} [BEq κ]

def find? (k : κ) (t : Keyed κ ν) : Option ν := t.lookup k

def set (k : κ) (v : ν) : Keyed κ ν → Keyed κ ν
  | [] => [(k, v)]
  | (k', v') :: rest => if k' == k then (k, v) :: rest else (k', v') :: set k v rest

def erase (k : κ) (t : Keyed κ ν) : Keyed κ ν := t.filter fun e => !(e.1 == k)

/-- The table of a list of settings, made from left to right. -/
def ofList (pairs : List (κ × ν)) : Keyed κ ν := pairs.foldl (fun t e => set e.1 e.2 t) []

def keys (t : Keyed κ ν) : List κ := t.map (·.1)

end Keyed

/-- The list without later repetitions of an item. -/
def firstOccurrences {α : Type} [BEq α] (items : List α) : List α :=
  Keyed.keys (Keyed.ofList (items.map fun x => (x, ())))

end AssetCompiler
