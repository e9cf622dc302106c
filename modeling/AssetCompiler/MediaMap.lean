import AssetCompiler.World

/-!
From a list of transformers to the map of media types that they serve. A later transformer takes a
media type over from an earlier one, which is reported.
-/
namespace AssetCompiler.MediaMap

variable {σ : Type}

/-- Gives a media type to a transformer. -/
def assign (t : Transformer) (map : Keyed String Transformer) (mediaType : String) :
    Work σ (Keyed String Transformer) := do
  match map.find? mediaType with
  | some older =>
    if older.handle ≠ t.handle then Work.report (.replaces mediaType t.name older.name)
  | none => pure ()
  return map.set mediaType t

def assignAll (map : Keyed String Transformer) : List (String × Transformer) →
    Work σ (Keyed String Transformer)
  | [] => return map
  | (mediaType, t) :: rest => do assignAll (← assign t map mediaType) rest

/-- The media types that some transformers ask for, in their order. -/
def served (ts : List Transformer) : List (String × Transformer) :=
  ts.flatMap fun t => t.inputs.map fun m => (m, t)

/-- The map for some transformers. If wanted, a passthrough serves plain text that nobody else
serves. -/
def build (ts : List Transformer) (wantsPassthrough : Bool) (passthrough : Transformer) :
    Work σ (Keyed String Transformer) := do
  let map ← assignAll [] (served ts)
  if wantsPassthrough && (map.find? MediaType.plainText).isNone then
    return map.set MediaType.plainText passthrough
  else return map

end AssetCompiler.MediaMap
