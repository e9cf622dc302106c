import AssetCompiler.MediaType
import AssetCompiler.World

/-!
The registry of a host: from media types to transformer names, and from names to slots. Each name
has one slot, with one transformer and one cache, however many media types lead to it.
-/
namespace AssetCompiler

structure Slot (κ : Type) where
  transformer : Transformer
  cache : κ
  deriving Inhabited

def Slot.id {κ : Type} (s : Slot κ) : String := s.transformer.name

structure Registry (κ : Type) where
  nameOf : Keyed String String
  slots : Keyed String (Slot κ)
  fallbackName : Option String
  deriving Inhabited

namespace Registry

variable {κ : Type} {σ : Type}

def empty : Registry κ := ⟨[], [], none⟩

def slot? (r : Registry κ) (name : String) : Option (Slot κ) := Keyed.find? name r.slots

/-- Makes sure of a transformer's slot. Another transformer of the same name is refused. -/
def addSlot (make : Transformer → Work σ κ) (r : Registry κ) (t : Transformer) :
    Work σ (Registry κ) := do
  match r.slot? t.name with
  | none => return { r with slots := r.slots.set t.name ⟨t, ← make t⟩ }
  | some s =>
    if s.transformer.handle = t.handle then return r
    else throw (.configuration (.nameClash t.name s.transformer.display t.display))

/-- Registers transformers under media types, one after the other. -/
def addTypes (make : Transformer → Work σ κ) (r : Registry κ) :
    List (String × Transformer) → Work σ (Registry κ)
  | [] => return r
  | (mediaType, t) :: rest => do
    let r ← r.addSlot make t
    addTypes make { r with nameOf := r.nameOf.set mediaType t.name } rest

/-- The registry of a media type map and a fallback, each cache opened once. -/
def build (make : Transformer → Work σ κ) (types : List (String × Transformer))
    (fallback : Option Transformer) : Work σ (Registry κ) := do
  let r ← empty.addTypes make types
  let r ←
    match fallback with
    | none => pure r
    | some t => do
      let r ← r.addSlot make t
      pure { r with fallbackName := some t.name }
  Work.report (.registryBuilt r.nameOf.length r.slots.length r.fallbackName)
  return r

def sorted (names : List String) : List String := names.mergeSort fun a b => a ≤ b

def mediaTypes (r : Registry κ) : List String := sorted r.nameOf.keys

def names (r : Registry κ) : List String := sorted r.slots.keys

/-- The slot for a media type. -/
def lookup? (r : Registry κ) : Option String → Option (Slot κ)
  | none => none
  | some t => (Keyed.find? t r.nameOf).bind r.slot?

def passthrough? (r : Registry κ) : Option (Slot κ) := r.lookup? (some MediaType.plainText)

def fallback? (r : Registry κ) : Option (Slot κ) := r.fallbackName.bind r.slot?

/-- Media types with their slots, in the order of the types. -/
def items (r : Registry κ) : List (String × Slot κ) :=
  r.mediaTypes.filterMap fun t => (r.lookup? (some t)).map fun s => (t, s)

/-- The slot for a file: the passthrough's for files that are served as they are, else the one of
the media type, else the fallback. The flag tells whether the fallback was taken. -/
def select? (r : Registry κ) (path : Path) (i : Fingerprint) : Option (Slot κ × Bool) :=
  let registered :=
    if i.isBypassed then r.passthrough? else r.lookup? (i.typeOr path)
  match registered with
  | some s => some (s, false)
  | none => r.fallback?.map fun s => (s, true)

end Registry
end AssetCompiler
