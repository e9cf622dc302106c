import AssetCompiler.Errand
import AssetCompiler.Registry

/-!
The compiler host. For a file it takes the fingerprint, picks a slot of its registry, and asks the
cache of the slot; what the cache does not have is reduced by transformers, unless the host only
reads.
-/
namespace AssetCompiler

structure Host where
  settings : Settings
  desk : Nat
  readOnly : Bool
  registry : Registry Cache
  deriving Inhabited

namespace Host

variable {σ : Type}

/-- Builds a host over a directory of caches. Without a word on the mode the settings decide. -/
def build (root : Path) (types : List (String × Transformer)) (desk : Nat) (mode : Option Bool)
    (fallback : Option Transformer) (settings : Settings) : Work σ Host := do
  let settings := { settings with cacheRoot := root }
  let registry ← Registry.build (fun t => Cache.ofTransformer t desk settings) types fallback
  return ⟨settings, desk, mode.getD settings.readOnly, registry⟩

/-- The directory of the caches. -/
def root (h : Host) : Work σ Path := do
  Work.lift (h.settings.resolvedRoot (← Work.environment))

/-- The slot for a file with a fingerprint. -/
def select (h : Host) (file : String) (i : Fingerprint) : Work σ (Slot Cache) := do
  match h.registry.select? (Path.ofText file) i with
  | some (s, isFallback) =>
    if isFallback then Work.report (.fallingBack s.id file)
    return s
  | none => throw (.noTransformer file)

/-- Fingerprints a file and picks its slot. -/
def resolve (h : Host) (file : String) : Work σ (Slot Cache) := do
  h.select file (← Work.fingerprint h.desk (Path.ofText file))

/-- The transformer for an output type. -/
def next? (h : Host) (mediaType : Option String) : Option Transformer :=
  (h.registry.lookup? mediaType).map (·.transformer)

/-- The reduction of a file without any cache. -/
def reduction (h : Host) (file : String) (i : Fingerprint) (t : Transformer) : Reduction :=
  Reduction.ofFile h.next? h.settings.maxPasses file i t

/-- The first part of a full compilation: which errand is to be run. -/
def openFull (h : Host) (file : String) : Work σ Opening := do
  Work.report (.compiling file)
  let s ← h.resolve file
  s.cache.openFetch s.id file fun i => h.reduction file i s.transformer

/-- Looks a precompiled result up. No transformer runs. -/
def compileReadOnly (h : Host) (file : String) : Work σ Artifact := do
  let s ← h.resolve file
  match ← s.cache.get (Path.ofText file) with
  | some a => if a.isPrecompiled then return a else throw (.notPrecompiled file)
  | none => throw (.notPrecompiled file)

/-- The first part of a compilation in the mode of the host. -/
def openCompile (h : Host) (file : String) : Work σ Opening := do
  if h.readOnly then return .settled (.ok (← h.compileReadOnly file)) else h.openFull file

def compileFull (h : Host) (crew : Crew σ) (file : String) : Work σ Artifact := do
  (← h.openFull file).run crew

/-- Compiles a file in the mode of the host. -/
def compile (h : Host) (crew : Crew σ) (file : String) : Work σ Artifact := do
  (← h.openCompile file).run crew

/-- Runs transformers on a file and stores nothing. -/
def compileUncached (h : Host) (crew : Crew σ) (file : String) (i : Fingerprint)
    (t : Transformer) : Work σ Artifact :=
  (h.reduction file i t).run crew

end Host
end AssetCompiler
