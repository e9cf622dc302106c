import AssetCompiler.Fingerprinting
import AssetCompiler.Store.Basic

/-!
Caches. A cache answers for the results of one transformer: it fingerprints a file, and looks in its
store under the key of the fingerprint.
-/
namespace AssetCompiler

/-- `desk` is the number of the fingerprinter. -/
structure Cache where
  store : Store
  desk : Nat
  deriving DecidableEq, Repr, Inhabited

namespace Cache

variable {σ : Type}

def space (c : Cache) : String := c.store.space

/-- Opens the cache of a transformer with the backend and directory of the settings. -/
def ofTransformer (t : Transformer) (desk : Nat) (settings : Settings) : Work σ Cache := do
  let home := (← Work.environment).lookup "HOME"
  let store ← Work.filing (Store.openAs home settings.backend settings.cacheRoot t.space)
  return ⟨store, desk⟩

/-- What the store has under a key. An entry that cannot be read is reported and counts as none. -/
def lookup (c : Cache) (key : String) : Work σ (Option Entry) := do
  match ← Work.filing (c.store.get (← get).now key) with
  | .found e => return some e
  | .absent => return none
  | .unreadable cause =>
    match c.store with
    | .folder _ _ => Work.report (.entryUnreadable key cause)
    | .table _ _ _ => Work.report (.rowUnreadable key cause)
    return none

/-- The stored result for a file as it is now. -/
def get (c : Cache) (p : Path) : Work σ (Option Artifact) := do
  let i ← Work.fingerprint c.desk p
  return (← c.lookup i.cacheKey).map Entry.toArtifact

/-- Stores a result under a key, if it has content. -/
def keep (c : Cache) (key : String) (a : Artifact) : Work σ Unit := do
  if a.isPrecompiled then
    let e := Entry.ofArtifact (← MonadState.get).now key c.space a
    Work.filing (c.store.put key e)

end Cache
end AssetCompiler
