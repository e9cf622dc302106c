import AssetCompiler.Cache
import AssetCompiler.Reduction

/-!
Errands. An errand fetches the result for one key of a cache: from the store, or by a reduction
whose result is then stored. A request opens with the part that cannot be interrupted, and either
ends there or goes on with an errand that it may share with others.
-/
namespace AssetCompiler

/-- `file` is the path that the one who sent the errand asked for. -/
structure Errand where
  cache : Cache
  key : String
  file : String
  work : Reduction

/-- How a request goes on after its first part. Errands are shared within an owner, the transformer
whose cache they are for. -/
inductive Opening
  | settled (outcome : Except Failure Artifact)
  | busy (pauses : Nat) (outcome : Except Failure Artifact)
  | shared (owner : String) (errand : Errand)

namespace Errand

variable {σ : Type}

/-- The stored result, if there is one. -/
def stored? (e : Errand) : Work σ (Option Artifact) := do
  match ← e.cache.lookup e.key with
  | some entry =>
    Work.report (.cacheHit e.file e.cache.space)
    return some entry.toArtifact
  | none => return none

/-- Stores a result and hands it on. -/
def deliver (e : Errand) (a : Artifact) : Work σ Artifact := do
  e.cache.keep e.key a
  return a

/-- Runs an errand without interruptions. -/
def run (crew : Crew σ) (e : Errand) : Work σ Artifact := do
  match ← e.stored? with
  | some a => return a
  | none => e.deliver (← e.work.run crew)

end Errand

namespace Opening

variable {σ : Type}

/-- Goes on without interruptions. -/
def run (crew : Crew σ) : Opening → Work σ Artifact
  | .settled outcome | .busy _ outcome => Work.lift outcome
  | .shared _ errand => errand.run crew

end Opening

/-- Opens a fetch of a file's result: the file is fingerprinted, and if its key is not in the store,
the reduction for the fingerprint makes the result. -/
def Cache.openFetch {σ : Type} (c : Cache) (owner file : String) (work : Fingerprint → Reduction) :
    Work σ Opening := do
  let i ← Work.fingerprint c.desk (Path.ofText file)
  return .shared owner ⟨c, i.cacheKey, file, work i⟩

end AssetCompiler
