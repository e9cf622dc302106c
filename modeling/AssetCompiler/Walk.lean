import AssetCompiler.Concurrent
import AssetCompiler.Host.Basic

/-!
Walks over the files below a directory. Every file is visited even if some visits fail; when all are
done the first failure counts, and later ones are reported.
-/
namespace AssetCompiler

namespace Walk

variable {σ : Type}

def checkRoot (root : Path) : Work σ Unit := do
  unless ← Work.look fun v => v.isDirectory root do
    throw (.badValue (.rootNotDirectory root.text))

/-- The files below a directory, in order. -/
def files (root : Path) : Work σ (List Path) := return (← Work.volume).files root

/-- The visits that failed. -/
def failures (visits : List (Path × Except Failure Artifact)) : List (Path × Failure) :=
  visits.filterMap fun v => match v.2 with | .error e => some (v.1, e) | .ok _ => none

def reportAll : List (Path × Failure) → Work σ Unit
  | [] => return ()
  | (p, e) :: rest => do
    Work.report (.visitFailed p.text e)
    reportAll rest

/-- The end of a walk: the number of files, or the first failure. -/
def conclude (root : Path) (visits : List (Path × Except Failure Artifact)) : Work σ Nat := do
  match failures visits with
  | (_, e) :: later =>
    reportAll later
    throw e
  | [] =>
    Work.report (.visited visits.length root.text)
    return visits.length

/-- Visits files one after the other. Only a signal stops the walk. -/
def visitEach (visit : String → Work σ Artifact) :
    List Path → Work σ (List (Path × Except Failure Artifact))
  | [] => return []
  | p :: rest => do
    match ← Work.outcome (visit p.text) with
    | .error e =>
      if e.isSignal then throw e else return (p, .error e) :: (← visitEach visit rest)
    | .ok a => return (p, .ok a) :: (← visitEach visit rest)

/-- Visits the files below a directory one at a time. -/
def oneByOne (root : Path) (visit : String → Work σ Artifact) : Work σ Nat := do
  checkRoot root
  conclude root (← visitEach visit (← files root))

/-- Visits the files below a directory together, at most `limit` at once, and gives the largest
number that were under way. -/
def together (crew : Crew σ) (root : Path) (limit : Int) (visit : String → Work σ Opening) :
    Work σ (Except Failure Nat × Nat) := do
  checkRoot root
  if limit < 0 then throw (.badValue .noPermits)
  let ps ← files root
  let result ← Concurrent.runTogether crew (ps.map fun p => visit p.text) (some limit.toNat) []
  let end' ← Work.outcome (conclude root (ps.zip result.outcomes))
  return (end', result.peak)

end Walk

namespace Host

variable {σ : Type}

/-- Compiles every file below a directory that is wanted. -/
def compileAll (h : Host) (crew : Crew σ) (root : Path) (wanted : String → Bool) :
    Work σ Unit := do
  let visit (file : String) : Work σ Opening :=
    if wanted file then h.openCompile file else return .settled (.ok ⟨none, []⟩)
  let (r, _) ← Walk.together crew root h.settings.scanLimit visit
  let _ ← Work.lift r

/-- Compiles every file below a directory that is wanted, one at a time. -/
def compileEach (h : Host) (crew : Crew σ) (root : Path) (wanted : String → Bool) :
    Work σ Unit := do
  let visit (file : String) : Work σ Artifact :=
    if wanted file then h.compile crew file else return ⟨none, []⟩
  let _ ← Walk.oneByOne root visit

end Host
end AssetCompiler
