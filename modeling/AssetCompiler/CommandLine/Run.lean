import AssetCompiler.Catalogue
import AssetCompiler.CommandLine.Help
import AssetCompiler.Host.Saved
import AssetCompiler.Log.Setup
import AssetCompiler.MediaMap
import AssetCompiler.Text.Part
import AssetCompiler.Walk

/-!
Runs of the program. A run reads its arguments, opens the log as the settings say, and performs its
task. A failure of the task becomes a line of the log and an exit code; failures before that end the
run.
-/
namespace AssetCompiler.CommandLine

/-- The end of a run: its exit code, what it printed, and the lines for the console of errors. -/
structure Ending where
  code : Nat
  output : String
  errors : List String
  deriving DecidableEq, Repr, Inhabited

/-- What a run gets from outside: transformer classes, those who answer for their transformers, and
how the origin of a fatal failure is shown. -/
structure Surroundings (σ : Type) where
  catalogue : Catalogue
  crew : Crew σ
  origin : Failure → String

variable {σ : Type}

/-- The saved memory of fingerprints under a directory of caches. -/
def memoryFile (root : Path) : Path := root.child "fingerprints.json"

/-- The settings, under the directory of caches that the arguments name. -/
def loadSettings (cacheDir : Option Path) : Work σ Settings :=
  Work.loadSettings (match cacheDir with
    | some p => [("cache_root", .str p.text)]
    | none => [])

/-- A number that no fingerprinter has yet. -/
def freshDesk : Work σ Nat := do
  return (Keyed.keys (← get).desks).foldl (fun n k => max n (k + 1)) 0

/-- Builds a host from the settings and some class paths. -/
def buildHost (s : Surroundings σ) (cacheDir : Option Path) (classPaths : List String)
    (readOnly : Bool) : Work σ Host := do
  let settings ← loadSettings cacheDir
  let root ← Work.lift (settings.resolvedRoot (← Work.environment))
  let desk ← freshDesk
  Work.setDesk desk (.fresh settings.classifyOptions)
  let _ ← Work.loadMemory desk (memoryFile root)
  if readOnly || settings.readOnly then Host.buildReadOnly root desk (pure settings)
  else
    let ts ← Work.lift (s.catalogue.transformers 1 (settings.transformerList ++ classPaths))
    let types ← MediaMap.build ts true (.passthrough 0)
    Host.build root types desk none none settings

/-- The code of an artifact as it is printed, nothing if there is none. -/
def codeOf (a : Artifact) : String := (a.content.map (·.code)).getD ""

/-- The version and the settings that matter for caches. -/
def showSettings (cacheDir : Option Path) : Work σ String := do
  let settings ← loadSettings cacheDir
  let root ← Work.lift (settings.resolvedRoot (← Work.environment))
  return Json.write .asciiPages (.obj
    [("version", .str versionNumber), ("cache_root", .str root.text),
     ("cache_backend", .str settings.backend.name), ("read_only_mode", .bool settings.readOnly),
     ("max_compile_passes", .int settings.maxPasses),
     ("transformers", Json.strings settings.transformerList)]) ++ "\n"

/-- The first part of a task: the exit code and what is printed, or a host for a directory that is
still to be compiled. -/
inductive Progress
  | done (code : Nat) (output : String)
  | tree (host : Host) (directory : Path) (excludes : List String)

def begin (s : Surroundings σ) (i : Invocation) : Work σ Progress :=
  match i.task with
  | .nothing => return .done 1 (helpPage none)
  | .info => return .done 0 (← showSettings i.cacheDir)
  | .compile file classPaths readOnly asJson => do
    if ← Work.look fun v => v.isFile file then
      let host ← buildHost s i.cacheDir classPaths readOnly
      let a ← host.compile s.crew file.text
      return .done 0 (if asJson then Json.write .pages a.toJson ++ "\n" else codeOf a)
    else
      Work.report (.noSuchFile file.text)
      return .done 1 ""
  | .compileAll directory classPaths excludes => do
    if ← Work.look fun v => v.isDirectory directory then
      let host ← buildHost s i.cacheDir classPaths false
      Work.report (.compilingTree directory.text)
      return .tree host directory excludes
    else
      Work.report (.noSuchDirectory directory.text)
      return .done 1 ""

/-- Whether a file is to be compiled: no excluded text is part of its path. -/
def isWanted (excludes : List String) (file : String) : Bool :=
  !excludes.any fun e => Text.hasPart e.toList file.toList

/-- The rest of a task. Registrations and fingerprints are saved once all wanted files are
compiled. -/
def finish (s : Surroundings σ) : Progress → Work σ (Nat × String)
  | .done code output => return (code, output)
  | .tree host directory excludes => do
    host.compileAll s.crew directory (isWanted excludes)
    let _ ← host.save
    let root ← host.root
    Work.saveMemory host.desk (memoryFile root)
    return (0, "Compiled " ++ directory.text ++ " into " ++ root.text ++ "\n")

/-- Opens the log. The settings decide on it, but a verbose run writes everything. -/
def openLog (verbose : Bool) : Work σ Log.Setup := do
  let settings ← loadSettings none
  let home := (← Work.environment).lookup "HOME"
  Work.filing (Log.Setup.create home (if verbose then "DEBUG" else settings.logLevel)
    settings.logFormat settings.logFile settings.logRotation settings.logRetention)

/-- The log record of an entry. A verbose run tells where a fatal failure came from. -/
def recordOf (s : Surroundings σ) (verbose : Bool) (e : Log.Entry) : Log.Record :=
  let r := Log.Record.ofEntry Failure.summary e
  match e.event, verbose with
  | .fatal cause, true => { r with exception := some (s.origin cause) }
  | _, _ => r

/-- Moves the journal to the log, and gives the lines for the console. -/
def drain (s : Surroundings σ) (verbose : Bool) (log : Log.Setup) : Work σ (List String) := do
  let w ← get
  set { w with journal := [] }
  Work.filing (log.emitAll w.now (w.journal.reverse.map (recordOf s verbose)))

/-- The exit code and the output of a task. Its failure is reported, but for a cancellation, which ends the
run. -/
def conclude : Except Failure (Nat × String) → Work σ (Nat × String)
  | .ok r => return r
  | .error .interrupted => do
    Work.report .interrupted
    return (130, "")
  | .error .cancelled => throw .cancelled
  | .error e => do
    Work.report (.fatal e)
    return (1, "")

/-- Performs what the arguments ask for. -/
def runInvocation (s : Surroundings σ) (i : Invocation) : Work σ Ending := do
  let log ← openLog i.verbose
  let begun ← Work.outcome (begin s i)
  let early ← drain s i.verbose log
  let result ← Work.outcome (do finish s (← Work.lift begun))
  let (code, output) ← conclude result
  let late ← drain s i.verbose log
  return ⟨code, output, early ++ late⟩

/-- What a reading that ends early comes to. -/
def Stop.ending : Stop → Except Failure Ending
  | help scope => .ok ⟨0, helpPage scope, []⟩
  | version => .ok ⟨0, program ++ " " ++ versionNumber ++ "\n", []⟩
  | complaint scope c => .ok ⟨2, "", complaintLines scope c⟩
  | separatorAsValue => .error (.badValue .separatorAsValue)

/-- Runs the program. -/
def run (s : Surroundings σ) (words : List String) : Work σ Ending :=
  match parse words with
  | .error stop => Work.lift stop.ending
  | .ok i => runInvocation s i

end AssetCompiler.CommandLine
