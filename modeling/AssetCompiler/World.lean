import AssetCompiler.Log.Event
import AssetCompiler.Settings.Basic
import AssetCompiler.Transformer
import AssetCompiler.Volume.Filing

/-!
The state that work goes on in, and actions on it. Everything that an answer can depend on is here:
files, environment, what fingerprinters remember, the time, the journal, and the state of the crew.
-/
namespace AssetCompiler

/-- Remembers the fingerprints of the files that it has seen, by their real paths. -/
structure Fingerprinter where
  options : ClassifyOptions
  memory : Keyed String Memory
  deriving Inhabited

/-- `journal` holds the newest entry first; `desks` are the fingerprinters by number. -/
structure World (σ : Type) where
  volume : Volume
  environment : List (String × String)
  desks : Keyed Nat Fingerprinter
  journal : List Log.Entry
  now : Instant
  tools : σ

/-- An action that can fail; what it did before it failed stays done. -/
abbrev Work (σ α : Type) := ExceptT Failure (StateM (World σ)) α

namespace Work

variable {σ α : Type}

def lift (r : Except Failure α) : Work σ α :=
  match r with
  | .ok a => pure a
  | .error e => throw e

/-- Writes an event into the journal. -/
def note (context : Log.Context) (event : Log.Event) : Work σ Unit :=
  modify fun w => { w with journal := ⟨context, event⟩ :: w.journal }

/-- Writes an event that belongs to no pass. -/
def report (event : Log.Event) : Work σ Unit := note Log.Context.none event

def volume : Work σ Volume := return (← get).volume

def environment : Work σ (List (String × String)) := return (← get).environment

/-- Runs an action on the volume. -/
def filing (action : Filing α) : Work σ α := fun w =>
  let (r, v) := action.run w.volume
  (r, { w with volume := v })

/-- Asks the volume. -/
def look (f : Volume → Except Failure α) : Work σ α := filing (Filing.look f)

def writeText (p : Path) (s : String) : Work σ Unit :=
  filing (Filing.write p (Text.Utf8.ofString s))

/-- A path with the home directory written out. -/
def expandHome (p : Path) : Work σ Path := do
  match p.expandHome? ((← environment).lookup "HOME") with
  | some q => return q
  | none => throw .noHome

/-- The settings of the environment and the file of variables, with values given in the call. -/
def loadSettings (given : List (String × Json)) : Work σ Settings := do
  let w ← get
  lift (Settings.load w.volume w.environment given)

/-- Runs an action and gives its outcome as a value. -/
def outcome (action : Work σ α) : Work σ (Except Failure α) := fun w =>
  let (r, w') := action.run w
  (.ok r, w')

end Work
end AssetCompiler
