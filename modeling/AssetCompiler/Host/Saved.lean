import AssetCompiler.Host.Basic
import AssetCompiler.Json.Reader

/-!
Saved hosts. The registrations of a host are written beside its caches, and a later host is built
from them, either with stand-ins that can only be looked up or with live transformers of the saved
names.
-/
namespace AssetCompiler.Host

variable {σ : Type}

def fileName : String := "compiler-info.json"

/-- What is saved of a host. -/
def configuration (h : Host) (now : Instant) : Configuration :=
  { schemaVersion := Configuration.currentVersion
    transformers := h.registry.items.map fun e => (e.1, e.2.transformer.credentials)
    fallback := h.registry.fallback?.map fun s => s.transformer.credentials
    savedAt := now }

/-- Saves the registrations and gives the path of the file. -/
def save (h : Host) : Work σ Path := do
  let p := (← h.root).child fileName
  Work.filing (Filing.makeDirectories p.parent)
  Work.writeText p (Json.write .pages (h.configuration (← get).now).toJson)
  Work.report (.configurationSaved p.text)
  return p

/-- A configuration from its text. -/
def readConfiguration (now : Instant) (text : List Char) : Except Failure Configuration :=
  match Json.read? text with
  | none => .error (.invalid Configuration.modelName [⟨[], .badJson⟩])
  | some v => (Configuration.read now v).checked Configuration.modelName

/-- The configuration saved under a directory of caches. -/
def loadConfiguration (directory : Path) : Work σ Configuration := do
  let p := (← Work.expandHome directory).child fileName
  if ← Work.look fun v => v.isThere p then
    let text ← Work.look fun v => v.readText p
    Work.lift (readConfiguration (← get).now text)
  else throw (.configuration (.notSaved p.text))

/-- The stand-in for a record: the one made for the first record of its name. -/
def standInFor (made : Keyed String Transformer) (c : Credentials) :
    Keyed String Transformer × Transformer :=
  match made.find? c.name with
  | some t => (made, t)
  | none =>
    let t := Transformer.standIn (made.length + 1) c
    (made.set c.name t, t)

/-- The stand-ins for some records, in order. -/
def standIns (made : Keyed String Transformer) : List (String × Credentials) →
    Keyed String Transformer × List (String × Transformer)
  | [] => (made, [])
  | (mediaType, c) :: rest =>
    let (made, t) := standInFor made c
    let (made, ts) := standIns made rest
    (made, (mediaType, t) :: ts)

/-- A host that serves what was precompiled, with no transformers installed. -/
def buildReadOnly (directory : Path) (desk : Nat) (settings : Work σ Settings) : Work σ Host := do
  let c ← loadConfiguration directory
  let (made, types) := standIns [] c.transformers
  let fallback := c.fallback.map fun f => (standInFor made f).2
  build directory types desk (some true) fallback (← settings)

/-- The live transformer for a record. Another version than the saved one is reported. -/
def liveFor (live : Keyed String Transformer) (c : Credentials) : Work σ Transformer := do
  match live.find? c.name with
  | none => throw (.configuration (.notAvailable c.name (Registry.sorted live.keys)))
  | some t =>
    if t.version ≠ c.version then Work.report (.versionDiffers c.name t.version c.version)
    return t

def liveForAll (live : Keyed String Transformer) : List (String × Credentials) →
    Work σ (List (String × Transformer))
  | [] => return []
  | (mediaType, c) :: rest => do
    let t ← liveFor live c
    return (mediaType, t) :: (← liveForAll live rest)

/-- A host with the saved registrations and live transformers. Of several transformers of one name
the last counts. -/
def buildLive (directory : Path) (ts : List Transformer) (desk : Nat) (mode : Option Bool)
    (settings : Work σ Settings) : Work σ Host := do
  let c ← loadConfiguration directory
  let live : Keyed String Transformer := Keyed.ofList (ts.map fun t => (t.name, t))
  let types ← liveForAll live c.transformers
  let fallback ← c.fallback.mapM (liveFor live)
  build directory types desk mode fallback (← settings)

end AssetCompiler.Host
