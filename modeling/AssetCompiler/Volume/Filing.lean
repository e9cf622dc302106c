import AssetCompiler.Volume.Tree

/-!
Actions on a volume that can fail. What an action did before it failed stays done.
-/
namespace AssetCompiler

abbrev Filing (α : Type) := ExceptT Failure (StateM Volume) α

namespace Filing

variable {α : Type}

def lift (r : Except Failure α) : Filing α :=
  match r with
  | .ok a => pure a
  | .error e => throw e

def look (f : Volume → Except Failure α) : Filing α := do lift (f (← get))

def change (f : Volume → Except Failure Volume) : Filing Unit := do set (← lift (f (← get)))

def makeDirectories (p : Path) : Filing Unit := change fun v => v.makeDirectories p

def write (p : Path) (bytes : List UInt8) : Filing Unit := change fun v => v.write p bytes

/-- Runs an action; if it fails, runs another one before the failure goes on. -/
def onFailure (action : Filing α) (cleanUp : Filing Unit) : Filing α :=
  tryCatch action fun e => do
    tryCatch cleanUp fun _ => pure ()
    throw e

end Filing
end AssetCompiler
