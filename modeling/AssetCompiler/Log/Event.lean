import AssetCompiler.Failure
import AssetCompiler.Json.Writer
import AssetCompiler.Log.Context
import AssetCompiler.Models

/-!
What the program reports while it works. An event is kept as what happened; its severity, source and
wording are functions of it.
-/
namespace AssetCompiler.Log

inductive Event
  | registryBuilt (mediaTypes transformers : Nat) (fallback : Option String)
  | compiling (file : String)
  | fallingBack (transformer file : String)
  | joining (file key : String)
  | cacheHit (file space : String)
  | declined (transformer file : String)
  | goingOn (file : String) (mediaType : Option String)
  | stuck (output : Output)
  | configurationSaved (path : String)
  | versionDiffers (transformer live saved : String)
  | entryUnreadable (key : String) (cause : Failure)
  | rowUnreadable (key : String) (cause : Failure)
  | memoryUnreadable (path : String) (cause : Failure)
  | replaces (mediaType newer older : String)
  | visited (count : Nat) (root : String)
  | visitFailed (path : String) (cause : Failure)
  | noSuchFile (path : String)
  | noSuchDirectory (path : String)
  | compilingTree (path : String)
  | interrupted
  | fatal (cause : Failure)

inductive Severity
  | debug
  | info
  | warning
  | error
  deriving DecidableEq, Repr

def Severity.level : Severity → Int
  | debug => 10
  | info => 20
  | warning => 30
  | error => 40

namespace Event

def severity : Event → Severity
  | registryBuilt _ _ _ | compiling _ | fallingBack _ _ | joining _ _ | cacheHit _ _
  | declined _ _ | goingOn _ _ | stuck _ => .debug
  | configurationSaved _ | visited _ _ | compilingTree _ | interrupted => .info
  | versionDiffers _ _ _ | entryUnreadable _ _ | rowUnreadable _ _ | memoryUnreadable _ _
  | replaces _ _ _ => .warning
  | visitFailed _ _ | noSuchFile _ | noSuchDirectory _ | fatal _ => .error

/-- The logger that an event belongs to. -/
def source : Event → String
  | registryBuilt _ _ _ => "assetpipe.pipeline.registry"
  | compiling _ | fallingBack _ _ | declined _ _ | goingOn _ _ | stuck _ | configurationSaved _
  | versionDiffers _ _ _ => "assetpipe.pipeline.compiler_host"
  | joining _ _ | cacheHit _ _ => "assetpipe.cache.compile_cache"
  | entryUnreadable _ _ => "assetpipe.cache.json_store"
  | rowUnreadable _ _ => "assetpipe.cache.sqlite_store"
  | memoryUnreadable _ _ => "assetpipe.cache.fingerprint"
  | replaces _ _ _ => "assetpipe.transformers.transformer_factory"
  | visited _ _ | visitFailed _ _ => "assetpipe.batch.scanner"
  | noSuchFile _ | noSuchDirectory _ | compilingTree _ | interrupted | fatal _ => "assetpipe.main"

def text (wording : Failure.Wording) : Event → String
  | registryBuilt mediaTypes transformers fallback =>
    "Registry built: " ++ Text.decimal mediaTypes ++ " media types, " ++
      Text.decimal transformers ++ " transformers (fallback=" ++ fallback.getD "None" ++ ")"
  | compiling file => "Compiling " ++ file
  | fallingBack transformer file => "Falling back to " ++ transformer ++ " for " ++ file
  | joining file key =>
    "Joining in-flight compile of " ++ file ++ " (" ++ String.ofList (key.toList.take 12) ++ ")"
  | cacheHit file space => "Cache hit for " ++ file ++ " in " ++ space
  | declined transformer file => transformer ++ " declined " ++ file
  | goingOn file mediaType =>
    "Recursively compiling result of " ++ file ++ " with non-final media type " ++
      mediaType.getD "None"
  | stuck output =>
    "Recursive compile failed - intermediate result: " ++ Json.write .compact output.toJson
  | configurationSaved path => "Saved compiler configuration to " ++ path
  | versionDiffers transformer live saved =>
    "Transformer " ++ transformer ++ " is version " ++ live ++
      ", configuration was saved with " ++ saved
  | entryUnreadable key cause => "Failed to read cache entry " ++ key ++ ": " ++ cause.text wording
  | rowUnreadable key cause =>
    "Failed to deserialize cache entry " ++ key ++ ": " ++ cause.text wording
  | memoryUnreadable path cause =>
    "Failed to read fingerprint state " ++ path ++ ": " ++ cause.text wording
  | replaces mediaType newer older =>
    "Media type " ++ mediaType ++ ": " ++ newer ++ " replaces " ++ older
  | visited count root => "Visited " ++ Text.decimal count ++ " files under " ++ root
  | visitFailed path cause => "Failed on " ++ path ++ ": " ++ cause.text wording
  | noSuchFile path => "File not found: " ++ path
  | noSuchDirectory path => "Not a directory: " ++ path
  | compilingTree path => "Compiling " ++ path
  | interrupted => "Interrupted by user"
  | fatal cause => "Fatal error: " ++ cause.text wording

end Event

/-- An event and the context in which it happened. -/
structure Entry where
  context : Context
  event : Event

end AssetCompiler.Log
