import AssetCompiler.Schema

/-!
The values that the compiler consumes, holds and produces, each with its JSON form and its reader.
-/
namespace AssetCompiler

open Schema

def jsonText : Option String → Json := Json.ofOption

/-- What a file's content and place tell about it. The flags are independent of each other. `source`
is there if the content is text, or if an earlier pass left its result here. -/
structure Fingerprint where
  hash : String
  source : Option String
  mediaType : Option String
  isMinified : Bool
  isVendored : Bool
  hasSourceMap : Bool
  isBinary : Bool
  deriving DecidableEq, Repr, Inhabited

namespace Fingerprint

def modelName : String := "FingerprintInfo"

def readFields (fs : List (String × Json)) : Reading Fingerprint :=
  (Reading.apply (.ok Fingerprint.mk) (required "hash" text fs)
    |>.apply (optional "source_code" none (nullable text) fs)
    |>.apply (optional "media_type" none (nullable text) fs)
    |>.apply (optional "is_minified" false bool fs)
    |>.apply (optional "is_vendored" false bool fs)
    |>.apply (optional "has_source_map" false bool fs)
    |>.apply (optional "is_binary" false bool fs))

def read : Json → Reading Fingerprint := record readFields

def toJson (i : Fingerprint) : Json := .obj
  [("hash", .str i.hash), ("source_code", jsonText i.source), ("media_type", jsonText i.mediaType),
   ("is_minified", .bool i.isMinified), ("is_vendored", .bool i.isVendored),
   ("has_source_map", .bool i.hasSourceMap), ("is_binary", .bool i.isBinary)]

/-- The same file with other content under another media type. -/
def withSource (i : Fingerprint) (code mediaType : Option String) : Fingerprint :=
  { i with source := code, mediaType := mediaType }

end Fingerprint

/-- What one run of a transformer gives. -/
structure Output where
  code : String
  mediaType : Option String
  deriving DecidableEq, Repr, Inhabited

namespace Output

def modelName : String := "TransformOutput"

def readFields (fs : List (String × Json)) : Reading Output :=
  Reading.apply (.ok Output.mk) (required "code" text fs)
    |>.apply (optional "media_type" none (nullable text) fs)

def read : Json → Reading Output := record readFields

def toJson (o : Output) : Json := .obj [("code", .str o.code), ("media_type", jsonText o.mediaType)]

end Output

/-- Code and its media type. -/
structure Content where
  code : String
  mediaType : String
  deriving DecidableEq, Repr, Inhabited

/-- The result for one file: its content, unless it was not precompiled, and the files whose change
makes it stale, each once. -/
structure Artifact where
  content : Option Content
  dependencies : List String
  deriving DecidableEq, Repr, Inhabited

namespace Artifact

def modelName : String := "CompileResult"

def isPrecompiled (a : Artifact) : Bool := a.content.isSome

def ofContent (code mediaType : String) (dependencies : List String) : Artifact :=
  ⟨some ⟨code, mediaType⟩, firstOccurrences dependencies⟩

/-- Code and media type are set together or not at all. -/
def ofParts (code mediaType : Option String) (dependencies : List String) : Reading Artifact :=
  match code, mediaType with
  | some c, some m => .ok (ofContent c m dependencies)
  | none, none => .ok ⟨none, firstOccurrences dependencies⟩
  | _, _ => .fail (.rule "code and media_type must be set together")

def readFields (fs : List (String × Json)) : Reading Artifact :=
  match Reading.apply (.ok fun c m d => (c, m, d))
      (optional "code" none (nullable text) fs)
    |>.apply (optional "media_type" none (nullable text) fs)
    |>.apply (optional "dependent_files" [] (list text) fs) with
  | .ok (c, m, d) => ofParts c m d
  | .error e => .error e

def read : Json → Reading Artifact := record readFields

def toJson (a : Artifact) : Json := .obj
  [("code", jsonText (a.content.map (·.code))),
   ("media_type", jsonText (a.content.map (·.mediaType))),
   ("dependent_files", Json.strings a.dependencies)]

end Artifact

/-- One pass of a transformer over one file. `scratch` belongs to the transformer and lives as long
as the pass. -/
structure Pass where
  file : String
  mediaType : Option String
  index : Int
  scratch : List (String × Json)
  deriving Inhabited

namespace Pass

def modelName : String := "PassState"

def readFields (fs : List (String × Json)) : Reading Pass :=
  Reading.apply (.ok Pass.mk) (required "file_path" text fs)
    |>.apply (optional "media_type" none (nullable text) fs)
    |>.apply (optional "pass_index" 0 int fs)
    |>.apply (optional "scratch" [] anyTable fs)

def read : Json → Reading Pass := record readFields

def toJson (p : Pass) : Json := .obj
  [("file_path", .str p.file), ("media_type", jsonText p.mediaType), ("pass_index", .int p.index),
   ("scratch", .obj p.scratch)]

end Pass

/-- A stored result under its key. -/
structure Entry where
  key : String
  space : String
  code : String
  mediaType : String
  dependencies : List String
  createdAt : Instant
  deriving DecidableEq, Repr, Inhabited

namespace Entry

def modelName : String := "CacheEntry"

/-- `now` is the time of creation where none is given. -/
def readFields (now : Instant) (fs : List (String × Json)) : Reading Entry :=
  Reading.apply (.ok Entry.mk) (required "key" text fs)
    |>.apply (required "namespace" text fs)
    |>.apply (required "code" text fs)
    |>.apply (required "media_type" text fs)
    |>.apply (optional "dependent_files" [] (list text) fs)
    |>.apply (optional "created_at" now time fs)

def read (now : Instant) : Json → Reading Entry := record (readFields now)

def toJson (e : Entry) : Json := .obj
  [("key", .str e.key), ("namespace", .str e.space), ("code", .str e.code),
   ("media_type", .str e.mediaType), ("dependent_files", Json.strings e.dependencies),
   ("created_at", .str e.createdAt.text)]

/-- The entry that holds a result; a result without content is stored as empty texts. -/
def ofArtifact (now : Instant) (key space : String) (a : Artifact) : Entry :=
  ⟨key, space, (a.content.map (·.code)).getD "", (a.content.map (·.mediaType)).getD "",
   a.dependencies, now⟩

def toArtifact (e : Entry) : Artifact := Artifact.ofContent e.code e.mediaType e.dependencies

end Entry

/-- Who a transformer is, as it is written into a saved configuration. -/
structure Credentials where
  name : String
  version : String
  inputs : List String
  deriving DecidableEq, Repr, Inhabited

namespace Credentials

def modelName : String := "TransformerRecord"

def readFields (fs : List (String × Json)) : Reading Credentials :=
  Reading.apply (.ok Credentials.mk) (required "name" text fs)
    |>.apply (required "version" text fs)
    |>.apply (optional "input_media_types" [] (list text) fs)

def read : Json → Reading Credentials := record readFields

def toJson (c : Credentials) : Json := .obj
  [("name", .str c.name), ("version", .str c.version),
   ("input_media_types", Json.strings c.inputs)]

end Credentials

/-- A host's registrations as they are saved beside its caches. -/
structure Configuration where
  schemaVersion : Int
  transformers : List (String × Credentials)
  fallback : Option Credentials
  savedAt : Instant
  deriving DecidableEq, Repr, Inhabited

namespace Configuration

def modelName : String := "HostConfiguration"

def currentVersion : Int := 1

def readFields (now : Instant) (fs : List (String × Json)) : Reading Configuration :=
  Reading.apply (.ok Configuration.mk) (optional "schema_version" currentVersion int fs)
    |>.apply (optional "transformers" [] (table Credentials.read) fs)
    |>.apply (optional "fallback" none (nullable Credentials.read) fs)
    |>.apply (optional "saved_at" now time fs)

def read (now : Instant) : Json → Reading Configuration := record (readFields now)

def toJson (c : Configuration) : Json := .obj
  [("schema_version", .int c.schemaVersion),
   ("transformers", .obj (c.transformers.map fun e => (e.1, e.2.toJson))),
   ("fallback", match c.fallback with | some f => f.toJson | none => .null),
   ("saved_at", .str c.savedAt.text)]

end Configuration

/-- What is remembered about a file: its size and time when it was looked at, and what was found. -/
structure Memory where
  size : Int
  mtime : Int
  fingerprint : Fingerprint
  deriving DecidableEq, Repr, Inhabited

namespace Memory

def modelName : String := "_MemoRecord"

def readFields (fs : List (String × Json)) : Reading Memory :=
  Reading.apply (.ok Memory.mk) (required "size" int fs)
    |>.apply (required "mtime_ns" int fs)
    |>.apply (required "info" Fingerprint.read fs)

def read : Json → Reading Memory := record readFields

def toJson (m : Memory) : Json := .obj
  [("size", .int m.size), ("mtime_ns", .int m.mtime), ("info", m.fingerprint.toJson)]

end Memory

end AssetCompiler
