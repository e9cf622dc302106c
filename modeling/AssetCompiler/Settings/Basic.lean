import AssetCompiler.Classification
import AssetCompiler.Settings.VariableFile
import AssetCompiler.Volume.Basic

/-!
Settings. Each comes from the first source that has it: values given in the call, the environment,
the file of variables, the default. Names in the environment and in the file count without their
case.
-/
namespace AssetCompiler

/-- Where results are kept. A name that stands for no backend can only be put there unchecked. -/
inductive Backend
  | json
  | sqlite
  | unknown (name : String)
  deriving DecidableEq, Repr, Inhabited

def Backend.ofName (name : String) : Backend :=
  if name = "json" then .json else if name = "sqlite" then .sqlite else .unknown name

def Backend.name : Backend → String
  | json => "json"
  | sqlite => "sqlite"
  | unknown name => name

structure Settings where
  cacheRoot : Path
  backend : Backend
  readOnly : Bool
  maxPasses : Int
  scanLimit : Int
  transformers : String
  vendoredNames : String
  minifiedLength : Int
  logLevel : String
  logFormat : String
  logFile : Option Path
  logRotation : String
  logRetention : Int
  deriving DecidableEq, Repr, Inhabited

namespace Settings

open Schema

def modelName : String := "Settings"

/-- The names of the settings, in the order of the structure. -/
def names : List String :=
  ["cache_root", "cache_backend", "read_only_mode", "max_compile_passes", "scan_concurrency",
   "transformers", "vendored_dir_names", "minified_line_length", "log_level", "log_format",
   "log_file", "log_rotation", "log_retention"]

/-- A whole number that is at least one. -/
def positive (v : Json) : Reading Int :=
  match int v with
  | .ok n => if n < 1 then .fail (.rule "must be >= 1") else .ok n
  | .error e => .error e

def readFields (fs : List (String × Json)) : Reading Settings :=
  Reading.apply (.ok Settings.mk)
      (optional "cache_root" (Path.ofText "~/.assetpipe/cache") path fs)
    |>.apply ((optional "cache_backend" "json" (word ["json", "sqlite"]) fs).map Backend.ofName)
    |>.apply (optional "read_only_mode" false bool fs)
    |>.apply (optional "max_compile_passes" 10 positive fs)
    |>.apply (optional "scan_concurrency" 8 positive fs)
    |>.apply (optional "transformers" "" text fs)
    |>.apply (optional "vendored_dir_names" "node_modules,bower_components" text fs)
    |>.apply (optional "minified_line_length" 80 int fs)
    |>.apply (optional "log_level" "INFO" (word ["DEBUG", "INFO", "WARNING", "ERROR"]) fs)
    |>.apply (optional "log_format" "json" (word ["json", "text"]) fs)
    |>.apply (optional "log_file" none (nullable path) fs)
    |>.apply (optional "log_rotation" "10MB" text fs)
    |>.apply (optional "log_retention" 30 int fs)

/-- The pieces of a text between commas, trimmed, without empty ones. -/
def commaList (s : String) : List String :=
  let pieces := s.toList.foldr (fun c acc =>
    if c = ',' then [] :: acc
    else match acc with
      | [] => [[c]]
      | p :: rest => (c :: p) :: rest) [[]]
  (pieces.map fun p => String.ofList (Text.trim p)).filter (· != "")

def vendoredList (s : Settings) : List String := commaList s.vendoredNames

def transformerList (s : Settings) : List String := commaList s.transformers

def classifyOptions (s : Settings) : ClassifyOptions := ⟨s.vendoredList, s.minifiedLength⟩

/-- The rules between settings that are broken. -/
def brokenRules (s : Settings) : List String :=
  (if s.minifiedLength < 1 then ["MINIFIED_LINE_LENGTH must be >= 1"] else []) ++
  (if s.vendoredList.isEmpty && !(Text.trimmed s.vendoredNames).isEmpty then
    ["VENDORED_DIR_NAMES has no usable entries"] else [])

/-- The last variable whose name agrees with a name in the form for look-up. -/
def valueOf? {α : Type} (name : String) (bindings : List (String × α)) : Option α :=
  (bindings.reverse.find? fun e => Text.lookupForm e.1 = name).map (·.2)

/-- The settings that the sources give together. -/
def ofSources (given : List (String × Json)) (environment : List (String × String))
    (file : List (String × Option String)) : Except Failure Settings := do
  let fields := names.filterMap fun name =>
    ((given.lookup name) <|> (valueOf? name environment).map Json.str <|>
      ((valueOf? name file).bind id).map Json.str).map fun v => (name, v)
  let s ← (readFields fields).checked modelName
  let broken := s.brokenRules
  if broken.isEmpty then return s else throw (.configuration (.rules broken))

/-- The file of variables in the current directory. -/
def filePath : Path := Path.ofText ".env"

/-- The variables of the file of variables, none if there is no such file. -/
def fileVariables (v : Volume) (environment : List (String × String)) :
    Except Failure (List (String × Option String)) := do
  if ← v.isFile filePath then
    let text ← v.readText filePath
    return VariableFile.bindings environment text
  else return []

/-- Settings from values given in the call, the environment and the file of variables. -/
def load (v : Volume) (environment : List (String × String)) (given : List (String × Json)) :
    Except Failure Settings := do
  let file ← fileVariables v environment
  ofSources given environment file

/-- Changes one setting without any check. -/
def adjust (s : Settings) : String × Json → Settings
  | ("cache_root", .str v) => { s with cacheRoot := Path.ofText v }
  | ("cache_backend", .str v) => { s with backend := Backend.ofName v }
  | ("read_only_mode", v) => { s with readOnly := v.isTruthy }
  | ("max_compile_passes", .int n) => { s with maxPasses := n }
  | ("scan_concurrency", .int n) => { s with scanLimit := n }
  | ("transformers", .str v) => { s with transformers := v }
  | ("vendored_dir_names", .str v) => { s with vendoredNames := v }
  | ("minified_line_length", .int n) => { s with minifiedLength := n }
  | _ => s

/-- The directory of the caches, with the home directory written out. -/
def resolvedRoot (environment : List (String × String)) (s : Settings) : Except Failure Path :=
  match s.cacheRoot.expandHome? (environment.lookup "HOME") with
  | some p => .ok p
  | none => .error .noHome

def toJson (s : Settings) : List (String × Json) :=
  [("cache_root", .str s.cacheRoot.text), ("cache_backend", .str s.backend.name),
   ("read_only_mode", .bool s.readOnly), ("max_compile_passes", .int s.maxPasses),
   ("scan_concurrency", .int s.scanLimit), ("transformers", .str s.transformers),
   ("vendored_dir_names", .str s.vendoredNames), ("minified_line_length", .int s.minifiedLength),
   ("log_level", .str s.logLevel), ("log_format", .str s.logFormat),
   ("log_file", jsonText (s.logFile.map (·.text))), ("log_rotation", .str s.logRotation),
   ("log_retention", .int s.logRetention)]

end Settings
end AssetCompiler
