import AssetCompiler.CommandLine.Arguments

/-!
What the command line says about itself: usage lines, help pages and the version.
-/
namespace AssetCompiler.CommandLine

def program : String := "assetpipe"

def versionNumber : String := "0.4.0"

/-- The name under which a scope complains. -/
def scopeName : Scope → String
  | none => program
  | some command => program ++ " " ++ command.word

def usage : Scope → List String
  | none =>
    ["usage: assetpipe [-h] [--version] [-v] [--cache-dir CACHE_DIR]",
     "                 \x7bcompile,compile-all,info\x7d ..."]
  | some .compile =>
    ["usage: assetpipe compile [-h] [-t TRANSFORMERS] [--read-only] [--json] file"]
  | some .compileAll =>
    ["usage: assetpipe compile-all [-h] [-t TRANSFORMERS] [--exclude EXCLUDE]",
     "                             directory"]
  | some .info => ["usage: assetpipe info [-h]"]

/-- The sections of a help page behind the usage. -/
def sections : Scope → List (List String)
  | none =>
    [["assetpipe v0.4.0: cache-backed source compiler"],
     ["positional arguments:",
      "  \x7bcompile,compile-all,info\x7d",
      "    compile             Compile a single file and print the result",
      "    compile-all         Precompile every file under a directory",
      "    info                Show version and effective cache settings"],
     ["options:",
      "  -h, --help            show this help message and exit",
      "  --version             show program's version number and exit",
      "  -v, --verbose         Enable debug logging",
      "  --cache-dir CACHE_DIR",
      "                        Cache root (default: CACHE_ROOT setting)"]]
  | some .compile =>
    [["positional arguments:",
      "  file                  Path to source file"],
     ["options:",
      "  -h, --help            show this help message and exit",
      "  -t TRANSFORMERS, --transformer TRANSFORMERS",
      "                        Transformer class path (repeatable)",
      "  --read-only           Only serve precompiled results from the saved",
      "                        configuration",
      "  --json                Print code, media type and dependent files as JSON"]]
  | some .compileAll =>
    [["positional arguments:",
      "  directory             Directory to compile"],
     ["options:",
      "  -h, --help            show this help message and exit",
      "  -t TRANSFORMERS, --transformer TRANSFORMERS",
      "                        Transformer class path (repeatable)",
      "  --exclude EXCLUDE     Skip files whose path contains this text (repeatable)"]]
  | some .info =>
    [["options:",
      "  -h, --help  show this help message and exit"]]

/-- Lines as a text, each with its end. -/
def unlines (lines : List String) : String := String.join (lines.map (· ++ "\n"))

def helpPage (scope : Scope) : String :=
  unlines (usage scope ++ (sections scope).flatMap fun s => "" :: s)

def complaintLines (scope : Scope) (c : Complaint) : List String :=
  usage scope ++ [scopeName scope ++ ": error: " ++ c.text]

end AssetCompiler.CommandLine
