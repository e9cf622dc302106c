import AssetCompiler.CommandLine.Run
import AssetCompiler.Workshop
import Std.Time.DateTime.Timestamp

/-!
The program. It copies into a volume what the run can touch on the disk, performs the run there, and
then makes the same changes on the disk. A table of entries is a file of its own format: the mark of
tables and the rows behind it.
-/
namespace AssetCompiler.Main

/-- The text that leads to a location. -/
def textOf (l : Location) : String := "/" ++ "/".intercalate l

def writtenRow (r : Row) : Json := Json.strings [r.space, r.key, r.data]

def readRow? : Json → Option Row
  | .arr [.str space, .str key, .str data] => some ⟨space, key, data⟩
  | _ => none

/-- The rows in the bytes of a file, if it is a table. -/
def rowsIn? (bytes : List UInt8) : Option (List Row) := do
  if Volume.tableBytes.isPrefixOf bytes then
    let text ← Text.Utf8.decode? (bytes.drop Volume.tableBytes.length)
    match ← Json.read? text with
    | .arr rows => rows.mapM readRow?
    | _ => none
  else none

def bytesOf (rows : List Row) : List UInt8 :=
  Volume.tableBytes ++ Text.Utf8.ofString (Json.write .line (.arr (rows.map writtenRow)))

def fileOf (bytes : List UInt8) (mtime : Int) : Node :=
  match rowsIn? bytes with
  | some rows => .table rows mtime
  | none => .file bytes mtime

/-! From the disk -/

/-- Where a location really is, nothing if nothing is there. -/
def realLocation? (l : Location) : IO (Option Location) := do
  try return some (Path.ofText (← IO.FS.realPath (textOf l)).toString).parts
  catch _ => return none

/-- What is at a location that is no link. -/
def nodeAt (l : Location) : IO Node := do
  let place ← IO.FS.realPath (textOf l)
  if ← place.isDir then return .directory
  let time := (← place.metadata).modified
  let bytes ← IO.FS.readBinFile place
  return fileOf bytes.toList (time.sec * 1000000000 + time.nsec.toNat)

/-- Copies what some names lead to from a location on, with the directories and links on the way;
gives the location where they lead. -/
partial def copyFrom (v : Volume) (stand : Location) : List String → IO (Volume × Location)
  | [] => return (v, stand)
  | ".." :: rest => copyFrom v stand.dropLast rest
  | name :: rest => do
    let l := stand ++ [name]
    match ← realLocation? l with
    | none => return (v, l ++ rest)
    | some real =>
      if real = l then copyFrom (v.put l (← nodeAt l)) l rest
      else copyFrom (v.put l (.link (textOf real))) [] (real ++ rest)

/-- Copies what a path leads to. -/
def copyPath (v : Volume) (p : Path) : IO (Volume × Location) := copyFrom v (v.start p) p.parts

/-- Copies all that is below a location. Links are not entered. -/
partial def copyBelow (v : Volume) (l : Location) : IO Volume := do
  if v.nodeAt? l != some .directory then return v
  let place ← IO.FS.realPath (textOf l)
  let mut v := v
  for entry in ← place.readDir do
    let (w, inner) ← copyFrom v l [entry.fileName]
    v ← if inner = l ++ [entry.fileName] then copyBelow w inner else pure w
  return v

def copyTree (v : Volume) (p : Path) : IO Volume := do
  let (v, l) ← copyPath v p
  copyBelow v l

/-- Copies a log file and the older ones beside it. -/
def copyLog (v : Volume) (p : Path) (retention : Int) : IO Volume := do
  let (v, _) ← copyPath v p
  (List.range (retention.toNat + 1)).foldlM (fun v n => do
    let (v, _) ← copyPath v ⟨p.root, p.parts.dropLast ++ [p.name ++ "." ++ Text.decimal n]⟩
    return v) v

/-- A variable of the environment, between others in a text where each ends with a zero. -/
def variableOf? (entry : List Char) : Option (String × String) :=
  let name := entry.takeWhile (· ≠ '=')
  match entry.drop name.length with
  | _ :: value => some (String.ofList name, String.ofList value)
  | [] => none

/-- The environment; only the home directory where it cannot be listed. -/
def environment : IO (List (String × String)) := do
  try
    let bytes ← IO.FS.readBinFile "/proc/self/environ"
    let entries := (bytes.toList.splitOn 0).map Text.Utf8.decodeLossy
    return entries.filterMap variableOf?
  catch _ =>
    return ((← IO.getEnv "HOME").map fun home => ("HOME", home)).toList

/-- Copies what a run can touch once its settings are known. -/
def copyRun (v : Volume) (given : List (String × String)) (i : CommandLine.Invocation) :
    IO Volume := do
  let home := given.lookup "HOME"
  let copyTo (v : Volume) (p : Path) : IO Volume := return (← copyPath v p).1
  let v ← match i.task with
    | .compile file _ _ _ => copyTo v file
    | .compileAll directory _ _ => copyTree v directory
    | .nothing | .info => pure v
  match Settings.load v given [] with
  | .error _ => return v
  | .ok s =>
    let v ← match s.logFile.bind (Path.expandHome? home) with
      | some p => copyLog v p s.logRetention
      | none => pure v
    match (i.cacheDir.getD s.cacheRoot).expandHome? home with
    | some root => copyTree v root
    | none => return v

/-- The present, in universal time. -/
def present : IO Instant := do
  let time ← Std.Time.Timestamp.now
  return Instant.ofMicroseconds (time.toNanosecondsSinceUnixEpoch.val / 1000)

/-- The state in which a run starts. -/
def before (i? : Option CommandLine.Invocation) : IO (World Workshop) := do
  let given ← environment
  let here := (Path.ofText (← IO.currentDir).toString).parts
  let (v, _) ← copyFrom ⟨[], here, 0⟩ [] here
  let (v, _) ← copyPath v Settings.filePath
  let v ← match i? with
    | some i => copyRun v given i
    | none => pure v
  return ⟨v, given, [], [], ← present, .empty⟩

/-! To the disk -/

/-- Makes a node on the disk. -/
def store (l : Location) : Node → IO Unit
  | .directory => IO.FS.createDirAll (textOf l)
  | .file bytes _ => IO.FS.writeBinFile (textOf l) ⟨bytes.toArray⟩
  | .table rows _ => IO.FS.writeBinFile (textOf l) ⟨(bytesOf rows).toArray⟩
  | .link _ => pure ()

/-- Removes a node from the disk. -/
def remove (l : Location) : Node → IO Unit
  | .directory => IO.FS.removeDir (textOf l)
  | _ => IO.FS.removeFile (textOf l)

/-- Makes the changes between two volumes on the disk. What is removed goes from the inside, what is
new comes from the outside. -/
def apply (old new : Volume) : IO Unit := do
  let shorter (a b : Location × Node) : Bool := a.1.length ≤ b.1.length
  let gone := old.nodes.filter fun e => (new.nodeAt? e.1).isNone
  let changed := new.nodes.filter fun e => old.nodeAt? e.1 != some e.2
  for e in (gone.mergeSort shorter).reverse do remove e.1 e.2
  for e in changed.mergeSort shorter do store e.1 e.2

/-- The crew of a run: the transformers that come with the compiler answer for themselves. -/
def surroundings : CommandLine.Surroundings Workshop :=
  ⟨Catalogue.standard, Workshop.crew [], Failure.text Failure.summary⟩

/-- Runs the program in the present directory, and gives its exit code. -/
def run (words : List String) : IO UInt32 := do
  let start ← before (CommandLine.parse words).toOption
  let (result, last) := (CommandLine.run surroundings words).run start
  apply start.volume last.volume
  match result with
  | .error e =>
    IO.eprintln (surroundings.origin e)
    return 1
  | .ok ending =>
    IO.print ending.output
    for line in ending.errors do IO.eprintln line
    return ending.code.toUInt32

end AssetCompiler.Main

def main (args : List String) : IO UInt32 := AssetCompiler.Main.run args
