import AssetCompiler.Log.Record
import AssetCompiler.Text.Size
import AssetCompiler.Volume.Filing

/-!
Where log records go. Records below a level are dropped; the others are written to a console and, if
wanted, to a file that is set aside when it would grow too large.
-/
namespace AssetCompiler.Log

/-- A log file: when it would reach `maxBytes` it becomes the first of at most `retention` older
ones. -/
structure Sink where
  file : Path
  maxBytes : Nat
  retention : Int
  deriving DecidableEq, Repr, Inhabited

structure Setup where
  level : Int
  asJson : Bool
  sink : Option Sink
  deriving DecidableEq, Repr, Inhabited

/-- What a level name stands for among the names that are known: a level, a text or a table. -/
inductive LevelValue
  | level (n : Int)
  | text (s : String)
  | table

def levelValues : List (String × LevelValue) :=
  [("CRITICAL", .level 50), ("FATAL", .level 50), ("ERROR", .level 40), ("WARNING", .level 30),
   ("WARN", .level 30), ("INFO", .level 20), ("DEBUG", .level 10), ("NOTSET", .level 0),
   ("BASIC_FORMAT", .text "%(levelname)s:%(name)s:%(message)s"), ("_STYLES", .table)]

/-- The level of a name in any case. Unknown names mean the level of information. -/
def levelOf (name : String) : Except Failure Int :=
  match levelValues.lookup (Text.uppercased name) with
  | none => .ok 20
  | some (.level n) => .ok n
  | some (.text s) => .error (.badValue (.unknownLevel s))
  | some .table => .error (.badFormat "Level not an integer or a valid string")

/-- The absolute path of a file, with double dots taken back one component each. -/
def absolute (here : Location) (p : Path) : Path :=
  let parts := if p.isAbsolute then p.parts else here ++ p.parts
  ⟨"/", parts.foldl (fun acc s => if s = ".." then acc.dropLast else acc ++ [s]) []⟩

def exists? (p : Path) : Filing Bool := Filing.look fun v => v.isThere p

namespace Sink

/-- Adds text at the end of the file, which is made if need be. -/
def append (s : Sink) (text : List UInt8) : Filing Unit := do
  let old ←
    if ← exists? s.file then Filing.look fun v => v.read s.file
    else pure []
  Filing.write s.file (old ++ text)

def older (s : Sink) (n : Nat) : Path :=
  ⟨s.file.root, s.file.parts.dropLast ++ [s.file.name ++ "." ++ Text.decimal n]⟩

/-- Moves a file over another one, if it is there. -/
def move (source goal : Path) : Filing Unit := do
  if ← exists? source then
    if ← exists? goal then Filing.change fun v => v.unlink goal
    Filing.change fun v => v.rename source goal

/-- Moves older files up by one, from the one with number `n` down to the first. -/
def shift (s : Sink) : Nat → Filing Unit
  | 0 => pure ()
  | n + 1 => do
    move (s.older (n + 1)) (s.older (n + 2))
    shift s n

/-- Sets the file aside and begins a new one. -/
def rollOver (s : Sink) : Filing Unit := do
  if 0 < s.retention then
    shift s (s.retention.toNat - 1)
    move s.file (s.older 1)
  s.append []

/-- Whether one more line would make the file too large. -/
def isFull (s : Sink) (line : String) : Filing Bool := do
  let size := (← Filing.look fun v => v.read s.file).length
  return 0 < s.maxBytes && s.maxBytes ≤ size + line.length + 1

def write (s : Sink) (line : String) : Filing Unit := do
  if ← s.isFull line then s.rollOver
  s.append (Text.Utf8.ofString (line ++ "\n"))

end Sink

namespace Setup

/-- Opens the log. An empty file name means none. -/
def create (home : Option String) (level format : String) (file : Option Path)
    (rotation : String) (retention : Int) : Filing Setup := do
  let n ← Filing.lift (levelOf level)
  let sink ←
    match file with
    | none => pure none
    | some p => do
      match p.expandHome? home with
      | none => throw .noHome
      | some p =>
        Filing.makeDirectories p.parent
        let bytes ← Filing.lift (Text.parseSize rotation)
        let s : Sink := ⟨absolute (← get).here p, bytes, retention⟩
        s.append []
        pure (some s)
  return ⟨n, format = "json", sink⟩

/-- The level from which on records are written; without one of its own the log takes that of
warnings. -/
def threshold (s : Setup) : Int := if s.level = 0 then 30 else s.level

/-- Writes a record to the file, and gives the line for the console. What the file does not take is
left out of it. -/
def emit (s : Setup) (time : Instant) (r : Record) : Filing (Option String) := do
  if r.level < s.threshold then return none
  let line := r.line s.asJson time
  match s.sink with
  | some sink => tryCatch (sink.write line) fun _ => pure ()
  | none => pure ()
  return some line

def emitAll (s : Setup) (time : Instant) : List Record → Filing (List String)
  | [] => return []
  | r :: rest => do
    let line ← s.emit time r
    return line.toList ++ (← emitAll s time rest)

end Setup
end AssetCompiler.Log
