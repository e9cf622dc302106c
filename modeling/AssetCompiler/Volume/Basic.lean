import AssetCompiler.Failure
import AssetCompiler.Path
import AssetCompiler.Text.Newline

/-!
A volume of files. It maps locations, lists of component names below the root, to directories,
files, links and tables of entries. Looking a path up follows links as the file system does:
component by component, a double dot leading to the parent of where the walk stands.
-/
namespace AssetCompiler

abbrev Location := List String

/-- A row of a table of entries; `data` is the written entry. -/
structure Row where
  space : String
  key : String
  data : String
  deriving DecidableEq, Repr, Inhabited

inductive Node
  | directory
  | file (bytes : List UInt8) (mtime : Int)
  | link (target : String)
  | table (rows : List Row) (mtime : Int)
  deriving DecidableEq, Repr, Inhabited

def Node.isFile : Node → Bool
  | .file _ _ | .table _ _ => true
  | _ => false

/-- `here` is the directory from which relative paths start; `clock` counts the writes. -/
structure Volume where
  nodes : Keyed Location Node
  here : Location
  clock : Nat
  deriving Repr, Inhabited

namespace Volume

/-- The node at a location, without following links. The root is always a directory. -/
def nodeAt? (v : Volume) (l : Location) : Option Node :=
  if l.isEmpty then some .directory else Keyed.find? l v.nodes

def start (v : Volume) (p : Path) : Location := if p.isAbsolute then [] else v.here

def nameLimit : Nat := 255

def linkLimit : Nat := 40

/-- Walks from a location along component names. The answer is a location whose last component need
not exist; links are followed, the last one only if `follow` is set. `atLink` goes on from a link
along its target. -/
def walkWith (v : Volume) (follow : Bool)
    (atLink : Location → List String → Except FileIssue Location) :
    Location → (names : List String) → Except FileIssue Location
  | stand, [] => .ok stand
  | stand, ".." :: rest => v.walkWith follow atLink stand.dropLast rest
  | stand, name :: rest =>
    if nameLimit < name.utf8ByteSize then .error .nameTooLong
    else match v.nodeAt? (stand ++ [name]) with
      | none => if rest.isEmpty then .ok (stand ++ [name]) else .error .notFound
      | some (.link target) =>
        if rest.isEmpty && !follow then .ok (stand ++ [name])
        else
          let t := Path.ofText target
          atLink (if t.isAbsolute then [] else stand) (t.parts ++ rest)
      | some .directory => v.walkWith follow atLink (stand ++ [name]) rest
      | some _ => if rest.isEmpty then .ok (stand ++ [name]) else .error .notDirectory

/-- Walks along component names, through so many links at most. -/
def walk (v : Volume) (follow : Bool) :
    (links : Nat) → Location → (names : List String) → Except FileIssue Location
  | 0 => v.walkWith follow fun _ _ => .error .tooManyLinks
  | links + 1 => v.walkWith follow (v.walk follow links)

/-- The location that a path leads to, existing or not. -/
def locate (v : Volume) (follow : Bool) (p : Path) : Except FileIssue Location :=
  v.walk follow linkLimit (v.start p) p.parts

/-- The node that a path leads to. -/
def stat (v : Volume) (p : Path) : Except FileIssue (Location × Node) :=
  match v.locate true p with
  | .error e => .error e
  | .ok l =>
    match v.nodeAt? l with
    | some n => .ok (l, n)
    | none => .error .notFound

def hasZero (p : Path) : Bool := p.text.toList.contains (Char.ofNat 0)

/-- The node that a path leads to, if it leads anywhere. Only a name that is too long is an
error. -/
def probe (v : Volume) (p : Path) : Except Failure (Option Node) :=
  if hasZero p then .ok none
  else match v.stat p with
    | .ok (_, n) => .ok (some n)
    | .error .nameTooLong => .error (.file .nameTooLong p.text)
    | .error _ => .ok none

def isDirectory (v : Volume) (p : Path) : Except Failure Bool :=
  (v.probe p).map fun n => n == some .directory

def isFile (v : Volume) (p : Path) : Except Failure Bool :=
  (v.probe p).map fun n => n.any Node.isFile

def isThere (v : Volume) (p : Path) : Except Failure Bool := (v.probe p).map Option.isSome

/-- An answer about a path as an action's answer; paths with a zero in them name nothing. -/
def about {α : Type} (p : Path) (r : Except FileIssue α) : Except Failure α :=
  if hasZero p then .error (.badValue .zeroInPath)
  else match r with
    | .ok a => .ok a
    | .error e => .error (.file e p.text)

/-- How the file of a table begins. -/
def tableBytes : List UInt8 := Text.Utf8.ofString "SQLite format 3" ++ [0]

def read (v : Volume) (p : Path) : Except Failure (List UInt8) :=
  about p <| match v.stat p with
    | .ok (_, .file bytes _) => .ok bytes
    | .ok (_, .table _ _) => .ok tableBytes
    | .ok (_, .directory) => .error .isDirectory
    | .ok (_, .link _) => .error .tooManyLinks
    | .error e => .error e

/-- The text of a file, each line end written as a line feed. -/
def readText (v : Volume) (p : Path) : Except Failure (List Char) := do
  match Text.Utf8.decode (← v.read p) with
  | .ok s => return Text.unifyLineEnds s
  | .error fault => throw (.malformedText fault)

/-- The text of a file, with U+FFFD in place of what is no text. -/
def readTextLossy (v : Volume) (p : Path) : Except Failure (List Char) := do
  return Text.unifyLineEnds (Text.Utf8.decodeLossy (← v.read p))

def put (v : Volume) (l : Location) (n : Node) : Volume := { v with nodes := v.nodes.set l n }

def drop (v : Volume) (l : Location) : Volume := { v with nodes := v.nodes.erase l }

def tick (v : Volume) : Volume := { v with clock := v.clock + 1 }

/-- The time that a write gets now. -/
def writeTime (v : Volume) : Int := 1000000000000000000 + v.clock

/-- Where a file for a path may be made or replaced: its parent is a directory, and no directory
stands in its place. -/
def target (v : Volume) (p : Path) : Except FileIssue Location :=
  match v.locate true p with
  | .error e => .error e
  | .ok l =>
    match v.nodeAt? l.dropLast, v.nodeAt? l with
    | some .directory, some .directory => .error .isDirectory
    | some .directory, _ => .ok l
    | some _, _ => .error .notDirectory
    | none, _ => .error .notFound

/-- Makes or replaces a file. -/
def write (v : Volume) (p : Path) (bytes : List UInt8) : Except Failure Volume :=
  (about p (v.target p)).map fun l => (v.put l (.file bytes v.writeTime)).tick

/-- Makes one directory whose parent is there. -/
def makeDirectory (v : Volume) (p : Path) : Except FileIssue Volume :=
  match v.locate false p with
  | .error e => .error e
  | .ok l =>
    match v.nodeAt? l with
    | some _ => .error .occupied
    | none =>
      match v.nodeAt? l.dropLast with
      | some .directory => .ok (v.put l .directory)
      | some _ => .error .notDirectory
      | none => .error .notFound

/-- Accepts a failure to make a directory if one is there. -/
def orThere (v : Volume) (p : Path) (e : FileIssue) : Except Failure Volume :=
  match v.isDirectory p with
  | .ok true => .ok v
  | _ => .error (.file e p.text)

/-- Makes a directory with its parents; one that is there already will do. The list holds the path
and its parents, the path first. -/
def makeChain (v : Volume) : List Path → Except Failure Volume
  | [] => .ok v
  | p :: parents =>
    match v.makeDirectory p with
    | .ok v => .ok v
    | .error .notFound =>
      if parents.isEmpty then .error (.file .notFound p.text)
      else match v.makeChain parents with
        | .error e => .error e
        | .ok v =>
          match v.makeDirectory p with
          | .ok v => .ok v
          | .error e => v.orThere p e
    | .error e => v.orThere p e

/-- A path and its parents up to the first that is its own parent; `n` bounds their number. -/
def chain : Nat → Path → List Path
  | 0, p => [p]
  | n + 1, p => p :: chain n p.parent

def makeDirectories (v : Volume) (p : Path) : Except Failure Volume :=
  if hasZero p then .error (.badValue .zeroInPath) else v.makeChain (chain p.parts.length p)

/-- Makes a link where nothing is yet, in a directory. A failure names the goal as well. -/
def makeLink (v : Volume) (p : Path) (goal : String) : Except Failure Volume :=
  if hasZero p then .error (.badValue .zeroInPath)
  else
    let made : Except FileIssue Volume := do
      let l ← v.locate false p
      match v.nodeAt? l, v.nodeAt? l.dropLast with
      | some _, _ => .error .occupied
      | none, some .directory => .ok (v.put l (.link goal))
      | none, some _ => .error .notDirectory
      | none, none => .error .notFound
    made.mapError fun e => .move e goal p.text

/-- Gives a file another time. -/
def setTime (v : Volume) (p : Path) (mtime : Int) : Except Failure Volume :=
  (about p (v.stat p)).map fun (l, n) =>
    match n with
    | .file bytes _ => v.put l (.file bytes mtime)
    | .table rows _ => v.put l (.table rows mtime)
    | _ => v

/-- Removes a file or link. -/
def unlink (v : Volume) (p : Path) : Except Failure Volume :=
  about p <| match v.locate false p with
    | .error e => .error e
    | .ok l =>
      match v.nodeAt? l with
      | some .directory => .error .isDirectory
      | some _ => .ok (v.drop l)
      | none => .error .notFound

/-- Moves a file to another place, over a file that may be there. -/
def rename (v : Volume) (source goal : Path) : Except Failure Volume :=
  match v.locate false source, v.locate false goal with
  | .ok s, .ok g =>
    match v.nodeAt? s, v.nodeAt? g, v.nodeAt? g.dropLast with
    | none, _, _ => .error (.move .notFound source.text goal.text)
    | some _, some .directory, _ => .error (.move .isDirectory source.text goal.text)
    | some n, _, some .directory => .ok ((v.drop s).put g n)
    | some _, _, some _ => .error (.move .notDirectory source.text goal.text)
    | some _, _, none => .error (.move .notFound source.text goal.text)
  | .error e, _ | _, .error e => .error (.move e source.text goal.text)

end Volume
end AssetCompiler
