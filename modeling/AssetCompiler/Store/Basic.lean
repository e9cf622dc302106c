import AssetCompiler.Json.Reader
import AssetCompiler.Json.Writer
import AssetCompiler.Classification
import AssetCompiler.Settings.Basic
import AssetCompiler.Volume.Filing

/-!
Stores of results. A store belongs to one space, the results of one transformer, and has an entry
for each key. It keeps its entries as files in a folder or as rows of a table that other spaces
share. An entry that cannot be read counts as absent; what is no entry at all, or no text, is a
failure.
-/
namespace AssetCompiler

inductive Store
  | folder (root : Path) (space : String)
  | table (database : Path) (space : String) (isOpen : Bool)
  deriving DecidableEq, Repr, Inhabited

/-- The answer to a look-up. -/
inductive Lookup
  | found (e : Entry)
  | absent
  | unreadable (cause : Failure)

namespace Store

def space : Store → String
  | folder _ s => s
  | table _ s _ => s

/-- An entry from its text. -/
def readEntry (now : Instant) (text : List Char) : Except Failure Lookup :=
  match Json.read? text with
  | none => .ok (.unreadable .malformedJson)
  | some (.obj fields) =>
    match (Entry.readFields now fields).checked Entry.modelName with
    | .ok e => .ok (.found e)
    | .error e => .ok (.unreadable e)
  | some v => .error (.notFields "assetpipe.cache.models.CacheEntry" v.kindWord)

/-! Folders -/

/-- The file for a key. -/
def entryPath (root : Path) (key : String) : Path := root.child (safeName key ++ ".json")

/-- Opens the folder of a space under a directory, and makes it. -/
def openFolder (directory : Path) (space : String) : Filing Store := do
  let root := directory.child (safeName space)
  Filing.makeDirectories root
  return folder root space

/-- An entry from its file. -/
def readFile (now : Instant) (v : Volume) (p : Path) : Except Failure Lookup :=
  match v.readText p with
  | .ok text => readEntry now text
  | .error (.file issue path) => .ok (.unreadable (.file issue path))
  | .error e => .error e

def getFile (now : Instant) (root : Path) (key : String) : Filing Lookup :=
  Filing.look fun v => do
    if ← v.isThere (entryPath root key) then readFile now v (entryPath root key)
    else return .absent

/-- The name of a file that is being written; the names are all equally short. -/
def temporaryName (n : Nat) : String := "tmp" ++ Text.decimal (n % 100000000) ++ ".tmp"

/-- The first name of a row of names that a directory does not have yet; `fuel` bounds the row. -/
def freshName (v : Volume) (root : Path) : (fuel : Nat) → Nat → String
  | 0, n => temporaryName n
  | fuel + 1, n =>
    match v.locate false (root.child (temporaryName n)) with
    | .ok l => if (v.nodeAt? l).isSome then freshName v root fuel (n + 1) else temporaryName n
    | .error _ => temporaryName n

/-- Writes an entry to a new file and moves that to its place, so that no reader sees a part of it.
If this fails the new file is removed again. -/
def putFile (root : Path) (key : String) (e : Entry) : Filing Unit := do
  Filing.makeDirectories root
  let v ← get
  let temporary := root.child (freshName v root (v.nodes.length + 1) v.clock)
  Filing.write temporary []
  Filing.onFailure
    (do
      Filing.write temporary (Text.Utf8.ofString (Json.write .pages e.toJson))
      Filing.change fun v =>
        if Volume.hasZero (entryPath root key) then .error (.badValue .zeroInPath)
        else v.rename temporary (entryPath root key))
    (Filing.change fun v => v.unlink temporary)

def deleteFile (root : Path) (key : String) : Filing Unit := do
  if ← Filing.look fun v => v.isThere (entryPath root key) then
    Filing.change fun v => v.unlink (entryPath root key)

def suffix : List Char := ".json".toList

/-- The files of entries in a folder, by name. -/
def entryFiles (v : Volume) (root : Path) : List Path :=
  match v.stat root with
  | .ok (l, .directory) =>
    ((v.namesIn l).filter fun n => suffix.isSuffixOf n.toList).map fun n =>
      ⟨root.root, root.parts ++ [n]⟩
  | _ => []

/-- The entries that can be read, in the order of their files. -/
def readAll (now : Instant) (v : Volume) : List Path → Except Failure (List Entry)
  | [] => .ok []
  | p :: rest => do
    match ← readFile now v p with
    | .found e => return e :: (← readAll now v rest)
    | _ => readAll now v rest

/-! Tables -/

def databaseName : String := "assetpipe_cache.db"

/-- Opens the table at a path, and makes it and the directories above it. -/
def openTable (database : Path) (space : String) : Filing Store := do
  Filing.makeDirectories database.parent
  let v ← get
  match v.stat database with
  | .ok (_, .table _ _) => return table database space true
  | .ok (l, .file bytes _) =>
    if bytes.isEmpty then
      set (v.put l (.table [] v.writeTime)).tick
      return table database space true
    else throw (.database .notDatabase)
  | .ok _ => throw (.database .cannotOpen)
  | .error _ =>
    match v.target database with
    | .ok l =>
      set (v.put l (.table [] v.writeTime)).tick
      return table database space true
    | .error _ => throw (.database .cannotOpen)

def rowsOf (v : Volume) (database : Path) : List Row :=
  match v.stat database with
  | .ok (_, .table rows _) => rows
  | _ => []

/-- Changes the rows of a table. -/
def withRows (database : Path) (f : List Row → List Row) : Filing Unit := do
  let v ← get
  match v.stat database with
  | .ok (l, .table rows _) => set (v.put l (.table (f rows) v.writeTime)).tick
  | _ => throw (.database .cannotOpen)

def isRow (space key : String) (r : Row) : Bool := r.space == space && r.key == key

def putRow (r : Row) (rows : List Row) : List Row :=
  rows.filter (fun r' => !isRow r.space r.key r') ++ [r]

def deleteRow (space key : String) (rows : List Row) : List Row :=
  rows.filter fun r => !isRow space key r

/-- The rows of a space by key. -/
def rowsIn (space : String) (rows : List Row) : List Row :=
  (rows.filter (·.space == space)).mergeSort fun a b => a.key ≤ b.key

def readRows (now : Instant) : List Row → Except Failure (List Entry)
  | [] => .ok []
  | r :: rest => do
    match ← readEntry now r.data.toList with
    | .found e => return e :: (← readRows now rest)
    | _ => readRows now rest

def requireOpen (isOpen : Bool) : Filing Unit :=
  if isOpen then pure () else throw (.database .closed)

/-! Both -/

def get (now : Instant) (key : String) : Store → Filing Lookup
  | folder root _ => getFile now root key
  | table database space isOpen => do
    requireOpen isOpen
    Filing.look fun v =>
      match (rowsOf v database).find? (isRow space key) with
      | none => .ok .absent
      | some r => readEntry now r.data.toList

def put (key : String) (e : Entry) : Store → Filing Unit
  | folder root _ => putFile root key e
  | table database space isOpen => do
    requireOpen isOpen
    withRows database (putRow ⟨space, key, Json.write .compact e.toJson⟩)

def delete (key : String) : Store → Filing Unit
  | folder root _ => deleteFile root key
  | table database space isOpen => do
    requireOpen isOpen
    withRows database (deleteRow space key)

/-- All entries that can be read, by key. -/
def entries (now : Instant) : Store → Filing (List Entry)
  | folder root _ => Filing.look fun v => do
    if ← v.isDirectory root then readAll now v (entryFiles v root) else return []
  | table database space isOpen => do
    requireOpen isOpen
    Filing.look fun v => readRows now (rowsIn space (rowsOf v database))

def close : Store → Store
  | folder root space => folder root space
  | table database space _ => table database space false

/-- The default directory of the caches. -/
def defaultRoot : Path := Path.ofText "~/.assetpipe/cache"

def expandHome (home : Option String) (p : Path) : Filing Path :=
  match p.expandHome? home with
  | some q => pure q
  | none => throw .noHome

/-- Opens the store of a space with a backend, under the directory of the caches. -/
def openAs (home : Option String) (backend : Backend) (cacheRoot : Path) (space : String) :
    Filing Store := do
  match backend with
  | .json => openFolder (← expandHome home cacheRoot) space
  | .sqlite => openTable (← expandHome home (cacheRoot.child databaseName)) space
  | .unknown name => throw (.badValue (.unsupportedBackend name))

end Store
end AssetCompiler
