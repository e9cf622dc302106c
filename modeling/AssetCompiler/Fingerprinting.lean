import AssetCompiler.Json.Reader
import AssetCompiler.World

/-!
Fingerprinting files. A fingerprinter looks a file's fingerprint up in its memory, and computes it
again only if the file's size or time has changed. The memory can be saved and loaded.
-/
namespace AssetCompiler

namespace Fingerprinter

def fresh (options : ClassifyOptions) : Fingerprinter := ⟨options, []⟩

/-- The remembered fingerprint of a path, if size and time are as they were. -/
def known? (f : Fingerprinter) (path : String) (size mtime : Int) : Option Fingerprint :=
  match Keyed.find? path f.memory with
  | some m => if m.size = size ∧ m.mtime = mtime then some m.fingerprint else none
  | none => none

def remember (f : Fingerprinter) (path : String) (m : Memory) : Fingerprinter :=
  { f with memory := f.memory.set path m }

/-- The memory as it is saved. -/
def toJson (f : Fingerprinter) : Json := .obj (f.memory.map fun e => (e.1, e.2.toJson))

/-- Takes up the readable ones of some saved records, and counts them. -/
def takeUp (f : Fingerprinter) : List (String × Json) → Fingerprinter × Nat
  | [] => (f, 0)
  | (path, v) :: rest =>
    match Memory.read v with
    | .ok m =>
      let (f, n) := (f.remember path m).takeUp rest
      (f, n + 1)
    | .error _ => f.takeUp rest

end Fingerprinter

namespace Work

variable {σ : Type}

def desk (n : Nat) : Work σ Fingerprinter := do
  return (Keyed.find? n (← get).desks).getD (.fresh .standard)

def setDesk (n : Nat) (f : Fingerprinter) : Work σ Unit :=
  modify fun w => { w with desks := w.desks.set n f }

/-- Size, time and content of a node; a directory has no content. -/
def contentOf : Node → Option (List UInt8 × Int)
  | .file bytes mtime => some (bytes, mtime)
  | .table _ mtime => some (Volume.tableBytes, mtime)
  | _ => none

/-- The fingerprint of the file that a path leads to. -/
def fingerprint (n : Nat) (p : Path) : Work σ Fingerprint := do
  let real ← look fun v => v.realPath p
  let (_, node) ← look fun v => Volume.about real (v.stat real)
  match contentOf node with
  | none => throw (.file .isDirectory real.text)
  | some (bytes, mtime) =>
    let f ← desk n
    match f.known? real.text bytes.length mtime with
    | some i => return i
    | none =>
      let i := Fingerprint.classify bytes real f.options
      setDesk n (f.remember real.text ⟨bytes.length, mtime, i⟩)
      return i

/-- Saves what a fingerprinter remembers. -/
def saveMemory (n : Nat) (file : Path) : Work σ Unit := do
  let p ← expandHome file
  filing (Filing.makeDirectories p.parent)
  writeText p (Json.write .line (← desk n).toJson)

/-- Loads saved records and counts them. A file that cannot be read, and one that is no JSON, counts
as empty. -/
def loadMemory (n : Nat) (file : Path) : Work σ Nat := do
  let p ← expandHome file
  if ← look fun v => v.isThere p then
    match (← volume).readText p with
    | .error (.file issue path) =>
      report (.memoryUnreadable p.text (.file issue path))
      return 0
    | .error e => throw e
    | .ok text =>
      match Json.read? text with
      | none =>
        report (.memoryUnreadable p.text .malformedJson)
        return 0
      | some (.obj fields) =>
        let (f, count) := (← desk n).takeUp fields
        setDesk n f
        return count
      | some v => throw (.notTable v.kindWord)
  else return 0

end Work
end AssetCompiler
