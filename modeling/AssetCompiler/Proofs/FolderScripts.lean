import AssetCompiler.Proofs.SeparateStores

/-!
What an operation on a folder calls. Each operation is a script of calls of the file system, in which a call may
depend on the answers to those before it, and running the script is performing the operation.
-/
namespace AssetCompiler

/-! Calls -/

/-- A call of the file system. A name is taken if there is something by it, a link that leads nowhere included. For
the name of a new file there is a number to begin with, and a bound for the names that are tried. -/
inductive FileCall
  | makeDirectories (p : Path)
  | isDirectory (p : Path)
  | names (p : Path)
  | isThere (p : Path)
  | isTaken (p : Path)
  | read (p : Path)
  | write (p : Path) (bytes : List UInt8)
  | rename (source goal : Path)
  | unlink (p : Path)
  | newNames

namespace FileCall

@[reducible] def Reply : FileCall → Type
  | isDirectory _ | isThere _ | isTaken _ => Bool
  | names _ => List String
  | read _ => List Char
  | newNames => Nat × Nat
  | makeDirectories _ | write _ _ | rename _ _ | unlink _ => Unit

def action : (c : FileCall) → Filing c.Reply
  | makeDirectories p => Filing.makeDirectories p
  | isDirectory p => Filing.look fun v => v.isDirectory p
  | names p => Filing.look fun v =>
    match v.stat p with
    | .ok (l, .directory) => .ok (v.namesIn l)
    | _ => .ok []
  | isThere p => Filing.look fun v => v.isThere p
  | isTaken p => Filing.look fun v =>
    match v.locate false p with
    | .ok l => .ok (v.nodeAt? l).isSome
    | .error _ => .ok false
  | read p => Filing.look fun v => v.readText p
  | write p bytes => Filing.write p bytes
  | rename source goal => Filing.change fun v =>
    if Volume.hasZero goal then .error (.badValue .zeroInPath) else v.rename source goal
  | unlink p => Filing.change fun v => v.unlink p
  | newNames => Filing.look fun v => .ok (v.nodes.length + 1, v.clock)

/-- The volume after a call. -/
def after (c : FileCall) (v : Volume) : Volume := (c.action.run v).2

end FileCall

/-- Calls in turn, each chosen by the answers to those before it. -/
inductive Script (α : Type)
  | done (result : Except Failure α)
  | call (c : FileCall) (next : Except Failure c.Reply → Script α)

namespace Script

variable {α β : Type}

def run : Script α → Volume → Except Failure α × Volume
  | done result, v => (result, v)
  | call c next, v => (next (c.action.run v).1).run (c.after v)

/-- The calls of a run, each with the volume that it meets. -/
def calls : Script α → Volume → List (FileCall × Volume)
  | done _, _ => []
  | call c next, v => (c, v) :: (next (c.action.run v).1).calls (c.after v)

def map (f : α → β) : Script α → Script β
  | done result => done (result.map f)
  | call c next => call c fun reply => (next reply).map f

/-- Goes on with the answer to a call; if the call fails, so does the script. -/
def ask (c : FileCall) (next : c.Reply → Script α) : Script α :=
  call c fun
    | .ok reply => next reply
    | .error e => done (.error e)

theorem run_map (f : α → β) (s : Script α) (v : Volume) :
    (s.map f).run v = ((s.run v).1.map f, (s.run v).2) := by
  induction s generalizing v with
  | done result => rfl
  | call c next ih => exact ih _ _

theorem calls_map (f : α → β) (s : Script α) (v : Volume) : (s.map f).calls v = s.calls v := by
  induction s generalizing v with
  | done result => rfl
  | call c next ih => exact congrArg (List.cons (c, v)) (ih _ _)

theorem run_ask (c : FileCall) (next : c.Reply → Script α) (v : Volume) :
    (ask c next).run v = match c.action.run v with
      | (.ok reply, v') => (next reply).run v'
      | (.error e, v') => (.error e, v') := by
  rw [ask, run, FileCall.after]
  rcases c.action.run v with ⟨reply | e, v'⟩ <;> rfl

/-- Every call of a run is of a kind. -/
def Makes (kind : FileCall → Prop) (s : Script α) (v : Volume) : Prop := ∀ x ∈ s.calls v, kind x.1

variable {kind : FileCall → Prop} {v : Volume}

theorem makes_done (result : Except Failure α) : (done result).Makes kind v :=
  fun _ hx => absurd hx List.not_mem_nil

theorem makes_call {c : FileCall} {next : Except Failure c.Reply → Script α} (hc : kind c)
    (hnext : (next (c.action.run v).1).Makes kind (c.after v)) : (call c next).Makes kind v := by
  intro x hx
  rcases List.mem_cons.mp hx with rfl | hx
  · exact hc
  · exact hnext x hx

theorem makes_ask {c : FileCall} {next : c.Reply → Script α} (hc : kind c)
    (hnext : ∀ reply, (c.action.run v).1 = .ok reply → (next reply).Makes kind (c.after v)) :
    (ask c next).Makes kind v := by
  refine makes_call hc ?_
  cases hreply : (c.action.run v).1 with
  | ok reply => exact hnext reply hreply
  | error e => exact makes_done _

theorem makes_map (f : α → β) {s : Script α} (h : s.Makes kind v) : (s.map f).Makes kind v := by
  rw [Makes, calls_map]
  exact h

/-- What every call of a kind keeps, a run keeps. -/
theorem Makes.keeps {holds : Volume → Prop} {s : Script α} (h : s.Makes kind v)
    (hstep : ∀ c v, kind c → holds v → holds (c.after v)) (hv : holds v) :
    holds (s.run v).2 ∧ ∀ x ∈ s.calls v, holds x.2 := by
  induction s generalizing v with
  | done result => exact ⟨hv, fun _ hx => absurd hx List.not_mem_nil⟩
  | call c next ih =>
    have hafter := hstep c v (h _ (List.mem_cons_self ..)) hv
    obtain ⟨hend, hcalls⟩ := ih _ (fun x hx => h x (List.mem_cons_of_mem _ hx)) hafter
    refine ⟨hend, fun x hx => ?_⟩
    rcases List.mem_cons.mp hx with rfl | hx
    · exact hv
    · exact hcalls x hx

end Script

/-! The scripts of a folder -/

namespace Store

open Volume Script

/-- An entry from what reading its file has given. -/
def entryOf (now : Instant) : Except Failure (List Char) → Except Failure Lookup
  | .ok text => readEntry now text
  | .error (.file issue path) => .ok (.unreadable (.file issue path))
  | .error e => .error e

def getScript (now : Instant) (root : Path) (key : String) : Script Lookup :=
  ask (.isThere (entryPath root key)) fun (isThere : Bool) =>
    if isThere then call (.read (entryPath root key)) fun text => done (entryOf now text)
    else done (.ok .absent)

def readScript (now : Instant) : List Path → Script (List Entry)
  | [] => done (.ok [])
  | p :: rest => call (.read p) fun text =>
    match entryOf now text with
    | .ok (.found e) => (readScript now rest).map (e :: ·)
    | .ok _ => readScript now rest
    | .error e => done (.error e)

def listScript (now : Instant) (root : Path) : Script (List Entry) :=
  ask (.isDirectory root) fun (isThere : Bool) =>
    if isThere then ask (.names root) fun (names : List String) =>
      readScript now ((names.filter fun n => suffix.isSuffixOf n.toList).map fun n =>
        ⟨root.root, root.parts ++ [n]⟩)
    else done (.ok [])

def deleteScript (root : Path) (key : String) : Script Unit :=
  ask (.isThere (entryPath root key)) fun (isThere : Bool) =>
    if isThere then call (.unlink (entryPath root key)) done else done (.ok ())

/-- Goes on with the first name that is free. -/
def nameScript {α : Type} (root : Path) (next : String → Script α) : (fuel : Nat) → Nat → Script α
  | 0, n => next (temporaryName n)
  | fuel + 1, n => ask (.isTaken (root.child (temporaryName n))) fun (isTaken : Bool) =>
    if isTaken then nameScript root next fuel (n + 1) else next (temporaryName n)

/-- Fills a new file and moves it to its place; if that fails, removes it. -/
def fillScript (root : Path) (key : String) (bytes : List UInt8) (name : String) : Script Unit :=
  ask (.write (root.child name) []) fun _ =>
    let giveUp (e : Failure) : Script Unit := call (.unlink (root.child name)) fun _ => done (.error e)
    call (.write (root.child name) bytes) fun
      | .error e => giveUp e
      | .ok _ => call (.rename (root.child name) (entryPath root key)) fun
        | .error e => giveUp e
        | .ok _ => done (.ok ())

def putScript (root : Path) (key : String) (e : Entry) : Script Unit :=
  ask (.makeDirectories root) fun _ => ask .newNames fun (names : Nat × Nat) =>
    nameScript root (fillScript root key (Text.Utf8.ofString (Json.write .pages e.toJson))) names.1 names.2

/-- The script of an operation on a folder. -/
def script (now : Instant) (root : Path) : Operation → Script Answer
  | .put key e => (putScript root key e).map fun _ => .done
  | .get key => (getScript now root key).map .looked
  | .delete key => (deleteScript root key).map fun _ => .done
  | .list => (listScript now root).map .listed

section Runs

variable (now : Instant) (root : Path) (v : Volume)

theorem readFile_eq_entryOf (p : Path) : readFile now v p = entryOf now (v.readText p) := by
  unfold readFile entryOf
  rcases v.readText p with e | text
  · cases e <;> rfl
  · rfl

theorem run_getScript (key : String) : (getScript now root key).run v = (getFile now root key).run v := by
  rw [getScript, run_ask, getFile, Filing.run_look]
  simp only [FileCall.action, Filing.run_look]
  rcases v.isThere (entryPath root key) with e | isThere
  · rfl
  · cases isThere with
    | false => rfl
    | true =>
      simp only [if_true, run, FileCall.action, FileCall.after, Filing.run_look, ← readFile_eq_entryOf, bind,
        Except.bind]

theorem run_readScript (ps : List Path) : (readScript now ps).run v = (readAll now v ps, v) := by
  induction ps with
  | nil => rfl
  | cons p rest ih =>
    rw [readScript, run, readAll, readFile_eq_entryOf]
    simp only [FileCall.action, FileCall.after, Filing.run_look]
    rcases entryOf now (v.readText p) with e | found | _ | _
    · rfl
    · simp only [run_map, ih]
      cases readAll now v rest <;> rfl
    · exact ih
    · exact ih

theorem run_listScript (space : String) :
    (listScript now root).run v = ((folder root space).entries now).run v := by
  change _ = (Filing.look fun v => do
    if ← v.isDirectory root then readAll now v (entryFiles v root) else return []).run v
  rw [listScript, run_ask, Filing.run_look]
  simp only [FileCall.action, Filing.run_look]
  rcases v.isDirectory root with e | isThere
  · rfl
  · cases isThere with
    | false => rfl
    | true =>
      simp only [if_true, run_ask, FileCall.action, Filing.run_look]
      rw [entryFiles]
      rcases v.stat root with e | ⟨l, node⟩
      · rfl
      · cases node <;> exact run_readScript now v _

theorem run_deleteScript (key : String) :
    (deleteScript root key).run v = (deleteFile root key).run v := by
  rw [deleteScript, run_ask, deleteFile, Action.run_bind]
  simp only [FileCall.action, Filing.run_look]
  rcases v.isThere (entryPath root key) with e | isThere
  · rfl
  · cases isThere with
    | false => rfl
    | true =>
      simp only [if_true, run, FileCall.action, FileCall.after]
      exact Prod.mk.eta

theorem run_nameScript {α : Type} (next : String → Script α) (fuel n : Nat) :
    (nameScript root next fuel n).run v = (next (freshName v root fuel n)).run v := by
  induction fuel generalizing n with
  | zero => rfl
  | succ fuel ih =>
    rw [nameScript, run_ask, freshName]
    simp only [FileCall.action, Filing.run_look]
    rcases v.locate false (root.child (temporaryName n)) with e | l
    · rfl
    · simp only
      split
      · exact ih (n + 1)
      · rfl

theorem run_fillScript (key : String) (bytes : List UInt8) (name : String) :
    (fillScript root key bytes name).run v = (do
      Filing.write (root.child name) []
      Filing.onFailure
        (do
          Filing.write (root.child name) bytes
          Filing.change fun v =>
            if hasZero (entryPath root key) then .error (.badValue .zeroInPath)
            else v.rename (root.child name) (entryPath root key))
        (Filing.change fun v => v.unlink (root.child name)) : Filing Unit).run v := by
  rw [fillScript, run_ask, Action.run_bind]
  simp only [FileCall.action]
  rcases (Filing.write (root.child name) []).run v with ⟨e | _, v₁⟩
  · rfl
  simp only [run, FileCall.action, FileCall.after]
  rw [Filing.run_onFailure, Action.run_bind]
  rcases (Filing.write (root.child name) bytes).run v₁ with ⟨e | _, v₂⟩
  · rfl
  simp only [run, FileCall.action, FileCall.after]
  generalize (Filing.change fun v => if hasZero (entryPath root key) then .error (.badValue .zeroInPath)
    else v.rename (root.child name) (entryPath root key)).run v₂ = moved
  rcases moved with ⟨e | _, v₃⟩ <;> rfl

theorem run_putScript (key : String) (e : Entry) :
    (putScript root key e).run v = (putFile root key e).run v := by
  rw [putScript, run_ask, putFile, Action.run_bind]
  simp only [FileCall.action]
  rcases (Filing.makeDirectories root).run v with ⟨e | _, v₁⟩
  · rfl
  simp only [run_ask, FileCall.action, Filing.run_look]
  rw [run_nameScript, run_fillScript, Action.run_bind_ok (Action.run_get v₁)]

/-- Running the script of an operation is performing the operation. -/
theorem run_script (space : String) (op : Operation) :
    (script now root op).run v = ((folder root space).perform now op).run v := by
  cases op with
  | put key e => rw [script, run_map, run_putScript, run_perform_put, put_folder]
  | get key => rw [script, run_map, run_getScript, run_perform_get, get_folder]
  | delete key => rw [script, run_map, run_deleteScript, run_perform_delete, delete_folder]
  | list => rw [script, run_map, run_listScript now root v space, run_perform_list]

end Runs

end Store
end AssetCompiler
