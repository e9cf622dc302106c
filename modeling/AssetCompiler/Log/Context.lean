import AssetCompiler.Json.Basic

/-!
The context of a log record: the file, transformer and pass that work is going on for. Blocks bind
all three and give the former values back when they are left, however they are left.
-/
namespace AssetCompiler.Log

structure Context where
  file : Option String
  transformer : Option String
  pass : Option Int
  deriving DecidableEq, Repr, Inhabited

namespace Context

def none : Context := ⟨.none, .none, .none⟩

/-- The fields that are set. -/
def fields (c : Context) : List (String × Json) :=
  (c.file.map fun s => ("file_path", Json.str s)).toList ++
  (c.transformer.map fun s => ("transformer", Json.str s)).toList ++
  (c.pass.map fun n => ("pass_index", Json.int n)).toList

end Context

/-- A variable of the context, set on its own. -/
structure Variable (α : Type) where
  value : Context → Option α
  put : Option α → Context → Context

/-- What a variable is given back by: the value that it had before it was set. -/
structure Token (α : Type) where
  former : Option α
  deriving DecidableEq, Repr, Inhabited

namespace Variable

variable {α : Type}

def file : Variable String := ⟨Context.file, fun v c => { c with file := v }⟩

def transformer : Variable String := ⟨Context.transformer, fun v c => { c with transformer := v }⟩

def pass : Variable Int := ⟨Context.pass, fun v c => { c with pass := v }⟩

/-- Sets a variable and hands out the token to undo it. -/
def set (x : Variable α) (v : Option α) : StateM Context (Token α) := fun c =>
  (⟨x.value c⟩, x.put v c)

/-- Gives a variable the value back that it had when it was set, whatever has become of it since. -/
def reset (x : Variable α) (t : Token α) : StateM Context Unit := fun c => ((), x.put t.former c)

end Variable

/-- The tokens of a block. -/
structure Tokens where
  file : Token String
  transformer : Token String
  pass : Token Int
  deriving DecidableEq, Repr, Inhabited

namespace Context

/-- Sets all variables. -/
def bind (given : Context) : StateM Context Tokens := do
  let file ← Variable.file.set given.file
  let transformer ← Variable.transformer.set given.transformer
  let pass ← Variable.pass.set given.pass
  return ⟨file, transformer, pass⟩

/-- Gives all variables their former values back, the last one that was set first. -/
def restore (t : Tokens) : StateM Context Unit := do
  Variable.pass.reset t.pass
  Variable.transformer.reset t.transformer
  Variable.file.reset t.file

/-- Leaves no variable with a value. -/
def clear : StateM Context Unit := do
  let _ ← Variable.file.set .none
  let _ ← Variable.transformer.set .none
  let _ ← Variable.pass.set .none

theorem run_bind (given c : Context) :
    (bind given).run c = (⟨⟨c.file⟩, ⟨c.transformer⟩, ⟨c.pass⟩⟩, given) := rfl

/-- The tokens of a block undo it, whatever the context has become since. -/
theorem run_restore (given c now : Context) :
    (restore ((bind given).run c).1).run now = ((), c) := rfl

end Context

/-- The current context and the tokens of the blocks around it, the innermost first. -/
structure Scopes where
  current : Context
  tokens : List Tokens
  deriving DecidableEq, Repr, Inhabited

inductive ScopeStep
  | enter (c : Context)
  | leave
  | clear
  deriving DecidableEq, Repr

namespace Scopes

def initial : Scopes := ⟨Context.none, []⟩

def step (s : Scopes) : ScopeStep → Scopes
  | .enter given =>
    let (t, c) := (Context.bind given).run s.current
    ⟨c, t :: s.tokens⟩
  | .leave =>
    match s.tokens with
    | t :: rest => ⟨((Context.restore t).run s.current).2, rest⟩
    | [] => s
  | .clear => { s with current := (Context.clear.run s.current).2 }

/-- The context after each step. -/
def trail : Scopes → List ScopeStep → List Context
  | _, [] => []
  | s, a :: rest => (s.step a).current :: trail (s.step a) rest

end Scopes
end AssetCompiler.Log
