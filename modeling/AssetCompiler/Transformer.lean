import AssetCompiler.Classification
import AssetCompiler.Log.Context

/-!
Transformers. A transformer is known by its handle; what it answers to a question is not part of it
but of the crew that does the work. Two forms answer for themselves: the passthrough, which declines
every file, and the stand-in, which cannot run.
-/
namespace AssetCompiler

inductive Form
  | passthrough
  | standIn
  | custom (label : String)
  deriving DecidableEq, Repr, Inhabited

def Form.label : Form → String
  | passthrough => "PassthroughTransformer"
  | standIn => "ReadOnlyTransformer"
  | custom label => label

/-- Two transformers with one handle are the same. -/
structure Transformer where
  handle : Nat
  form : Form
  name : String
  version : String
  inputs : List String
  deriving DecidableEq, Repr, Inhabited

namespace Transformer

def passthrough (handle : Nat) : Transformer :=
  ⟨handle, .passthrough, "passthrough", "1", [MediaType.plainText]⟩

/-- A transformer that carries another's name and can only be looked up. -/
def standIn (handle : Nat) (c : Credentials) : Transformer :=
  ⟨handle, .standIn, c.name, c.version, c.inputs⟩

def credentials (t : Transformer) : Credentials := ⟨t.name, t.version, t.inputs⟩

/-- How messages show a transformer. -/
def display (t : Transformer) : String :=
  t.form.label ++ "(name=" ++ Text.quoted t.name ++ ", version=" ++ Text.quoted t.version ++ ")"

/-- The name of the store for a transformer's results. -/
def space (t : Transformer) : String := t.name ++ "-" ++ t.version

end Transformer

inductive Question
  | accepts
  | dependencies
  | transform
  deriving DecidableEq, Repr, Inhabited

/-- A question to a transformer about some code. -/
structure Call where
  transformer : Transformer
  question : Question
  code : String
  file : String
  pass : Pass
  context : Log.Context
  deriving Inhabited

/-- An answer, and the scratch values that the transformer leaves for the rest of the pass. -/
structure Reply where
  outcome : Except Failure Json
  scratch : List (String × Json)
  deriving Inhabited

/-- Those who answer the questions to custom transformers, with a state of their own. `pauses` says
how often other work may go on before an answer. -/
structure Crew (σ : Type) where
  respond : Call → σ → Reply × σ
  pauses : Call → Nat

namespace Call

/-- The media type under which the passthrough returns code. -/
def passthroughType (c : Call) : String :=
  match c.pass.mediaType with
  | some t => if t.isEmpty then detected else t
  | none => detected
where
  detected : String := (MediaType.ofPath (Path.ofText c.file)).getD MediaType.plainText

/-- The answers of the forms that answer for themselves. -/
def ownAnswer? (c : Call) : Option (Except Failure Json) :=
  match c.transformer.form, c.question with
  | .custom _, _ => none
  | .passthrough, .accepts => some (.ok (.bool false))
  | .standIn, .accepts => some (.ok (.bool true))
  | _, .dependencies => some (.ok (.arr []))
  | .passthrough, .transform =>
    some (.ok (Output.toJson ⟨c.code, some c.passthroughType⟩))
  | .standIn, .transform =>
    some (.error (.rejected ("Transformer " ++ Text.quoted c.transformer.name ++
      " is read-only and cannot compile " ++ c.file) (some c.file)))

end Call

namespace Crew

variable {σ : Type}

/-- The answer to a question. -/
def answer (crew : Crew σ) (c : Call) (s : σ) : Reply × σ :=
  match c.ownAnswer? with
  | some outcome => (⟨outcome, c.pass.scratch⟩, s)
  | none => crew.respond c s

end Crew
end AssetCompiler
