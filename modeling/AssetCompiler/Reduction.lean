import AssetCompiler.World

/-!
The reduction of a file: transformers run one after the other until the media type of the output is
final. A reduction is kept as a tree of questions to transformers, so that what it asks, and what it
does with each answer, is there before anyone answers; one tree serves a run without interruptions
and a run that gives way to other work.
-/
namespace AssetCompiler

inductive Reduction
  | done (outcome : Except Failure Artifact)
  | note (context : Log.Context) (event : Log.Event) (rest : Reduction)
  | read (file : String) (rest : Except Failure String → Reduction)
  | ask (call : Call) (rest : Reply → Reduction)

namespace Reduction

/-- A failure of a transformer as the host reports it: compile failures and signals as they are, all
others with the file and the name of the transformer. -/
def blame (file : String) (t : Transformer) (e : Failure) : Failure :=
  if e.isCompileFailure || e.isSignal then e else .transformerFailed file t.name e

/-- Work on output ends with a final form, unless it is HTML made from something else. -/
def isTerminal (output input : Option String) : Bool :=
  MediaType.isFinal output && !(output == some MediaType.html && input != some MediaType.html)

/-- The items of a value that is gone through: those of a list, the characters of a text, the names
of an object. -/
def itemsOf : Json → Except Failure (List Json)
  | .arr items => .ok items
  | .str s => .ok (s.toList.map fun c => .str (String.singleton c))
  | .obj fields => .ok (fields.map fun f => .str f.1)
  | v => .error (.notItems v.kindWord)

/-- A result with dependencies that need not be texts. -/
def finish (code mediaType : String) (dependencies : List Json) : Reduction :=
  let result : Reading Artifact :=
    ((Schema.list Schema.text (.arr dependencies)).within (.field "dependent_files")).map
      fun ds => Artifact.ofContent code mediaType ds
  .done (result.checked Artifact.modelName)

/-- The media type under which a pass sees its input. -/
def inputType (file : String) (i : Fingerprint) : Option String := i.typeOr (Path.ofText file)

/-- The code of a fingerprint, or else of its file. -/
def withSource (i : Fingerprint) (file : String) (rest : String → Reduction) : Reduction :=
  match i.source with
  | some code => rest code
  | none => .read file fun r => match r with | .ok code => rest code | .error e => .done (.error e)

/-- What stays the same during one pass. -/
structure Frame where
  file : String
  transformer : Transformer
  index : Nat
  input : Option String
  code : String

namespace Frame

def context (f : Frame) : Log.Context := ⟨some f.file, some f.transformer.name, some f.index⟩

/-- A question of this pass, asked with the scratch values of the last answer. -/
def call (f : Frame) (q : Question) (scratch : List (String × Json)) : Call :=
  ⟨f.transformer, q, f.code, f.file, ⟨f.file, f.input, f.index, scratch⟩, f.context⟩

/-- Asks, and goes on unless the answer is a failure. -/
def asking (f : Frame) (q : Question) (scratch : List (String × Json))
    (rest : Json → List (String × Json) → Reduction) : Reduction :=
  .ask (f.call q scratch) fun reply =>
    match reply.outcome with
    | .error e => .done (.error (blame f.file f.transformer e))
    | .ok v => rest v reply.scratch

/-- Asks for the dependencies in the first pass; later passes keep what is known. -/
def withDependencies (f : Frame) (known : List Json) (scratch : List (String × Json))
    (rest : List Json → List (String × Json) → Reduction) : Reduction :=
  if f.index = 0 then
    f.asking .dependencies scratch fun v scratch =>
      match itemsOf v with
      | .ok items => rest items scratch
      | .error e => .done (.error e)
  else rest known scratch

/-- Asks for the output of the pass, which must have the form of an output. -/
def withOutput (f : Frame) (scratch : List (String × Json)) (rest : Output → Reduction) :
    Reduction :=
  f.asking .transform scratch fun v _ =>
    match (Output.read v).checked Output.modelName with
    | .ok output => rest output
    | .error e => .done (.error (blame f.file f.transformer e))

end Frame

/-- The passes that may still follow, `left` at most. `chain` lists the input types of the passes so
far, `next?` gives the transformer for an output type. -/
def passes (next? : Option String → Option Transformer) (file : String) (limit : Int) :
    (left index : Nat) → Fingerprint → Transformer → (dependencies : List Json) →
    (chain : List (Option String)) → Reduction
  | 0, _, i, _, _, chain => .done (.error (.passLimit file (chain ++ [i.mediaType]) limit))
  | left + 1, index, i, t, dependencies, chain =>
    let input := inputType file i
    withSource i file fun code =>
      let frame : Frame := ⟨file, t, index, input, code⟩
      frame.asking .accepts [] fun accepted scratch =>
        if accepted.isTruthy then
          frame.withDependencies dependencies scratch fun dependencies scratch =>
            frame.withOutput scratch fun output =>
              match isTerminal output.mediaType input, output.mediaType with
              | true, some type => finish output.code type dependencies
              | _, type =>
                .note Log.Context.none (.goingOn file type) <|
                  match next? type with
                  | none =>
                    .note Log.Context.none (.stuck output)
                      (.done (.error (.unhandledType file type)))
                  | some t' =>
                    passes next? file limit left (index + 1)
                      (i.withSource (some output.code) type) t' dependencies (chain ++ [input])
        else
          .note frame.context (.declined t.name file)
            (finish code (input.getD MediaType.plainText) dependencies)

/-- The reduction of a file with a fingerprint, begun by a transformer, in at most `limit`
passes. -/
def ofFile (next? : Option String → Option Transformer) (limit : Int) (file : String)
    (i : Fingerprint) (t : Transformer) : Reduction :=
  passes next? file limit limit.toNat 0 i t [] []

variable {σ : Type}

/-- The text of a file, read anew. -/
def readSource (file : String) : Work σ String := do
  let s ← Work.look fun v => v.readTextLossy (Path.ofText file)
  return String.ofList s

/-- Puts a question to the crew. -/
def consult (crew : Crew σ) (c : Call) : Work σ Reply := do
  let w ← get
  let (reply, s) := crew.answer c w.tools
  set { w with tools := s }
  return reply

/-- Runs a reduction without interruptions. -/
def run (crew : Crew σ) : Reduction → Work σ Artifact
  | .done outcome => Work.lift outcome
  | .note c e rest => do
    Work.note c e
    rest.run crew
  | .read file rest => do
    let r ← Work.outcome (readSource file)
    (rest r).run crew
  | .ask c rest => do
    let reply ← consult crew c
    (rest reply).run crew

/-- How far a run has come that gives way: to its end, or to a question that is being waited for. -/
inductive Progress
  | finished (outcome : Except Failure Artifact)
  | waiting (waited : Nat) (rest : Reduction)

/-- Runs a reduction up to the next question that makes others wait. `waited` counts how often the
question at the front has given way already. -/
def proceed (crew : Crew σ) : Reduction → (waited : Nat) → Work σ Progress
  | .done outcome, _ => return .finished outcome
  | .note c e rest, _ => do
    Work.note c e
    rest.proceed crew 0
  | .read file rest, _ => do
    let r ← Work.outcome (readSource file)
    (rest r).proceed crew 0
  | .ask c rest, waited =>
    if waited < crew.pauses c then return .waiting (waited + 1) (.ask c rest)
    else do
      let reply ← consult crew c
      (rest reply).proceed crew 0

end Reduction
end AssetCompiler
