import AssetCompiler.Json.Display
import AssetCompiler.Transformer

/-!
A crew whose transformers are given by functions. It counts how often each has transformed, and
keeps a list of all questions that it was asked.
-/
namespace AssetCompiler

/-- `answer` gets the number of earlier transformations of the same transformer. -/
structure Behaviour where
  answer : Nat → Call → Reply
  pauses : Nat

/-- `calls` holds the newest question first. -/
structure Workshop where
  behaviours : Keyed Nat Behaviour
  runs : Keyed Nat Nat
  calls : List Call

namespace Workshop

def empty : Workshop := ⟨[], [], []⟩

def add (w : Workshop) (handle : Nat) (b : Behaviour) : Workshop :=
  { w with behaviours := w.behaviours.set handle b }

def runsOf (w : Workshop) (handle : Nat) : Nat := (w.runs.find? handle).getD 0

def respond (c : Call) (w : Workshop) : Reply × Workshop :=
  let h := c.transformer.handle
  let n := w.runsOf h
  let w := { w with calls := c :: w.calls }
  let w := if c.question = .transform then { w with runs := w.runs.set h (n + 1) } else w
  match w.behaviours.find? h with
  | some b => (b.answer n c, w)
  | none => (⟨.error (.raised "LookupError" ""), c.pass.scratch⟩, w)

/-- The crew of some behaviours. Only transformations make others wait. -/
def crew (behaviours : Keyed Nat Behaviour) : Crew Workshop :=
  { respond := respond
    pauses := fun c =>
      if c.question = .transform then
        ((behaviours.find? c.transformer.handle).map (·.pauses)).getD 0
      else 0 }

end Workshop

/-! Templates -/

/-- A name between braces at the start of a text, and the rest after it. -/
def readSlot (s : List Char) : Option (String × List Char) :=
  match s with
  | '\x7b' :: rest =>
    let name := rest.takeWhile (· ≠ '\x7d')
    match rest.drop name.length with
    | _ :: more => some (String.ofList name, more)
    | [] => none
  | _ => none

/-- A template with its slots filled once; slots of other names stay. `fuel` bounds the length. -/
def fillSlots (value? : String → Option String) : (fuel : Nat) → List Char → List Char
  | 0, _ => []
  | _ + 1, [] => []
  | fuel + 1, c :: rest =>
    match (readSlot (c :: rest)).bind fun slot => (value? slot.1).map fun v => (v, slot.2) with
    | some (v, more) => v.toList ++ fillSlots value? fuel more
    | none => c :: fillSlots value? fuel rest

/-- Fields as names and values, by name. -/
def fieldList (fields : List (String × Json)) : String :=
  let ordered := fields.mergeSort fun a b => a.1 ≤ b.1
  ";".intercalate (ordered.map fun f => f.1 ++ "=" ++ f.2.display)

/-- What a slot of a template stands for in a question. -/
def slotValue? (c : Call) : String → Option String
  | "code" => some c.code
  | "upper" => some (Text.uppercased c.code)
  | "path" => some c.file
  | "media" => some (c.pass.mediaType.getD "None")
  | "pass" => some (Text.signedDecimal c.pass.index)
  | "scratch" => some (fieldList c.pass.scratch)
  | "ctx" => some (fieldList c.context.fields)
  | _ => none

/-- The code that a template makes of a question. -/
def fillTemplate (template : String) (c : Call) : String :=
  String.ofList (fillSlots (slotValue? c) (template.toList.length + 1) template.toList)

end AssetCompiler
