import AssetCompiler.Json.Writer
import AssetCompiler.Log.Context
import AssetCompiler.Log.Event
import AssetCompiler.Text.Percent

/-!
Log records and their two written forms: a JSON object on one line, and a line for reading.
-/
namespace AssetCompiler.Log

/-- `level` is a number; the usual severities are multiples of ten. -/
structure Record where
  level : Int
  logger : String
  message : String
  context : Context
  data : Json
  exception : Option String
  deriving Inhabited

/-- The name of a level. -/
def levelName (level : Int) : String :=
  if level = 50 then "CRITICAL"
  else if level = 40 then "ERROR"
  else if level = 30 then "WARNING"
  else if level = 20 then "INFO"
  else if level = 10 then "DEBUG"
  else if level = 0 then "NOTSET"
  else "Level " ++ Text.signedDecimal level

namespace Record

/-- The record of an event. -/
def ofEntry (wording : Failure.Wording) (e : Entry) : Record :=
  ⟨e.event.severity.level, e.event.source, e.event.text wording, e.context, .null, none⟩

/-- The record with a template's message, once the arguments are filled in. -/
def withMessage (template : String) (args : List Json) (r : Record) : Except Failure Record := do
  return { r with message := ← Text.Percent.format template args }

/-- The time of a record in JSON. -/
def isoTime (t : Instant) : String := t.clockText "T" ++ t.fractionText ++ "+00:00"

/-- The fields of a record. Context, data and exception are there only if there is something to
say. -/
def toJson (time : Instant) (r : Record) : Json :=
  let context := r.context.fields
  .obj ([("timestamp", .str (isoTime time)), ("level", .str (levelName r.level)),
     ("logger", .str r.logger), ("message", .str r.message)] ++
    (if context.isEmpty then [] else [("context", .obj context)]) ++
    (if r.data.isTruthy then [("data", r.data)] else []) ++
    (r.exception.map fun e => ("exception", Json.str e)).toList)

def jsonLine (time : Instant) (r : Record) : String := Json.write .line (r.toJson time)

/-- The level name, filled up to eight characters. -/
def levelColumn (level : Int) : String :=
  let name := levelName level
  "[" ++ name ++ String.ofList (List.replicate (8 - name.length) ' ') ++ "]"

def textLine (time : Instant) (r : Record) : String :=
  " ".intercalate
    ([time.clockText " ", levelColumn r.level, r.logger] ++
     (match r.context.transformer with
      | some t => if t.isEmpty then [] else ["[" ++ t ++ "]"]
      | none => []) ++
     (match r.context.pass with
      | some n => ["(pass " ++ Text.signedDecimal n ++ ")"]
      | none => []) ++
     ["- " ++ r.message])

/-- A record in one of the two forms. -/
def line (asJson : Bool) (time : Instant) (r : Record) : String :=
  if asJson then r.jsonLine time else r.textLine time

end Record
end AssetCompiler.Log
