import AssetCompiler.Failure
import AssetCompiler.Instant
import AssetCompiler.Path
import AssetCompiler.Text.Blank

/-!
Reading typed values from JSON. A reading either succeeds or lists every error with its place, in
the order in which the fields are declared. Scalars are read generously: a number may come as its
digits, a truth value as a word.
-/
namespace AssetCompiler

abbrev Reading (α : Type) := Except (List FieldError) α

namespace Reading

variable {α β : Type}

/-- One more field: the errors of both sides are kept. -/
def apply (f : Reading (α → β)) (x : Reading α) : Reading β :=
  match f, x with
  | .ok f, .ok a => .ok (f a)
  | .ok _, .error e => .error e
  | .error e, .ok _ => .error e
  | .error e, .error e' => .error (e ++ e')

def fail (issue : FieldIssue) : Reading α := .error [⟨[], issue⟩]

/-- A reading of a part, its errors seen from the whole. -/
def within (place : Place) : Reading α → Reading α
  | .ok a => .ok a
  | .error errors => .error (errors.map fun e => ⟨place :: e.place, e.issue⟩)

/-- A reading as an action that can fail. -/
def checked (model : String) : Reading α → Except Failure α
  | .ok a => .ok a
  | .error errors => .error (.invalid model errors)

end Reading

namespace Schema

variable {α : Type}

def text : Json → Reading String
  | .str s => .ok s
  | _ => .fail .notText

def yesWords : List String := ["1", "on", "t", "true", "y", "yes"]

def noWords : List String := ["0", "off", "f", "false", "n", "no"]

def bool : Json → Reading Bool
  | .bool b => .ok b
  | .int n => if n = 0 then .ok false else if n = 1 then .ok true else .fail .badBool
  | .real d =>
    match d.whole? with
    | some n => if n = 0 then .ok false else if n = 1 then .ok true else .fail .badBool
    | none => .fail .notBool
  | .str s =>
    let w := String.ofList (s.toList.map Char.toLower)
    if yesWords.contains w then .ok true
    else if noWords.contains w then .ok false
    else .fail .badBool
  | _ => .fail .notBool

/-- Digits with single low lines between them. -/
def groupedDigits? : List Char → Option Nat
  | [] => none
  | s =>
    let ok := s.all (fun c => c.isDigit || c = '_') && s.head? != some '_' &&
      s.getLast? != some '_' && !(s.zip (s.drop 1)).contains ('_', '_')
    if ok then
      some ((s.filter Char.isDigit).foldl (fun n c => 10 * n + (c.toNat - 48)) 0)
    else none

/-- The blanks around a number; the four separators of ASCII are none of them. -/
def isOuterBlank (c : Char) : Bool := Text.isBlank c && !(0x1c ≤ c.toNat && c.toNat ≤ 0x1f)

/-- A whole number from its text: a sign, grouped digits, and a point with zeros after it. -/
def intOfText (s : String) : Reading Int :=
  let body := (((s.toList.dropWhile isOuterBlank).reverse).dropWhile isOuterBlank).reverse
  let (negative, body) :=
    match body with
    | '-' :: rest => (true, rest)
    | '+' :: rest => (false, rest)
    | _ => (false, body)
  let whole := body.takeWhile (· ≠ '.')
  if (body.drop (whole.length + 1)).all (· = '0') then
    match groupedDigits? whole with
    | some n =>
      if 4300 < (Nat.toDigits 10 n).length then .fail .hugeInt else .ok (Decimal.signed negative n)
    | none => .fail .badInt
  else .fail .badInt

def int : Json → Reading Int
  | .int n => .ok n
  | .bool b => .ok (if b then 1 else 0)
  | .real d =>
    if d.isHuge then .fail .infiniteInt
    else match d.whole? with
      | some n => if n.natAbs < Nat.pow 2 63 then .ok n else .fail .hugeInt
      | none => .fail .fractionalInt
  | .nan | .infinity _ => .fail .infiniteInt
  | .str s => intOfText s
  | _ => .fail .notInt

def time : Json → Reading Instant
  | .str s => match Instant.ofText? s with | some t => .ok t | none => .fail .badTimeText
  | .int n =>
    match Instant.ofCount? (n * 1000000) with | some t => .ok t | none => .fail .badTimeCount
  | .real d =>
    if d.isHuge then .fail .badTimeCount
    else match Instant.ofCount? (d.scaled 6) with | some t => .ok t | none => .fail .badTimeCount
  | .nan | .infinity _ => .fail .badTimeCount
  | _ => .fail .notTime

def path : Json → Reading Path
  | .str s => .ok (Path.ofText s)
  | _ => .fail .notPath

/-- One of some words. -/
def word (words : List String) : Json → Reading String
  | .str s => if words.contains s then .ok s else .fail .notOption
  | _ => .fail .notOption

def nullable (read : Json → Reading α) : Json → Reading (Option α)
  | .null => .ok none
  | v => (read v).map some

/-- Reads items from the one with number `i` on. -/
def itemsFrom (read : Json → Reading α) (i : Nat) : List Json → Reading (List α)
  | [] => .ok []
  | v :: rest =>
    .apply (((read v).within (.item i)).map List.cons) (itemsFrom read (i + 1) rest)

def list (read : Json → Reading α) : Json → Reading (List α)
  | .arr items => itemsFrom read 0 items
  | _ => .fail .notList

def entries (read : Json → Reading α) : List (String × Json) → Reading (List (String × α))
  | [] => .ok []
  | (k, v) :: rest =>
    .apply (((read v).within (.field k)).map fun a => List.cons (k, a)) (entries read rest)

def table (read : Json → Reading α) : Json → Reading (List (String × α))
  | .obj fields => entries read fields
  | _ => .fail .notMap

def anyTable : Json → Reading (List (String × Json))
  | .obj fields => .ok fields
  | _ => .fail .notMap

/-- A value with declared fields; other fields are passed over. -/
def record (read : List (String × Json) → Reading α) : Json → Reading α
  | .obj fields => read fields
  | _ => .fail .notModel

def required (name : String) (read : Json → Reading α) (fields : List (String × Json)) :
    Reading α :=
  match fields.lookup name with
  | some v => (read v).within (.field name)
  | none => .error [⟨[.field name], .missing⟩]

def optional (name : String) (default : α) (read : Json → Reading α)
    (fields : List (String × Json)) : Reading α :=
  match fields.lookup name with
  | some v => (read v).within (.field name)
  | none => .ok default

end Schema
end AssetCompiler
