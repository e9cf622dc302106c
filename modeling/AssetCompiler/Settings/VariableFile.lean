import AssetCompiler.Keyed
import AssetCompiler.Text.Blank
import AssetCompiler.Text.Newline

/-!
Files of variables, one `NAME=value` a line. Values may stand in single or double quotes and may
refer to other variables as `${NAME}` or `${NAME:-default}`; a line that cannot be read is skipped
from the point where reading failed.
-/
namespace AssetCompiler.VariableFile

abbrev Input := List Char

/-- A blank that does not end the line. -/
def isInlineBlank (c : Char) : Bool := Text.isBlank c && c ≠ '\n' && c ≠ '\r'

def skipInline (s : Input) : Input := s.dropWhile isInlineBlank

def isLineEnd (c : Char) : Bool := c = '\n' || c = '\r'

/-- What follows the end of the line. -/
def afterLineEnd : Input → Input
  | '\r' :: '\n' :: rest => rest
  | _ :: rest => rest
  | [] => []

/-- The rest after this line. -/
def skipLine (s : Input) : Input := afterLineEnd (s.dropWhile fun c => !isLineEnd c)

/-- The word that may stand before a name. -/
def skipExport (s : Input) : Input :=
  if "export".toList.isPrefixOf s then
    let rest := s.drop 6
    let after := skipInline rest
    if after.length < rest.length then after else s
  else s

/-- The text up to the closing quote and what follows it. A quote after a backslash closes only if
no other one does. -/
def untilQuote (quote : Char) (escaped : Bool) : Input → Option (Input × Input)
  | [] => none
  | c :: rest =>
    if c = quote && !escaped then some ([], rest)
    else match untilQuote quote (c = '\\') rest with
      | some (inside, more) => some (c :: inside, more)
      | none => if c = quote then some ([], rest) else none

def singleEscape? (c : Char) : Option Char := if c = '\\' ∨ c = '\'' then some c else none

def doubleEscape? : Char → Option Char
  | '\\' => some '\\'
  | '\'' => some '\''
  | '"' => some '"'
  | 'a' => some (Char.ofNat 7)
  | 'b' => some (Char.ofNat 8)
  | 'f' => some (Char.ofNat 12)
  | 'n' => some '\n'
  | 'r' => some '\r'
  | 't' => some '\t'
  | 'v' => some (Char.ofNat 11)
  | _ => none

/-- Replaces the escapes that a kind of quotes knows. -/
def unescape (escape? : Char → Option Char) : Input → Input
  | '\\' :: c :: rest =>
    match escape? c with
    | some d => d :: unescape escape? rest
    | none => '\\' :: unescape escape? (c :: rest)
  | c :: rest => c :: unescape escape? rest
  | [] => []

/-- Cuts a value where blanks and a number sign begin a comment. -/
def withoutComment : Input → Input
  | [] => []
  | c :: rest =>
    if Text.isBlank c && (rest.dropWhile Text.isBlank).head? == some '#' then []
    else c :: withoutComment rest

/-- A name, where one can be read. Before a comment there is none. -/
def readName (s : Input) : Except Input (Option Input × Input) :=
  match s with
  | '#' :: _ => .ok (none, s)
  | '\'' :: rest =>
    let name := rest.takeWhile (· ≠ '\'')
    match rest.drop name.length with
    | _ :: more => if name.isEmpty then .error s else .ok (some name, more)
    | [] => .error s
  | _ =>
    let name := s.takeWhile fun c => c ≠ '=' && c ≠ '#' && !Text.isBlank c
    if name.isEmpty then .error s else .ok (some name, s.drop name.length)

/-- A value, where one can be read. -/
def readValue (s : Input) : Except Input (Input × Input) :=
  match s with
  | '\'' :: rest =>
    match untilQuote '\'' false rest with
    | some (inside, more) => .ok (unescape singleEscape? inside, more)
    | none => .error s
  | '"' :: rest =>
    match untilQuote '"' false rest with
    | some (inside, more) => .ok (unescape doubleEscape? inside, more)
    | none => .error s
  | _ =>
    let line := s.takeWhile fun c => !isLineEnd c
    .ok (Text.trimRight (withoutComment line), s.drop line.length)

/-- What must follow a binding: blanks, perhaps a comment, and the end of the line. -/
def readEnd (s : Input) : Except Input Input :=
  let rest := skipInline s
  let rest := if rest.head? = some '#' then rest.dropWhile fun c => !isLineEnd c else rest
  match rest with
  | [] => .ok []
  | c :: _ => if isLineEnd c then .ok (afterLineEnd rest) else .error rest

structure Binding where
  name : String
  value : Option String

/-- A binding at the start of a text without blanks before it, and the rest. On failure only the
rest where reading stopped is left. -/
def readBinding (s : Input) : Except Input (Option Binding × Input) := do
  let (name, rest) ← readName (skipExport s)
  let rest := skipInline rest
  let (value, rest) ←
    match rest with
    | '=' :: more => (readValue (skipInline more)).map fun p => (some p.1, p.2)
    | _ => .ok (none, rest)
  let rest ← readEnd rest
  return (name.map fun n => ⟨String.ofList n, value.map String.ofList⟩, rest)

/-- All bindings of a text; `fuel` bounds their number. -/
def readBindings : (fuel : Nat) → Input → List Binding
  | 0, _ => []
  | fuel + 1, s =>
    match s.dropWhile Text.isBlank with
    | [] => []
    | s =>
      match readBinding s with
      | .ok (some b, rest) => b :: readBindings fuel rest
      | .ok (none, rest) => readBindings fuel rest
      | .error rest => readBindings fuel (skipLine rest)

/-- A reference to a variable at the start of a text: its name, its default, and the rest. -/
def readReference (s : Input) : Option (Input × Option Input × Input) :=
  match s with
  | '$' :: '\x7b' :: rest =>
    let name := rest.takeWhile fun c => c ≠ '\x7d' && c ≠ ':'
    match rest.drop name.length with
    | '\x7d' :: more => some (name, none, more)
    | ':' :: '-' :: more =>
      let default := more.takeWhile (· ≠ '\x7d')
      match more.drop default.length with
      | _ :: after => some (name, some default, after)
      | [] => none
    | _ => none
  | _ => none

/-- Writes references out; `fuel` bounds the length of the text. -/
def substitute (value? : String → Option (Option String)) : (fuel : Nat) → Input → Input
  | 0, _ => []
  | _ + 1, [] => []
  | fuel + 1, c :: rest =>
    match readReference (c :: rest) with
    | some (name, default, more) =>
      let found :=
        match value? (String.ofList name) with
        | some (some v) => v.toList
        | some none => []
        | none => default.getD []
      found ++ substitute value? fuel more
    | none => c :: substitute value? fuel rest

/-- Sets the bindings one after the other; a reference sees the earlier ones of this file before the
variables of the environment. -/
def resolve (environment : List (String × String)) (bindings : List Binding) :
    Keyed String (Option String) :=
  bindings.foldl (fun known b =>
    let value? (name : String) : Option (Option String) :=
      (Keyed.find? name known) <|> (environment.lookup name).map some
    let value := b.value.map fun v =>
      String.ofList (substitute value? (v.toList.length + 1) v.toList)
    known.set b.name value) []

/-- The variables that a file names, in order. A name without an equals sign has no value. -/
def bindings (environment : List (String × String)) (text : Input) :
    List (String × Option String) :=
  let s := Text.unifyLineEnds text
  resolve environment (readBindings (s.length + 1) s)

end AssetCompiler.VariableFile
