import AssetCompiler.Json.Basic
import AssetCompiler.Text.Digit

/-!
A reader of JSON. It answers with the value only if the whole text is one value with blanks around
it. Among fields of one name the last counts, at the place of the first.
-/
namespace AssetCompiler.Json

def isGap (c : Char) : Bool := c = ' ' || c = '\n' || c = '\t' || c = '\r'

def skipGaps (s : List Char) : List Char := s.dropWhile isGap

def hexValue? (c : Char) : Option Nat :=
  if '0' ≤ c ∧ c ≤ '9' then some (c.toNat - 48)
  else if 'a' ≤ c ∧ c ≤ 'f' then some (c.toNat - 87)
  else if 'A' ≤ c ∧ c ≤ 'F' then some (c.toNat - 55)
  else none

/-- The number of four hexadecimal digits. -/
def unit? (a b c d : Char) : Option Nat := do
  return ((← hexValue? a) * 16 + (← hexValue? b)) * 256 + ((← hexValue? c) * 16 + (← hexValue? d))

/-- The character that a letter after a backslash stands for. -/
def shortEscape? : Char → Option Char
  | '"' => some '"'
  | '\\' => some '\\'
  | '/' => some '/'
  | 'b' => some (Char.ofNat 0x08)
  | 'f' => some (Char.ofNat 0x0c)
  | 'n' => some '\n'
  | 'r' => some '\r'
  | 't' => some '\t'
  | _ => none

def isHighUnit (n : Nat) : Bool := 0xd800 ≤ n && n < 0xdc00

def isLowUnit (n : Nat) : Bool := 0xdc00 ≤ n && n < 0xe000

/-- The rest of a text after its opening quote, with what follows the closing one. -/
def readText : List Char → Option (List Char × List Char)
  | [] => none
  | '"' :: rest => some ([], rest)
  | '\\' :: 'u' :: a :: b :: c :: d :: rest =>
    match unit? a b c d with
    | none => none
    | some n =>
      if isLowUnit n then none
      else if isHighUnit n then
        match rest with
        | '\\' :: 'u' :: e :: f :: g :: h :: rest' =>
          match unit? e f g h with
          | some m =>
            if isLowUnit m then
              (readText rest').map fun p =>
                (Char.ofNat (0x10000 + (n - 0xd800) * 0x400 + (m - 0xdc00)) :: p.1, p.2)
            else none
          | none => none
        | _ => none
      else (readText rest).map fun p => (Char.ofNat n :: p.1, p.2)
  | '\\' :: e :: rest =>
    match shortEscape? e with
    | some c => (readText rest).map fun p => (c :: p.1, p.2)
    | none => none
  | c :: rest =>
    if c.toNat < 0x20 ∨ c = '\\' then none else (readText rest).map fun p => (c :: p.1, p.2)

def natOf (digits : List Char) : Nat := digits.foldl (fun n c => 10 * n + (c.toNat - 48)) 0

/-- A run of at least one digit and the rest. -/
def digits? (s : List Char) : Option (List Char × List Char) :=
  match s.takeWhile Char.isDigit with
  | [] => none
  | ds => some (ds, s.dropWhile Char.isDigit)

/-- The digits after a decimal point, where there are any. -/
def readFraction : List Char → Option (List Char × List Char)
  | '.' :: rest => digits? rest
  | _ => none

/-- The exponent, where there is one. -/
def readExponent : List Char → Option (Int × List Char)
  | e :: rest =>
    if e = 'e' ∨ e = 'E' then
      match rest with
      | '-' :: more => (digits? more).map fun p => (-(natOf p.1 : Int), p.2)
      | '+' :: more => (digits? more).map fun p => ((natOf p.1 : Int), p.2)
      | _ => (digits? rest).map fun p => ((natOf p.1 : Int), p.2)
    else none
  | [] => none

/-- The magnitude of a number and the rest. -/
def readNumber (negative : Bool) (s : List Char) : Option (Json × List Char) := do
  let (whole, rest) ←
    match s with
    | '0' :: rest => some (['0'], rest)
    | _ => digits? s
  let fraction := readFraction rest
  let rest := (fraction.map (·.2)).getD rest
  let power := readExponent rest
  let rest := (power.map (·.2)).getD rest
  if fraction.isNone && power.isNone then
    return (.int (if negative then -(natOf whole : Int) else natOf whole), rest)
  else
    let places := (fraction.map (·.1)).getD []
    let exponent := (power.map (·.1)).getD 0 - places.length
    return (.real ⟨negative, natOf (whole ++ places), exponent⟩, rest)

/-- A word with its value, at the start of a text. -/
def readWord (word : String) (v : Json) (s : List Char) : Option (Json × List Char) :=
  if word.toList.isPrefixOf s then some (v, s.drop word.length) else none

/-- Values that begin with a letter or a digit. -/
def readSimple : List Char → Option (Json × List Char)
  | s@('n' :: _) => readWord "null" .null s
  | s@('t' :: _) => readWord "true" (.bool true) s
  | s@('f' :: _) => readWord "false" (.bool false) s
  | s@('N' :: _) => readWord "NaN" .nan s
  | s@('I' :: _) => readWord "Infinity" (.infinity false) s
  | '-' :: s@('I' :: _) => readWord "Infinity" (.infinity true) s
  | '-' :: s => readNumber true s
  | s => readNumber false s

mutual

/-- A value and what follows it; `fuel` bounds the calls. -/
def readValue : Nat → List Char → Option (Json × List Char)
  | 0, _ => none
  | fuel + 1, s =>
    match skipGaps s with
    | '"' :: rest => (readText rest).map fun p => (.str (String.ofList p.1), p.2)
    | '[' :: rest =>
      match skipGaps rest with
      | ']' :: rest' => some (.arr [], rest')
      | _ => (readItems fuel rest).map fun p => (.arr p.1, p.2)
    | '{' :: rest =>
      match skipGaps rest with
      | '}' :: rest' => some (.obj [], rest')
      | _ => (readFields fuel rest).map fun p => (.obj (Keyed.ofList p.1), p.2)
    | s => readSimple s

/-- The items of a list up to its closing bracket, at least one. -/
def readItems : Nat → List Char → Option (List Json × List Char)
  | 0, _ => none
  | fuel + 1, s =>
    match readValue fuel s with
    | none => none
    | some (v, rest) =>
      match skipGaps rest with
      | ',' :: more => (readItems fuel more).map fun p => (v :: p.1, p.2)
      | ']' :: more => some ([v], more)
      | _ => none

/-- The fields of an object up to its closing brace, at least one. -/
def readFields : Nat → List Char → Option (List (String × Json) × List Char)
  | 0, _ => none
  | fuel + 1, s =>
    match skipGaps s with
    | '"' :: rest =>
      match readText rest with
      | none => none
      | some (name, rest) =>
        match skipGaps rest with
        | ':' :: rest =>
          match readValue fuel rest with
          | none => none
          | some (v, rest) =>
            match skipGaps rest with
            | ',' :: more =>
              (readFields fuel more).map fun p => ((String.ofList name, v) :: p.1, p.2)
            | '}' :: more => some ([(String.ofList name, v)], more)
            | _ => none
        | _ => none
    | _ => none

end

/-- The value that a text writes. -/
def read? (s : List Char) : Option Json :=
  match readValue (2 * s.length + 2) s with
  | some (v, rest) => if (skipGaps rest).isEmpty then some v else none
  | none => none

def parse? (s : String) : Option Json := read? s.toList

end AssetCompiler.Json
