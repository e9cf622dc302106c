import AssetCompiler.Failure
import AssetCompiler.Json.Display

/-!
Messages with percent directives. A directive takes the next argument, or the field of a name, and
writes it as text or as a number, with a width, a precision and flags.
-/
namespace AssetCompiler.Text.Percent

/-- What stands between a percent sign and the letter of a directive. -/
structure Shape where
  left : Bool
  plus : Bool
  blank : Bool
  alternate : Bool
  zero : Bool
  width : Nat
  precision : Option Nat
  deriving Inhabited

/-- Arguments in order, of which all must be used, or a table of named ones with the one that is up
next: at first the table itself, later the value of the name that was read last. -/
inductive Arguments
  | listed (rest : List Json)
  | named (fields : List (String × Json)) (current : Option Json)

abbrev Result (α : Type) := Except Failure α

def notEnough {α : Type} : Result α := .error (.badFormat "not enough arguments for format string")

/-- The next argument. -/
def Arguments.next : Arguments → Result (Json × Arguments)
  | listed (v :: rest) => .ok (v, listed rest)
  | listed [] => notEnough
  | named fields (some v) => .ok (v, named fields none)
  | named _ none => notEnough

/-- Puts the value of a name up next. -/
def Arguments.choose (name : String) : Arguments → Result Arguments
  | named fields _ =>
    match fields.lookup name with
    | some v => .ok (named fields (some v))
    | none => .error (.missingKey name)
  | listed _ => .error (.badFormat "format requires a mapping")

/-- Fills a text up to a width. Zeros go behind the sign and the mark of the base. -/
def fill (shape : Shape) (sign body : List Char) (withZeros : Bool) : List Char :=
  let missing := shape.width - (sign.length + body.length)
  if shape.left then sign ++ body ++ List.replicate missing ' '
  else if withZeros then sign ++ List.replicate missing '0' ++ body
  else List.replicate missing ' ' ++ sign ++ body

def signOf (shape : Shape) (negative : Bool) : List Char :=
  if negative then ['-'] else if shape.plus then ['+'] else if shape.blank then [' '] else []

def asText (shape : Shape) (s : String) : List Char :=
  let cs := match shape.precision with | some n => s.toList.take n | none => s.toList
  fill shape [] cs false

/-- The digits of a number, at least as many as the precision says. -/
def asInt (shape : Shape) (mark : List Char) (base : Nat) (upper : Bool) (n : Int) : List Char :=
  let digits := Nat.toDigits base n.natAbs
  let digits := List.replicate (shape.precision.getD 0 - digits.length) '0' ++ digits
  let digits := if upper then digits.map Char.toUpper else digits
  fill shape (signOf shape (n < 0) ++ mark) digits shape.zero

/-- A number with a fixed count of digits after the point. -/
def fixed (places : Nat) (alternate : Bool) (d : Decimal) : List Char :=
  let n := (d.scaled places).natAbs
  let ds := Nat.toDigits 10 n
  let ds := List.replicate (places + 1 - ds.length) '0' ++ ds
  let whole := ds.take (ds.length - places)
  if places = 0 then whole ++ (if alternate then ['.'] else [])
  else whole ++ '.' :: ds.drop (ds.length - places)

/-- The power of ten of the first digit. -/
def leadPower (d : Decimal) : Int :=
  let p := d.plain
  if p.digits = 0 then 0 else p.exponent + (Nat.toDigits 10 p.digits).length - 1

def exponentText (e : Int) : List Char :=
  ['e', if e < 0 then '-' else '+'] ++ (padded 10 2 e.natAbs).toList

/-- A number with one digit before the point and an exponent: digits rounded, then written. -/
def scientific (places : Nat) (alternate : Bool) (d : Decimal) : List Char × Int :=
  let e := leadPower d
  let shifted : Decimal := ⟨false, d.digits, d.exponent - e⟩
  let n := (shifted.scaled places).natAbs
  let (n, e) := if Decimal.powerOfTen (places + 1) ≤ n then (n / 10, e + 1) else (n, e)
  let ds := if n = 0 then List.replicate (places + 1) '0' else Nat.toDigits 10 n
  let fraction := if places = 0 then (if alternate then ['.'] else []) else '.' :: ds.drop 1
  (ds.take 1 ++ fraction, e)

def dropZeros (s : List Char) : List Char :=
  if s.contains '.' then
    let r := s.reverse.dropWhile (· = '0')
    (if r.head? = some '.' then r.drop 1 else r).reverse
  else s

/-- The shorter of the two forms for a count of significant digits. -/
def general (digits : Nat) (alternate : Bool) (d : Decimal) : List Char :=
  let p := if digits = 0 then 1 else digits
  let (body, e) := scientific (p - 1) alternate d
  if d.digits ≠ 0 ∧ (e < -4 ∨ (p : Int) ≤ e) then
    (if alternate then body else dropZeros body) ++ exponentText e
  else
    let s := fixed (p - 1 - e).toNat alternate d
    if alternate then s else dropZeros s

def asReal (shape : Shape) (letter : Char) (v : Json) : Result (List Char) :=
  let upper (s : List Char) : List Char := if letter.isUpper then s.map Char.toUpper else s
  let places := shape.precision.getD 6
  let write (d : Decimal) : Result (List Char) :=
    let body :=
      match letter.toLower with
      | 'f' => fixed places shape.alternate d
      | 'e' => let (b, e) := scientific places shape.alternate d; b ++ exponentText e
      | _ => general places shape.alternate d
    .ok (fill shape (signOf shape d.negative) (upper body) shape.zero)
  match v with
  | .real d => write d
  | .int n => write ⟨n < 0, n.natAbs, 0⟩
  | .bool b => write ⟨false, if b then 1 else 0, 0⟩
  | .nan => .ok (fill shape (signOf shape false) (upper "nan".toList) false)
  | .infinity negative => .ok (fill shape (signOf shape negative) (upper "inf".toList) false)
  | v => .error (.badFormat ("must be real number, not " ++ v.kindWord))

/-- The whole number that a value stands for in a directive. -/
def wholeOf (letter : Char) (allowsFraction : Bool) : Json → Result Int
  | .int n => .ok n
  | .bool b => .ok (if b then 1 else 0)
  | v =>
    let refused : Result Int := .error (.badFormat ("%" ++ String.singleton letter ++
      (if allowsFraction then " format: a real number is required, not "
        else " format: an integer is required, not ") ++ v.kindWord))
    match v, allowsFraction with
    | .real d, true => .ok (Decimal.signed d.negative ((Decimal.scaled 0
        ⟨false, d.digits / Decimal.powerOfTen (-d.exponent).toNat, max d.exponent 0⟩).natAbs))
    | _, _ => refused

/-- Text in which all beyond ASCII is escaped. -/
def asciiOnly (s : String) : String :=
  String.ofList (s.toList.flatMap fun c =>
    if c.toNat < 0x80 then [c]
    else if c.toNat < 0x100 then '\\' :: 'x' :: (padded 16 2 c.toNat).toList
    else if c.toNat < 0x10000 then '\\' :: 'u' :: (padded 16 4 c.toNat).toList
    else '\\' :: 'U' :: (padded 16 8 c.toNat).toList)

/-- The character of a code point. -/
def charOf (n : Int) : Result Char :=
  if n < 0 ∨ 0x110000 ≤ n then .error (.outOfRange "%c arg not in range(0x110000)")
  else .ok (Char.ofNat n.toNat)

/-- One value under the letter of a directive; `index` is the place of the letter. -/
def convert (shape : Shape) (letter : Char) (index : Nat) (v : Json) : Result (List Char) :=
  match letter with
  | 's' => .ok (asText shape v.display)
  | 'r' => .ok (asText shape v.shown)
  | 'a' => .ok (asText shape (asciiOnly v.shown))
  | 'd' | 'i' | 'u' => (wholeOf 'd' true v).map (asInt shape [] 10 false)
  | 'x' => (wholeOf 'x' false v).map
      (asInt shape (if shape.alternate then ['0', 'x'] else []) 16 false)
  | 'X' => (wholeOf 'X' false v).map
      (asInt shape (if shape.alternate then ['0', 'X'] else []) 16 true)
  | 'o' => (wholeOf 'o' false v).map
      (asInt shape (if shape.alternate then ['0', 'o'] else []) 8 false)
  | 'e' | 'E' | 'f' | 'F' | 'g' | 'G' => asReal shape letter v
  | 'c' =>
    match v with
    | .int n => (charOf n).map fun c => fill shape [] [c] false
    | .bool b => .ok (fill shape [] [Char.ofNat (if b then 1 else 0)] false)
    | .str s =>
      if s.length = 1 then .ok (fill shape [] s.toList false)
      else .error (.badFormat "%c requires int or char")
    | _ => .error (.badFormat "%c requires int or char")
  | c => .error (.badValue (.unknownDirective c index))

/-- Text up to the bracket that closes a name, brackets inside counted; `depth` are open. -/
def readName : (depth : Nat) → List Char → Option (List Char × List Char)
  | _, [] => none
  | depth, c :: rest =>
    if c = ')' then
      match depth with
      | 0 => some ([], rest)
      | depth + 1 => (readName depth rest).map fun p => (c :: p.1, p.2)
    else (readName (if c = '(' then depth + 1 else depth) rest).map fun p => (c :: p.1, p.2)

def isFlag (c : Char) : Bool := ['-', '+', ' ', '#', '0'].contains c

/-- A count in a directive: digits, or a star that takes it from the arguments. A count that is
taken has less than so many bits. -/
def readCount (bits : Nat) (s : List Char) (arguments : Arguments) :
    Result (Option Int × List Char × Arguments) :=
  match s with
  | '*' :: rest =>
    match arguments.next with
    | .ok (.int n, arguments) =>
      let limit := Nat.pow 2 bits
      if n < -limit ∨ limit ≤ n then .error (.outOfRange "count does not fit")
      else .ok (some n, rest, arguments)
    | .ok (.bool b, arguments) => .ok (some (if b then 1 else 0), rest, arguments)
    | .ok _ => .error (.badFormat "* wants int")
    | .error e => .error e
  | _ =>
    let ds := s.takeWhile Char.isDigit
    .ok (if ds.isEmpty then none else some (numberOf ds : Int), s.drop ds.length, arguments)

/-- A directive after its percent sign: what it writes, the rest, and the arguments left. `length`
is the length of the whole format. -/
def directive (length : Nat) (s : List Char) (arguments : Arguments) :
    Result (List Char × List Char × Arguments) := do
  let (s, arguments) ←
    match s with
    | '(' :: rest =>
      match arguments with
      | .listed _ => throw (.badFormat "format requires a mapping")
      | .named _ _ =>
        match readName 0 rest with
        | some (name, rest) => pure (rest, ← arguments.choose (String.ofList name))
        | none => throw (.badValue .unfinishedName)
    | _ => pure (s, arguments)
  let flags := s.takeWhile isFlag
  let (width, s, arguments) ← readCount 63 (s.drop flags.length) arguments
  let (precision, s, arguments) ←
    match s with
    | '.' :: rest => do
      let (p, rest, arguments) ← readCount 31 rest arguments
      pure (some (p.getD 0).toNat, rest, arguments)
    | _ => pure (none, s, arguments)
  let s := match s with | c :: rest => if c = 'h' ∨ c = 'l' ∨ c = 'L' then rest else s | [] => s
  let w := width.getD 0
  let shape : Shape :=
    ⟨flags.contains '-' || w < 0, flags.contains '+', flags.contains ' ', flags.contains '#',
     flags.contains '0', w.natAbs, precision⟩
  match s with
  | [] => throw (.badValue .unfinishedDirective)
  | c :: rest =>
    let (v, arguments) ← arguments.next
    let out ← convert shape c (length - (rest.length + 1)) v
    return (out, rest, arguments)

/-- Writes a format out; `fuel` bounds its length. -/
def expand (length : Nat) : (fuel : Nat) → List Char → Arguments → Result (List Char × Arguments)
  | 0, _, arguments => .ok ([], arguments)
  | _ + 1, [], arguments => .ok ([], arguments)
  | fuel + 1, '%' :: '%' :: rest, arguments => do
    let (more, arguments) ← expand length fuel rest arguments
    return ('%' :: more, arguments)
  | fuel + 1, '%' :: rest, arguments => do
    let (out, rest, arguments) ← directive length rest arguments
    let (more, arguments) ← expand length fuel rest arguments
    return (out ++ more, arguments)
  | fuel + 1, c :: rest, arguments => do
    let (more, arguments) ← expand length fuel rest arguments
    return (c :: more, arguments)

/-- A message with its arguments. Without any it is taken as it is; a single table with fields gives
the arguments by name. -/
def format (message : String) (values : List Json) : Result String := do
  let s := message.toList
  match values with
  | [] => return message
  | [.obj (f :: fields)] =>
    let named := .named (f :: fields) (some (.obj (f :: fields)))
    let (out, _) ← expand s.length (s.length + 1) s named
    return String.ofList out
  | _ =>
    match ← expand s.length (s.length + 1) s (.listed values) with
    | (out, .listed []) => return String.ofList out
    | _ => throw (.badFormat "not all arguments converted during string formatting")

end AssetCompiler.Text.Percent
