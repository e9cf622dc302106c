import AssetCompiler.Decimal

/-!
Points in time, as calendar dates with a time of day and, where it is known, an offset from
universal time. They are read from the usual texts or from a count of seconds.
-/
namespace AssetCompiler

/-- `offset` is in minutes; without it the place is unknown. -/
structure Instant where
  year : Nat
  month : Nat
  day : Nat
  hour : Nat
  minute : Nat
  second : Nat
  micro : Nat
  offset : Option Int
  deriving DecidableEq, Repr, Inhabited

namespace Instant

def isLeap (year : Nat) : Bool := year % 4 == 0 && (year % 100 != 0 || year % 400 == 0)

def daysIn (year month : Nat) : Nat :=
  if month = 2 then (if isLeap year then 29 else 28)
  else if month = 4 ∨ month = 6 ∨ month = 9 ∨ month = 11 then 30 else 31

/-- The date that lies `days` after the first of January 1970, counted in cycles of 400 years that
begin in March. -/
def dateOf (days : Int) : Nat × Nat × Nat :=
  let z := days + 719468
  let era := Int.fdiv z 146097
  let ofEra := (z - era * 146097).toNat
  let yearOfEra := (ofEra - ofEra / 1460 + ofEra / 36524 - ofEra / 146096) / 365
  let ofYear := ofEra - (365 * yearOfEra + yearOfEra / 4 - yearOfEra / 100)
  let m := (5 * ofYear + 2) / 153
  let day := ofYear - (153 * m + 2) / 5 + 1
  let month := if m < 10 then m + 3 else m - 9
  let year := (yearOfEra + era * 400 + (if month ≤ 2 then 1 else 0)).toNat
  (year, month, day)

/-- The instant in universal time that lies so many microseconds after the start of 1970. -/
def ofMicroseconds (n : Int) : Instant :=
  let seconds := Int.fdiv n 1000000
  let micro := (n - seconds * 1000000).toNat
  let days := Int.fdiv seconds 86400
  let ofDay := (seconds - days * 86400).toNat
  let (year, month, day) := dateOf days
  ⟨year, month, day, ofDay / 3600, ofDay / 60 % 60, ofDay % 60, micro, some 0⟩

/-- Counts above this size are in milliseconds. -/
def watershed : Int := 20000000000

/-- An instant from a count of seconds, or of milliseconds if it is large, given in millionths. The
years from 1600 to 9999 are allowed. -/
def ofCount? (millionths : Int) : Option Instant :=
  let micros :=
    if watershed * 1000000 < millionths.natAbs then Int.fdiv millionths 1000 else millionths
  let seconds := Int.fdiv micros 1000000
  if seconds < -11676096000 ∨ 253402300799 < seconds then none else some (ofMicroseconds micros)

def digitsValue? (s : List Char) : Option Nat :=
  if !s.isEmpty && s.all Char.isDigit then
    some (s.foldl (fun n c => 10 * n + (c.toNat - 48)) 0)
  else none

/-- A calendar date at the start of a text. -/
def readDate? (s : List Char) : Option ((Nat × Nat × Nat) × List Char) :=
  match s with
  | y1 :: y2 :: y3 :: y4 :: '-' :: m1 :: m2 :: '-' :: d1 :: d2 :: rest => do
    let year ← digitsValue? [y1, y2, y3, y4]
    let month ← digitsValue? [m1, m2]
    let day ← digitsValue? [d1, d2]
    if 1 ≤ year ∧ 1 ≤ month ∧ month ≤ 12 ∧ 1 ≤ day ∧ day ≤ daysIn year month then
      return ((year, month, day), rest)
    else none
  | _ => none

/-- Digits after a point, as millionths; what is finer is dropped. -/
def microsOf (digits : List Char) : Nat :=
  let six := digits.take 6
  (six ++ List.replicate (6 - six.length) '0').foldl (fun n c => 10 * n + (c.toNat - 48)) 0

/-- Seconds and their fraction, both optional, at the start of a text. -/
def readSeconds? (s : List Char) : Option ((Nat × Nat) × List Char) :=
  match s with
  | ':' :: a :: b :: rest => do
    let second ← digitsValue? [a, b]
    if 59 < second then none
    else match rest with
      | c :: more =>
        if c = '.' ∨ c = ',' then
          let digits := more.takeWhile Char.isDigit
          if digits.isEmpty then none
          else return ((second, microsOf digits), more.drop digits.length)
        else return ((second, 0), rest)
      | [] => return ((second, 0), rest)
  | ':' :: _ => none
  | _ => some ((0, 0), s)

/-- The offset that is all of a text. -/
def readOffset? (s : List Char) : Option (Option Int) :=
  match s with
  | [] => some none
  | ['Z'] | ['z'] => some (some 0)
  | sign :: rest =>
    if sign = '+' ∨ sign = '-' then
      let parts :=
        match rest with
        | [a, b, ':', c, d] | [a, b, c, d] => some ([a, b], [c, d])
        | _ => none
      parts.bind fun (hours, minutes) => do
        let h ← digitsValue? hours
        let m ← digitsValue? minutes
        if 59 < m ∨ 23 < h then none
        else
          let n : Int := h * 60 + m
          return some (if sign = '-' then -n else n)
    else none

/-- A count of seconds written with digits, a sign and a fraction. -/
def readCount? (s : List Char) : Option Int :=
  let (negative, body) :=
    match s with
    | '-' :: rest => (true, rest)
    | '+' :: rest => (false, rest)
    | _ => (false, s)
  let whole := body.takeWhile (· ≠ '.')
  let value :=
    match body.drop whole.length with
    | [] => (digitsValue? whole).map (· * 1000000)
    | _ :: fraction => do
      let n ← digitsValue? whole
      let _ ← digitsValue? fraction
      return n * 1000000 + microsOf fraction
  value.map (Decimal.signed negative)

/-- An instant from its text: date and time with a `T` or a blank between them, a date alone for its
midnight, or a count of seconds. -/
def ofText? (s : String) : Option Instant :=
  let whole := s.toList
  let dated : Option Instant := do
    let ((year, month, day), rest) ← readDate? whole
    match rest with
    | [] => return ⟨year, month, day, 0, 0, 0, 0, none⟩
    | sep :: h1 :: h2 :: ':' :: n1 :: n2 :: rest =>
      if sep = 'T' ∨ sep = 't' ∨ sep = ' ' ∨ sep = '_' then
        let hour ← digitsValue? [h1, h2]
        let minute ← digitsValue? [n1, n2]
        if 23 < hour ∨ 59 < minute then none
        else
          let ((second, micro), rest) ← readSeconds? rest
          let offset ← readOffset? rest
          return ⟨year, month, day, hour, minute, second, micro, offset⟩
      else none
    | _ => none
  dated <|> (readCount? whole).bind ofCount?

/-- The offset at the end of the text: `Z` for universal time. -/
def offsetText : Option Int → String
  | none => ""
  | some n =>
    if n = 0 then "Z"
    else
      (if n < 0 then "-" else "+") ++ Text.padded 10 2 (n.natAbs / 60) ++ ":" ++
        Text.padded 10 2 (n.natAbs % 60)

/-- Date and time up to the second, with a character between them. -/
def clockText (between : String) (t : Instant) : String :=
  Text.padded 10 4 t.year ++ "-" ++ Text.padded 10 2 t.month ++ "-" ++ Text.padded 10 2 t.day ++
    between ++ Text.padded 10 2 t.hour ++ ":" ++ Text.padded 10 2 t.minute ++ ":" ++
    Text.padded 10 2 t.second

def fractionText (t : Instant) : String :=
  if t.micro = 0 then "" else "." ++ Text.padded 10 6 t.micro

def text (t : Instant) : String := clockText "T" t ++ fractionText t ++ offsetText t.offset

end Instant
end AssetCompiler
