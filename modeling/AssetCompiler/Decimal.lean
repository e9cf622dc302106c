import AssetCompiler.Json.Basic
import AssetCompiler.Text.Digit

/-!
Decimal fractions: their plain form, whole values and text.
-/
namespace AssetCompiler.Decimal

/-- Takes the zeros off the end of the digits; `fuel` bounds their number. -/
def dropZeros : Nat → Nat → Int → Nat × Int
  | 0, digits, exponent => (digits, exponent)
  | fuel + 1, digits, exponent =>
    if digits ≠ 0 ∧ digits % 10 = 0 then dropZeros fuel (digits / 10) (exponent + 1)
    else (digits, exponent)

/-- The same value without zeros at the end of its digits; zero has the exponent zero. -/
def plain (d : Decimal) : Decimal :=
  if d.digits = 0 then ⟨d.negative, 0, 0⟩
  else
    let (digits, exponent) := dropZeros (Nat.toDigits 10 d.digits).length d.digits d.exponent
    ⟨d.negative, digits, exponent⟩

def powerOfTen (n : Nat) : Nat := Nat.pow 10 n

def signed (negative : Bool) (n : Nat) : Int := if negative then -(n : Int) else n

/-- Beyond this power of ten a fraction counts as infinite. -/
def largestPower : Nat := 309

/-- Whether the value is too large for a number with a fraction. -/
def isHuge (d : Decimal) : Bool :=
  let p := d.plain
  p.digits ≠ 0 && largestPower < p.exponent + (Nat.toDigits 10 p.digits).length

/-- The value, where it is a whole number. -/
def whole? (d : Decimal) : Option Int :=
  let p := d.plain
  if p.exponent < 0 then none else some (signed p.negative (p.digits * powerOfTen p.exponent.toNat))

/-- The value in units of `10 ^ -places`, the nearest number of them, a half going to the even
one. -/
def scaled (places : Nat) (d : Decimal) : Int :=
  let p := d.plain
  let e := p.exponent + places
  if 0 ≤ e then signed p.negative (p.digits * powerOfTen e.toNat)
  else
    let unit := powerOfTen (-e).toNat
    let low := p.digits / unit
    let twice := 2 * (p.digits % unit)
    let n := if twice < unit ∨ (twice = unit ∧ low % 2 = 0) then low else low + 1
    signed p.negative n

/-- Positional text with at least one digit on each side of the point; very large and very small
values have one digit before the point and an exponent of at least two digits. -/
def text (d : Decimal) : String :=
  let p := d.plain
  let ds := Nat.toDigits 10 p.digits
  let point : Int := ds.length + p.exponent
  let body : List Char :=
    if p.digits = 0 then ['0', '.', '0']
    else if -4 < point ∧ point ≤ 16 then
      if point ≤ 0 then '0' :: '.' :: List.replicate (-point).toNat '0' ++ ds
      else if ds.length ≤ point.toNat then
        ds ++ List.replicate (point.toNat - ds.length) '0' ++ ['.', '0']
      else ds.take point.toNat ++ '.' :: ds.drop point.toNat
    else
      let e := point - 1
      ds.take 1 ++ (if ds.length ≤ 1 then [] else '.' :: ds.drop 1) ++
        ['e', if e < 0 then '-' else '+'] ++ (Text.padded 10 2 e.natAbs).toList
  String.ofList (if p.negative then '-' :: body else body)

end AssetCompiler.Decimal
