/-!
Quotients of whole numbers as doubles. A double has 53 binary digits. The quotient of two numbers
is the double nearest to it, of two that are equally near the one whose last digit is even.
-/
namespace AssetCompiler

/-- The number `significand / 2 ^ places`. -/
structure Double where
  significand : Nat
  places : Nat
  deriving DecidableEq, Repr

namespace Double

/-- The number of binary digits of a double. -/
def precision : Nat := 53

/-- The whole number nearest to a quotient, a half going to the even one. -/
def nearest (a b : Nat) : Nat :=
  let low := a / b
  let twice := 2 * (a % b)
  if twice < b ∨ (twice = b ∧ low % 2 = 0) then low else low + 1

/-- The binary places that a quotient of positive numbers has when it is written with as many
digits as a double has. -/
def placesOf (a b : Nat) : Nat :=
  let n := precision - 1 - a.log2 + b.log2
  if a <<< n < b <<< (precision - 1) then n + 1 else n

/-- The quotient of two positive numbers, the first of them below `2 ^ 53` and so a double itself. -/
def quotient (a b : Nat) : Double :=
  let n := placesOf a b
  ⟨nearest (a <<< n) b, n⟩

/-- Whether a double is greater than a whole number. The two are compared exactly. -/
def exceeds (x : Double) (m : Int) : Bool := decide (m * (1 <<< x.places : Nat) < x.significand)

end Double
end AssetCompiler
