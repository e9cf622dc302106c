import AssetCompiler.Failure
import AssetCompiler.Text.Blank
import AssetCompiler.Text.Case

/-!
Sizes such as `10MB`: decimal digits of any script, blanks, and a unit in any case.
-/
namespace AssetCompiler.Text

def unitBytes? (unit : String) : Option Nat :=
  [("B", 1), ("KB", 1024), ("MB", 1024 * 1024), ("GB", 1024 * 1024 * 1024)].lookup unit

def digitLimit : Nat := 4300

/-- The number of bytes that a size text names. The unit is found by its lower case, but its factor
by its upper case, and these two disagree on one letter. -/
def parseSize (s : String) : Except Failure Nat :=
  let body := trim s.toList
  let digits := body.takeWhile isDigit
  let unit := (body.drop digits.length).dropWhile isBlank
  if digits.isEmpty ||
      !(["b", "kb", "mb", "gb"].contains (String.ofList (unit.map lowerChar))) then
    .error (.badValue (.badSize s))
  else if digitLimit < digits.length then .error (.badValue (.tooManyDigits digits.length))
  else
    let name := String.ofList (upper unit)
    match unitBytes? name with
    | some factor => .ok (numberOf digits * factor)
    | none => .error (.missingKey name)

end AssetCompiler.Text
