import KeypadCalc.Decimal
import KeypadCalc.Double

/-!
How a double is shown: with eight places, an exact half rounded to the even last place, and then
without the zeros at the end. What is too large to be shown becomes the infinity sign, without its
sign, and what is closer to zero than any number of interest becomes zero.
-/
namespace KeypadCalc.Double

/-- Beyond this distance from zero a number is shown as infinite. -/
def overflowThreshold : Rat := 1000000000000000

/-- Within this distance from zero a number is shown as zero. -/
def underflowThreshold : Rat := 1 / 1000000000000000

/-- The number with all its places. A number below zero keeps its minus even if only zeros are
left of it. -/
def fixedText (value : Rat) : Text :=
  let units := (Decimal.round .toEven value).units.natAbs
  (if value < 0 then ['-'] else [])
    ++ Nat.toDigits 10 (units / unitsPerOne)
    ++ '.' :: (Nat.toDigits 10 (units % unitsPerOne)).leftpad decimalPlaces '0'

/-- Removes the zeros at the end of a text with a point, and then the point if it is the end. -/
def stripZeros (s : Text) : Text :=
  if '.' ∈ s then Text.dropEndWhile (· = '.') (Text.dropEndWhile (· = '0') s) else s

/-- Zero has no sign. -/
def dropZeroSign (s : Text) : Text :=
  if s = ['-', '0'] then ['0'] else s

def displayText : Double → Text
  | .nan => ['-', '∞']
  | .infinite negative => if negative then ['-', '∞'] else ['∞']
  | .finite value =>
    if overflowThreshold < magnitude value then ['∞']
    else if value ≠ 0 && magnitude value < underflowThreshold then ['0']
    else dropZeroSign (stripZeros (fixedText value))

end KeypadCalc.Double
