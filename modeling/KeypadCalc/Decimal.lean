import KeypadCalc.Rounding
import KeypadCalc.Text

/-!
Decimal numbers with at most eight places after the point, the only numbers that the calculator
writes. A decimal is an integer count of units of the last place, so it has one written form: an
optional minus, an integer part without superfluous zeros and, if needed, a point followed by
places that do not end in zero. Zero has no sign.
-/
namespace KeypadCalc

/-- Places after the point. -/
def decimalPlaces : Nat := 8

/-- Units of the last place in one. -/
def unitsPerOne : Nat := Nat.pow 10 decimalPlaces

/-- A multiple of `10 ^ (-8)`. -/
structure Decimal where
  units : Int
deriving DecidableEq, Repr

namespace Decimal

def toRat (d : Decimal) : Rat :=
  mkRat d.units unitsPerOne

/-- The decimal nearest to `r`. -/
def round (tie : Tie) (r : Rat) : Decimal :=
  ⟨roundNearest tie (r * unitsPerOne)⟩

/-- The point and the places after it for a number of units below one; nothing for an integer. -/
def placesText (units : Nat) : Text :=
  if units = 0 then []
  else '.' :: Text.dropEndWhile (· = '0') ((Nat.toDigits 10 units).leftpad decimalPlaces '0')

def render (d : Decimal) : Text :=
  (if d.units < 0 then ['-'] else [])
    ++ Nat.toDigits 10 (d.units.natAbs / unitsPerOne)
    ++ placesText (d.units.natAbs % unitsPerOne)

end Decimal

/-- The shortest text of an integer. -/
def integerText (n : Int) : Text :=
  (if n < 0 then ['-'] else []) ++ Nat.toDigits 10 n.natAbs

/-- The text of an exact result: an integer as it is, anything else rounded to eight places, halves
away from zero. -/
def resultText (r : Rat) : Text :=
  if r.den = 1 then integerText r.num
  else (Decimal.round .awayFromZero r).render

end KeypadCalc
