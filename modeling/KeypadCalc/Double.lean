import KeypadCalc.Decimal.Literal
import KeypadCalc.Rounding

/-!
Double precision numbers as the exact rational numbers that they are. `Double.nearest` rounds a
rational number to 53 significant binary digits, an exact half to the even neighbour, with the
fixed spacing `2 ^ (-1074)` near zero and infinity from `2 ^ 1024` on. Zero has no sign here,
since nothing that is shown depends on it.
-/
namespace KeypadCalc

inductive Double where
  | finite (value : Rat)
  | infinite (negative : Bool)
  | nan
deriving DecidableEq, Repr

/-- The power of two with exponent `k`. -/
def powerOfTwo (k : Int) : Rat :=
  mkRat (Nat.pow 2 k.toNat) (Nat.pow 2 (-k).toNat)

/-- The distance from zero. -/
def magnitude (r : Rat) : Rat :=
  if r < 0 then -r else r

namespace Double

/-- The exponent `e` with `2 ^ e ≤ |r| < 2 ^ (e + 1)`, for `r` other than zero. The quotient of
two numbers with `a` and `b` binary digits lies within a factor of two of `2 ^ (a - b)`. -/
def binaryExponent (r : Rat) : Int :=
  let guess : Int := (r.num.natAbs.log2 : Int) - (r.den.log2 : Int)
  if powerOfTwo guess ≤ magnitude r then guess else guess - 1

/-- The distance between neighbouring doubles around `r`. -/
def spacing (r : Rat) : Rat :=
  powerOfTwo (max (binaryExponent r - 52) (-1074))

/-- The double nearest to `r`. -/
def nearest (r : Rat) : Double :=
  if r = 0 then .finite 0
  else
    let value := roundNearest .toEven (r / spacing r) * spacing r
    if powerOfTwo 1024 ≤ magnitude value then .infinite (decide (r < 0)) else .finite value

/-- The double with the given 64 bits: a sign, eleven bits of exponent and 52 of fraction. -/
def ofBits (bits : BitVec 64) : Double :=
  let negative := decide (Nat.pow 2 63 ≤ bits.toNat)
  let exponent : Nat := bits.toNat / Nat.pow 2 52 % Nat.pow 2 11
  let fraction : Nat := bits.toNat % Nat.pow 2 52
  let signed (r : Rat) : Double := .finite (if negative then -r else r)
  if exponent = 2047 then
    if fraction = 0 then .infinite negative else .nan
  else if exponent = 0 then signed ((fraction : Rat) * powerOfTwo (-1074))
  else signed (((Nat.pow 2 52 + fraction : Nat) : Rat) * powerOfTwo ((exponent : Int) - 1075))

/-- The double nearest to a decimal literal. -/
def ofText? (s : Text) : Option Double :=
  (Literal.value? s).map nearest

end Double
end KeypadCalc
