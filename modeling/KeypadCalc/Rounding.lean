/-!
Rounding a rational number to an integer. The nearest integer is taken; only for a number halfway
between two integers there is a choice, which `Tie` names.
-/
namespace KeypadCalc

/-- Where a number halfway between two integers goes. -/
inductive Tie where
  | toEven
  | awayFromZero
deriving DecidableEq, Repr

/-- The integer nearest to `q`. -/
def roundNearest (tie : Tie) (q : Rat) : Int :=
  let low := q.floor
  let excess := q - low
  if excess < 1 / 2 then low
  else if 1 / 2 < excess then low + 1
  else
    match tie with
    | .toEven => if low % 2 = 0 then low else low + 1
    | .awayFromZero => if 0 ≤ q then low + 1 else low

end KeypadCalc
