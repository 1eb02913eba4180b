import KeypadCalc.Expression.Error

/-!
The four operations of arithmetic: how tightly they bind, how they are written, and what they do.
Only a division can fail.
-/
namespace KeypadCalc

inductive BinaryOp where
  | add
  | sub
  | mul
  | div
deriving DecidableEq, Repr

namespace BinaryOp

/-- Multiplication and division bind more tightly than addition and subtraction. -/
def precedence : BinaryOp → Nat
  | .add | .sub => 1
  | .mul | .div => 2

/-- The character of plain arithmetic. -/
def symbol : BinaryOp → Char
  | .add => '+'
  | .sub => '-'
  | .mul => '*'
  | .div => '/'

/-- The character that the keypad shows. -/
def glyph : BinaryOp → Char
  | .add => '+'
  | .sub => '-'
  | .mul => 'x'
  | .div => '/'

/-- The exact result. -/
def apply (o : BinaryOp) (a b : Rat) : Except EvalError Rat :=
  match o with
  | .add => .ok (a + b)
  | .sub => .ok (a - b)
  | .mul => .ok (a * b)
  | .div => if b = 0 then .error .divisionByZero else .ok (a / b)

end BinaryOp
end KeypadCalc
