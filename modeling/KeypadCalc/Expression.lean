import KeypadCalc.Decimal
import KeypadCalc.Double
import KeypadCalc.Expression.Admission
import KeypadCalc.Expression.Percent
import KeypadCalc.Expression.Postfix

/-!
From the text of an expression to the text of its result. Characters that no expression contains
are left out, the shape is checked, percent signs are expanded, and what remains is read into
tokens, put into postfix order and reduced to one exact rational number. No step rounds before the
result is written.
-/
namespace KeypadCalc

namespace Expression

/-- The exact value of an expression in plain arithmetic. -/
def arithmeticValue (s : Text) : Except EvalError Rat := do
  let tokens ← Token.ofText s
  let arranged ← Postfix.ofInfix tokens
  Postfix.value arranged

/-- The exact value of what `s` contains of an expression. -/
def value (s : Text) : Except EvalError Rat :=
  let kept := s.admitted
  if !kept.isEvaluable then .error .refused
  else if kept.arithmetic.isEmpty then .error .empty
  else arithmeticValue kept.arithmetic

/-- The result of an expression as text. A result beyond the range of doubles is refused. -/
def result (s : Text) : Except EvalError Text := do
  let text := resultText (← value s)
  match Double.ofText? text with
  | some (.finite _) => return text
  | _ => throw .notFinite

/-- What stands for the result of an expression that has none. -/
def invalidInput : Text := "invalid input".toList

/-- The text of the result, or `invalidInput`. -/
def resultOrInvalid (s : Text) : Text :=
  match result s with
  | .ok text => text
  | .error _ => invalidInput

end Expression
end KeypadCalc
