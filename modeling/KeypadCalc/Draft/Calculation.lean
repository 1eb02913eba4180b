import KeypadCalc.Double.Display
import KeypadCalc.Draft
import KeypadCalc.Expression
import KeypadCalc.History

/-!
The calculation that the key for equals asks for. The text of the draft is evaluated exactly; its
result is read back as a double, and that double is what the display shows and the history keeps.
-/
namespace KeypadCalc

/-- What the user is told when a calculation fails. -/
inductive CalculationError where
  | invalidExpression
  | invalidResult
  | internal (detail : Text)
deriving DecidableEq, Repr

def CalculationError.message : CalculationError → Text
  | .invalidExpression => "Invalid expression".toList
  | .invalidResult => "Invalid result".toList
  | .internal detail => detail

namespace Draft

/-- What is evaluated: the expression, completed by the display where its last operand is missing
or where nothing was typed. -/
def toEvaluate (d : Draft) : Text :=
  if d.expression.endsWithOperator then d.expression ++ d.display
  else if d.expression.isEmpty then d.display
  else d.expression

/-- The draft after a calculation, which shows its result. -/
def afterResult (shown : Text) : Draft :=
  { display := shown, lastKey := some .equals, justComputed := true }

/-- The history entry of a calculation. -/
def entry (evaluated shown : Text) : History.Entry where
  expression := Text.forStorage History.expressionLimit (Text.normalizeBlanks evaluated)
  result := Text.forStorage History.resultLimit shown

/-- What a calculation shows: the result of the text without its blanks, read back as a double.
There is nothing to show if there is nothing to evaluate. -/
def calculate (d : Draft) : Except CalculationError (Option Text) :=
  if d.toEvaluate.trim.isEmpty then .ok none
  else
    let text := Expression.resultOrInvalid d.toEvaluate.compact
    if text = Expression.invalidInput then .error .invalidExpression
    else
      match Double.ofText? text with
      | none =>
        .error (.internal
          ("résultat illisible (".toList ++ text ++ "): invalid float literal".toList))
      | some number =>
        if number.displayText.hasMarkup then .error .invalidResult
        else .ok (some number.displayText)

end Draft
end KeypadCalc
