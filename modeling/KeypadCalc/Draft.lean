import KeypadCalc.Expression.Admission
import KeypadCalc.Key

/-!
What is being typed: the expression so far, the operand on the display, and what the keys before
have left behind. Each key that types something is a partial function on drafts, `none` when the
key is refused; a refused key changes nothing. A new text is accepted if it is short enough and
contains no forbidden word; one that is too long is still accepted if it is not longer than the one
before, so that a long result can be edited.
-/
namespace KeypadCalc

structure Draft where
  expression : Text := []
  display : Text := []
  lastKey : Option Key := none
  /-- The display shows a result that nothing has been done with yet. -/
  justComputed : Bool := false
  /-- An operator was typed last, and its right operand has not begun. -/
  awaitingOperand : Bool := false
deriving DecidableEq, Repr

namespace Draft

/-- Whether a text may take the place of another one. -/
def mayReplace (valid : Text → Bool) (old new : Text) : Bool :=
  valid new || (!new.hasForbidden && decide (new.length ≤ old.length))

/-- Replaces the draft, if both its texts may be replaced. -/
def accept (old new : Draft) : Option Draft :=
  if mayReplace Text.isDisplayable old.display new.display
      && mayReplace Text.isTypable old.expression new.expression then
    some new
  else none

/-- The text without the number at its end. -/
def dropNumeral (s : Text) : Text :=
  Text.dropEndWhile Token.isNumeral s

def endsWithNumeral (s : Text) : Bool :=
  s.getLast?.any Token.isNumeral

/-- Whether the next digit begins an operand: after a result, after an operator, or in place of a
zero. -/
def beginsOperand (d : Draft) : Bool :=
  d.lastKey = some .equals || d.display = ['0'] || d.justComputed || d.awaitingOperand

/-- The expression with a zero at its end taken away. -/
def dropZero (s : Text) : Text :=
  if s.getLast? = some '0' then s.dropLast else s

/-- A digit is refused when the display is full, even one that would begin a new operand. -/
def typeDigit (value : Nat) (d : Draft) : Option Draft :=
  if 9 < value then none
  else if displayLimit ≤ d.display.length then none
  else
    let c := Nat.digitChar value
    d.accept {
      display := if d.beginsOperand then [c] else d.display ++ [c]
      expression :=
        if d.awaitingOperand then d.expression ++ [c]
        else if d.justComputed || d.lastKey = some .equals then [c]
        else if d.display = ['0'] then dropZero d.expression ++ [c]
        else d.expression ++ [c]
      lastKey := some (.digit value) }

/-- A point begins an operand as `0.`; within an operand only the first one is accepted. -/
def typePoint (d : Draft) : Option Draft :=
  if d.justComputed || d.awaitingOperand then
    let glued := d.expression.isEmpty || d.lastKey = some .equals
      || d.expression.getLast?.any isBlank
    d.accept {
      display := ['0', '.']
      expression := d.expression ++ (if glued then ['0', '.'] else [' ', '0', '.'])
      lastKey := some .point }
  else if '.' ∈ d.display then none
  else
    d.accept {
      display := d.display ++ ['.']
      expression := d.expression ++ ['.']
      lastKey := some .point }

/-- An operator takes the place of one just typed; with nothing typed it continues from the
display. It stands between two spaces. -/
def typeOperator (o : BinaryOp) (d : Draft) : Option Draft :=
  let left :=
    if d.expression.endsWithOperator then Text.trimEnd (Text.trimEnd d.expression).dropLast
    else if d.expression.isEmpty then d.display
    else d.expression
  d.accept { d with
    expression := left ++ [' ', o.glyph, ' ']
    lastKey := some (.op o)
    justComputed := false
    awaitingOperand := true }

/-- A percent sign without an operand takes the display as its operand, or zero if that is
empty. -/
def typePercent (d : Draft) : Option Draft :=
  let operand :=
    if d.expression.isEmpty || d.expression.endsWithOperator then
      if d.display.isEmpty then ['0'] else d.display
    else []
  d.accept { d with
    expression := d.expression ++ operand ++ ['%']
    lastKey := some .percent
    justComputed := false
    awaitingOperand := false }

/-- Takes back the last character of the display and of the expression. While an operand is
awaited the operator stays. -/
def backspace (d : Draft) : Option Draft :=
  if d.display.isEmpty then none
  else
    let trimmed := d.expression.trimEnd
    d.accept {
      display := d.display.dropLast
      expression :=
        if d.awaitingOperand then
          if endsWithNumeral trimmed then dropNumeral trimmed else d.expression
        else d.expression.dropLast
      lastKey := some .backspace }

/-- Takes away the number at the end of the expression, and empties the display. -/
def clearEntry (d : Draft) : Draft :=
  { d with
    display := []
    expression := dropNumeral d.expression
    justComputed := false
    awaitingOperand := false }

end Draft
end KeypadCalc
