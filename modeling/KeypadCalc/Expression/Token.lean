import KeypadCalc.Decimal
import KeypadCalc.Decimal.Literal
import KeypadCalc.Expression.Operator

/-!
Tokens of an arithmetic expression, their text, and the reader that finds them in a text. Numbers
are maximal runs of digits and points; blanks separate and are otherwise ignored.
-/
namespace KeypadCalc

inductive Token where
  | number (value : Rat)
  | op (operator : BinaryOp)
  | opening
  | closing
deriving DecidableEq, Repr

/-- The text of a rational number: the numerator, and the denominator unless it is one. -/
def ratText (r : Rat) : Text :=
  if r.den = 1 then integerText r.num
  else integerText r.num ++ ['/'] ++ Nat.toDigits 10 r.den

namespace Token

def text : Token → Text
  | .number r => ratText r
  | .op o => [o.symbol]
  | .opening => ['(']
  | .closing => [')']

/-- Tokens written one after the other, a space between two of them. -/
def listText (tokens : List Token) : Text :=
  [' '].intercalate (tokens.map text)

/-- The token that a single character stands for. -/
def ofChar? : Char → Option Token
  | '+' => some (.op .add)
  | '-' => some (.op .sub)
  | '*' => some (.op .mul)
  | '/' => some (.op .div)
  | '(' => some .opening
  | ')' => some .closing
  | _ => none

/-- The characters that numbers are made of. -/
def isNumeral (c : Char) : Bool :=
  c.isDigit || c = '.'

/-- The tokens of a text, or what is wrong with its first part that is no token. -/
def ofText : Text → Except EvalError (List Token)
  | [] => .ok []
  | c :: rest =>
    if isBlank c then ofText rest
    else
      match ofChar? c with
      | some token => do return token :: (← ofText rest)
      | none =>
        if isNumeral c then
          let run := c :: rest.takeWhile isNumeral
          match Literal.value? run with
          | some value => do return .number value :: (← ofText (rest.dropWhile isNumeral))
          | none => .error (.invalidNumber run)
        else .error (.unexpectedCharacter c)
termination_by s => s.length
decreasing_by
  all_goals simp only [List.length_cons]
  · omega
  · omega
  · exact Nat.lt_succ_of_le (List.dropWhile_sublist isNumeral).length_le

end Token
end KeypadCalc
