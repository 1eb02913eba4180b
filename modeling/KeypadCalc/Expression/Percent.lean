import KeypadCalc.Expression.Token

/-!
The written forms that only the keypad knows, put into plain arithmetic: `x` multiplies, and a
number followed by a percent sign is that number divided by one hundred.
-/
namespace KeypadCalc.Text

/-- Writes `(n/100)` for every number `n` followed by a percent sign. The digits and points read
last wait in `run`, newest first, until it is known what follows them. -/
def expandPercents (run : Text) : Text → Text
  | [] => run.reverse
  | c :: rest =>
    if Token.isNumeral c then expandPercents (c :: run) rest
    else if c = '%' && !run.isEmpty then
      ['('] ++ run.reverse ++ ['/', '1', '0', '0', ')'] ++ expandPercents [] rest
    else run.reverse ++ [c] ++ expandPercents [] rest

/-- The text without blanks and with `*` for `x`. -/
def dense (s : Text) : Text :=
  (compact s).map fun c => if c = 'x' then '*' else c

/-- An expression of the keypad in plain arithmetic. -/
def arithmetic (s : Text) : Text :=
  if '%' ∈ dense s then expandPercents [] (dense s) else dense s

end KeypadCalc.Text
