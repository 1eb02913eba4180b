import KeypadCalc.Text

/-!
Reading decimal literals exactly. The digits before and after the point are read together as one
integer, and the point divides it by a power of ten: `12.5` is 125/10. The reader is more generous
than an expression needs: it takes a sign in front of the first digit and underscores after it.
-/
namespace KeypadCalc.Literal

/-- A natural number: digits and underscores, a digit first. -/
def natural? (s : Text) : Option Nat :=
  match s with
  | [] => none
  | c :: _ =>
    if c = '_' || s.any (fun d => !(d.isDigit || d = '_')) then none
    else some (Nat.ofDigitChars 10 (s.filter Char.isDigit) 0)

/-- A natural number that may have a plus in front. -/
def unsigned? : Text → Option Nat
  | '+' :: rest => natural? rest
  | s => natural? s

/-- An integer: a minus is not followed by a plus. -/
def integer? : Text → Option Int
  | '-' :: rest => (natural? rest).map fun n => -(n : Int)
  | s => (unsigned? s).map Int.ofNat

/-- The exact value of a literal with at most one point and something on one side of it. The program
counts the places in 32 bits, so this is its value for fewer than `2 ^ 32` of them; an expression
that is evaluated has at most `evaluationLimit` characters. -/
def value? (s : Text) : Option Rat :=
  let whole := s.takeWhile (· ≠ '.')
  let places := (s.dropWhile (· ≠ '.')).drop 1
  if '.' ∈ places || (whole.isEmpty && places.isEmpty) then none
  else (integer? (whole ++ places)).map fun n => mkRat n (Nat.pow 10 places.length)

end KeypadCalc.Literal
