import KeypadCalc.Text

/-!
Which texts are admitted, and where. An expression keeps only the characters that an expression
can contain; before it is evaluated its shape is checked; while it is being typed only its length
and a list of forbidden words count.
-/
namespace KeypadCalc

/-- The longest expression that is evaluated. -/
def evaluationLimit : Nat := 100

/-- The longest expression that can be typed. -/
def expressionLimit : Nat := 50

/-- The longest operand that can be typed. -/
def displayLimit : Nat := 15

/-- Words that no typed text may contain, whatever their case. -/
def forbiddenWords : List String :=
  ["eval", "function", "constructor", "import", "require", "process", "window", "document"]

/-- Digits are the ten ASCII ones. -/
def isExpressionChar (c : Char) : Bool :=
  c.isDigit || c ∈ ['+', '-', 'x', '/', '*', '%', '.'] || isBlank c

def isOperatorChar (c : Char) : Bool :=
  c ∈ ['+', '-', 'x', '/', '*']

namespace Text

/-- Leaves out every character that an expression cannot contain. -/
def admitted (s : Text) : Text :=
  s.filter isExpressionChar

/-- Lower case of the ASCII letters. The search for forbidden words needs no other: outside ASCII
only U+212A and U+0130 have ASCII letters in their lower case, a `k`, which no such word contains,
and an `i` followed by U+0307, while no such word ends in `i`. -/
def toLower (s : Text) : Text :=
  s.map Char.toLower

/-- An angle bracket, or the word `script` in any case. -/
def hasMarkup (s : Text) : Bool :=
  s.any (fun c => c = '<' || c = '>') || includes "script".toList (toLower s)

/-- Markup, or a forbidden word in any case. -/
def hasForbidden (s : Text) : Bool :=
  hasMarkup s || forbiddenWords.any fun word => includes word.toList (toLower s)

/-- Whether the last character that is not blank is an operator of the keypad. -/
def endsWithOperator (s : Text) : Bool :=
  match (trimEnd s).getLast? with
  | some c => c ∈ ['+', '-', 'x', '/']
  | none => false

/-- Whether two operators follow each other directly. -/
def hasAdjacentOperators : Text → Bool
  | c :: d :: rest => (isOperatorChar c && isOperatorChar d) || hasAdjacentOperators (d :: rest)
  | _ => false

/-- What is asked of an expression before it is evaluated: some character that is not blank, at
most `evaluationLimit` characters, only expression characters, no forbidden word; blanks apart, no
two operators in a row, no operator at the end and none but a minus at the start; and, blanks
counted, neither two points nor two percent signs in a row. -/
def isEvaluable (s : Text) : Bool :=
  let trimmed := trim s
  let dense := compact trimmed
  !trimmed.isEmpty
    && decide (s.length ≤ evaluationLimit)
    && trimmed.all isExpressionChar
    && !hasForbidden trimmed
    && !hasAdjacentOperators dense
    && !(dense.head?.any fun c => c ∈ ['+', 'x', '/', '*'])
    && !(dense.getLast?.any isOperatorChar)
    && !includes ['.', '.'] trimmed
    && !includes ['%', '%'] trimmed

/-- What is asked of an expression that is being typed; it may be empty. -/
def isTypable (s : Text) : Bool :=
  decide (s.length ≤ expressionLimit) && !hasForbidden s

/-- What is asked of an operand on the display. -/
def isDisplayable (s : Text) : Bool :=
  decide (s.length ≤ displayLimit) && !hasForbidden s

end Text
end KeypadCalc
