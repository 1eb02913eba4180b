import KeypadCalc.Expression.Token

/-!
From infix to postfix order, and the value of a token list in postfix order. Operators wait on a
stack until an operator that binds no more tightly, a closing parenthesis or the end releases them,
so operators of the same precedence associate to the left. A minus that does not follow a value
subtracts from zero.
-/
namespace KeypadCalc.Postfix

/-- What waits on the stack while a token list is put into postfix order. -/
inductive Waiting where
  | op (operator : BinaryOp)
  | opening
deriving DecidableEq, Repr

/-- Takes from the stack the operators that bind at least as tightly as `o`, down to the first
opening parenthesis. -/
def release (o : BinaryOp) : List Waiting → List Token × List Waiting
  | .op p :: stack =>
    if o.precedence ≤ p.precedence then
      let (released, kept) := release o stack
      (.op p :: released, kept)
    else ([], .op p :: stack)
  | stack => ([], stack)

/-- Takes everything down to the nearest opening parenthesis, and that parenthesis; `none` if
there is none. -/
def close? : List Waiting → Option (List Token × List Waiting)
  | [] => none
  | .opening :: stack => some ([], stack)
  | .op p :: stack => do
    let (released, kept) ← close? stack
    return (.op p :: released, kept)

/-- Takes the whole stack, in which no parenthesis may be open. -/
def drain : List Waiting → Except EvalError (List Token)
  | [] => .ok []
  | .op p :: stack => do return .op p :: (← drain stack)
  | .opening :: _ => .error .unbalanced

/-- The postfix form of the tokens still to be read, where `stack` waits and `afterValue` tells
whether a number or a closing parenthesis came just before. -/
def arrange (stack : List Waiting) (afterValue : Bool) : List Token → Except EvalError (List Token)
  | [] => drain stack
  | .number r :: rest =>
    if afterValue then .error .malformed
    else do return .number r :: (← arrange stack true rest)
  | .opening :: rest => arrange (.opening :: stack) false rest
  | .closing :: rest =>
    match close? stack with
    | none => .error .unbalanced
    | some (released, kept) => do return released ++ (← arrange kept true rest)
  | .op o :: rest => do
    let zero := if o = .sub && !afterValue then [Token.number 0] else []
    let (released, kept) := release o stack
    return zero ++ released ++ (← arrange (.op o :: kept) false rest)

/-- The postfix form of an infix token list. -/
def ofInfix (tokens : List Token) : Except EvalError (List Token) :=
  arrange [] false tokens

/-- The value of a postfix token list read with `stack` as the operands so far, last one first.
One operand must be left at the end. -/
def reduce : List Rat → List Token → Except EvalError Rat
  | [v], [] => .ok v
  | _, [] => .error .malformed
  | stack, .number r :: rest => reduce (r :: stack) rest
  | b :: a :: stack, .op o :: rest =>
    match o.apply a b with
    | .ok v => reduce (v :: stack) rest
    | .error e => .error e
  | _, .op _ :: _ => .error .malformed
  | _, .opening :: _ => .error .unbalanced
  | _, .closing :: _ => .error .unbalanced

/-- The value of a postfix token list. -/
def value (tokens : List Token) : Except EvalError Rat :=
  reduce [] tokens

end KeypadCalc.Postfix
