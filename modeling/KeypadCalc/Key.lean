import KeypadCalc.Expression.Token

/-!
The keys of the calculator. A button of the keypad and a key of the keyboard that mean the same
give the same `Key`; a name that stands for no key is ignored, it is not an error.
-/
namespace KeypadCalc

inductive Key where
  /-- The keypad has the digits up to nine; a larger value is a key that types nothing. -/
  | digit (value : Nat)
  | point
  | op (operator : BinaryOp)
  | percent
  | equals
  | backspace
  | clearEntry
  | clearAll
deriving DecidableEq, Repr

namespace Key

/-- The group of buttons that a key is drawn with. -/
inductive Group where
  | digit
  | operator
  | clearing
  | equals
  | percent
  | backspace
deriving DecidableEq, Repr

def group : Key → Group
  | .digit _ | .point => .digit
  | .op _ => .operator
  | .clearEntry | .clearAll => .clearing
  | .equals => .equals
  | .percent => .percent
  | .backspace => .backspace

/-- The text on the button. -/
def label : Key → Text
  | .digit value => Nat.toDigits 10 value
  | .point => ['.']
  | .op o => [o.glyph]
  | .percent => ['%']
  | .equals => ['=']
  | .backspace => ['⌫']
  | .clearEntry => ['C', 'E']
  | .clearAll => ['C']

/-- What a key with a cryptic label is called. -/
def accessibleName : Key → Option Text
  | .clearEntry => some "Clear Entry".toList
  | .clearAll => some "Clear All".toList
  | .backspace => some "Backspace".toList
  | _ => none

/-- Only these keys are accepted while a calculation is pending. -/
def isClearing : Key → Bool
  | .clearEntry | .clearAll => true
  | _ => false

/-- The keypad, row by row. -/
def grid : List (List Key) :=
  [[.percent, .clearEntry, .clearAll, .backspace],
    [.digit 7, .digit 8, .digit 9, .op .div],
    [.digit 4, .digit 5, .digit 6, .op .mul],
    [.digit 1, .digit 2, .digit 3, .op .add],
    [.point, .digit 0, .equals, .op .sub]]

/-- The names of keys, but for the digits: what is typed for them, what the keyboard calls them,
and what stands on the buttons. -/
def names : List (Text × Key) :=
  [(['+'], .op .add), (['-'], .op .sub), (['*'], .op .mul), (['x'], .op .mul), (['/'], .op .div),
    (['%'], .percent), (['.'], .point), ("Enter".toList, .equals), (['='], .equals),
    ("Backspace".toList, .backspace), (['⌫'], .backspace), ("Escape".toList, .clearAll),
    (['c'], .clearAll), (['C'], .clearAll), ("Delete".toList, .clearAll), (['C', 'E'], .clearEntry)]

/-- The key of a digit that stands alone. -/
def ofDigit? : Text → Option Key
  | [c] => if c.isDigit then some (.digit (c.toNat - '0'.toNat)) else none
  | _ => none

/-- The key that a typed text or the name of a keyboard key stands for. -/
def ofName? (name : Text) : Option Key :=
  match names.lookup name with
  | some key => some key
  | none => ofDigit? name

end Key
end KeypadCalc
