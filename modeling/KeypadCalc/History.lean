import KeypadCalc.Text

/-!
The history of calculations: newest first, and never more than its capacity, which is at least one.
-/
namespace KeypadCalc

namespace History

/-- A finished calculation, both texts in their stored form. -/
structure Entry where
  expression : Text
  result : Text
deriving DecidableEq, Repr

/-- The longest expression that an entry keeps. -/
def expressionLimit : Nat := 30

/-- The longest result that an entry keeps. -/
def resultLimit : Nat := 20

end History

structure History where
  capacity : Nat
  entries : List History.Entry := []
deriving DecidableEq, Repr

namespace History

/-- An empty history; a capacity of zero counts as one. The room for all entries is reserved at
once, so a capacity for which there is no memory ends the program; that is left out here. -/
def empty (capacity : Nat) : History :=
  { capacity := max capacity 1 }

/-- Puts an entry in front and drops the oldest one if there are too many. -/
def add (h : History) (entry : Entry) : History :=
  { h with entries := (entry :: h.entries).take h.capacity }

def clear (h : History) : History :=
  { h with entries := [] }

end History
end KeypadCalc
