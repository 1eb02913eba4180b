import KeypadCalc.Proofs.Arrangement

/-!
# Counting operands

A number puts one operand on the stack of the reduction, an operator replaces two by one, and at the end
one operand is left, since a list that has a value lists a tree: its balance is one. Reordering keeps the balance,
apart from the zeros that are written for a minus without a left operand. What the reduction says about
the postfix list is therefore known from the infix list alone.
-/
namespace KeypadCalc

open Postfix

/-- How a token in postfix order changes the number of operands on the stack. -/
def Token.gain : Token → Int
  | .number _ => 1
  | .op _ => -1
  | _ => 0

namespace Postfix

def balance : List Token → Int
  | [] => 0
  | t :: tokens => t.gain + balance tokens

theorem balance_append (left right : List Token) :
    balance (left ++ right) = balance left + balance right := by
  induction left with
  | nil => rw [List.nil_append, balance, Int.zero_add]
  | cons t left ih => rw [List.cons_append, balance, balance, ih, Int.add_assoc]

/-- The balance of what still waits. -/
def waitingBalance : List Waiting → Int
  | [] => 0
  | .op _ :: stack => -1 + waitingBalance stack
  | .opening :: stack => waitingBalance stack

/-- A list that has a value lists a tree, and a tree leaves one operand. -/
theorem balance_of_value {tokens : List Token} {v : Rat} (h : value tokens = .ok v) :
    balance tokens = 1 := by
  have htree (t : ExprTree) : balance t.postOrder = 1 := by
    induction t with
    | number r => rfl
    | node o left right ihl ihr =>
      rw [ExprTree.postOrder, balance_append, balance_append, ihl, ihr]
      rfl
  obtain ⟨t, rfl, -⟩ := ExprTree.exists_of_value h
  exact htree t

theorem balance_ops (ops : List BinaryOp) : balance (ops.map Token.op) = -(ops.length : Int) := by
  induction ops with
  | nil => rfl
  | cons o ops ih =>
    rw [List.map_cons, balance, ih, Token.gain, List.length_cons]
    omega

theorem waitingBalance_ops (ops : List BinaryOp) (stack : List Waiting) :
    waitingBalance (ops.map Waiting.op ++ stack) = -(ops.length : Int) + waitingBalance stack := by
  induction ops with
  | nil => simp
  | cons o ops ih =>
    rw [List.map_cons, List.cons_append, waitingBalance, ih, List.length_cons]
    omega

/-- The balance of an infix list, with the zeros that will be written; `afterValue` tells whether a
value came just before. -/
def surplus : Bool → List Token → Int
  | _, [] => 0
  | _, .number _ :: rest => 1 + surplus true rest
  | afterValue, .op o :: rest => (if o = .sub && !afterValue then 1 else 0) - 1 + surplus false rest
  | _, .opening :: rest => surplus false rest
  | _, .closing :: rest => surplus true rest

theorem arrange_balance {stack : List Waiting} {afterValue : Bool} {tokens out : List Token}
    (h : arrange stack afterValue tokens = .ok out) :
    balance out = surplus afterValue tokens + waitingBalance stack := by
  replace h := arranges_of_arrange h
  induction h with
  | done afterValue ops =>
    have hwaiting := waitingBalance_ops ops []
    rw [List.append_nil, waitingBalance] at hwaiting
    rw [balance_ops, surplus, hwaiting]
    omega
  | number r h ih =>
    simp only [balance, Token.gain, surplus]
    omega
  | opening afterValue h ih => simpa [waitingBalance, surplus] using ih
  | closing ops afterValue h ih =>
    rw [balance_append, balance_ops, waitingBalance_ops, waitingBalance, surplus]
    omega
  | op o released afterValue h ih =>
    rw [waitingBalance] at ih
    rw [balance_append, balance_append, balance_ops, waitingBalance_ops, surplus]
    split <;> simp only [balance, Token.gain] <;> omega

end Postfix
end KeypadCalc
