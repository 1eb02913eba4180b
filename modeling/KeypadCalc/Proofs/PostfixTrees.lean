import KeypadCalc.Proofs.Phrase

/-!
# Postfix lists as trees

A list in postfix order is read with a stack of operands, and whatever the list is like, the stack can hold
trees in place of their values. A list that has a value is therefore the post-order listing of a tree, and
reading the listing of a tree gives back that tree, so there is only one. What the reduction says about a
list is the value of its tree, or that a divisor in it is zero.
-/
namespace KeypadCalc

open Postfix

/-- An operator, once its two operands are on the stack. -/
theorem Postfix.reduce_op (o : BinaryOp) (a b : Rat) (stack : List Rat) (rest : List Token) :
    reduce (b :: a :: stack) (.op o :: rest) =
      if o = .div ∧ b = 0 then .error .divisionByZero else reduce (o.exact a b :: stack) rest := by
  by_cases h : o = .div ∧ b = 0
  · rw [if_pos h, h.1, h.2]
    rfl
  · rw [if_neg h, reduce, BinaryOp.apply_eq_exact h]

/-- Numbers combined by operators. -/
inductive ExprTree where
  | number (r : Rat)
  | node (o : BinaryOp) (left right : ExprTree)

namespace ExprTree

/-- Both operands of a node stand before its operator. -/
def postOrder : ExprTree → List Token
  | .number r => [.number r]
  | .node o left right => left.postOrder ++ right.postOrder ++ [.op o]

/-- The exact value, meaningful as long as nothing is divided by zero. -/
def value : ExprTree → Rat
  | .number r => r
  | .node o left right => o.exact left.value right.value

/-- Whether some divisor in the tree is zero. -/
def dividesByZero : ExprTree → Bool
  | .number _ => false
  | .node o left right =>
    left.dividesByZero || right.dividesByZero || (decide (o = .div) && decide (right.value = 0))

/-- A listing puts its value on the operand stack, whatever lies there and whatever follows, or the reduction
stops at the first division by zero. -/
theorem reduce_postOrder (t : ExprTree) (stack : List Rat) (rest : List Token) :
    reduce stack (t.postOrder ++ rest) =
      if t.dividesByZero then .error .divisionByZero else reduce (t.value :: stack) rest := by
  induction t generalizing stack rest with
  | number r => simp [postOrder, reduce, dividesByZero, value]
  | node o left right ihl ihr =>
    simp only [postOrder, List.append_assoc, ihl, ihr, List.cons_append, List.nil_append, reduce_op]
    cases hl : left.dividesByZero <;> cases hr : right.dividesByZero <;>
      simp [dividesByZero, value, hl, hr]

theorem value_postOrder (t : ExprTree) :
    Postfix.value t.postOrder = if t.dividesByZero then .error .divisionByZero else .ok t.value := by
  have h := t.reduce_postOrder [] []
  rwa [List.append_nil] at h

/-- The trees that a list leaves, read with `stack` as the trees so far, last one first; none if an operator
has no two trees before it, or if the list has a parenthesis. -/
def collect (stack : List ExprTree) : List Token → List ExprTree
  | [] => stack
  | .number r :: tokens => collect (.number r :: stack) tokens
  | .op o :: tokens =>
    match stack with
    | right :: left :: stack => collect (.node o left right :: stack) tokens
    | _ => []
  | _ => []

theorem collect_postOrder (t : ExprTree) (stack : List ExprTree) (rest : List Token) :
    collect stack (t.postOrder ++ rest) = collect (t :: stack) rest := by
  induction t generalizing stack rest with
  | number r => rfl
  | node o left right ihl ihr =>
    rw [postOrder, List.append_assoc, List.append_assoc, ihl, ihr]
    rfl

/-- A listing determines its tree. -/
theorem postOrder_injective {s t : ExprTree} (h : s.postOrder = t.postOrder) : s = t := by
  have hread (t : ExprTree) : collect [] t.postOrder = [t] := by
    have hcollect := t.collect_postOrder [] []
    rwa [List.append_nil] at hcollect
  have hsame : [s] = [t] := by rw [← hread s, h, hread t]
  exact List.head_eq_of_cons_eq hsame

/-- A reduction that succeeds reads the listing of a tree. The invariant is that the operands are the values of
trees in which nothing is divided by zero, and that these trees have been listed so far, the first one last on
the stack. -/
theorem exists_postOrder {tokens : List Token} {v : Rat} (trees : List ExprTree)
    (hsafe : ∀ t ∈ trees, t.dividesByZero = false) (h : reduce (trees.map value) tokens = .ok v) :
    ∃ t : ExprTree, t.postOrder = trees.reverse.flatMap postOrder ++ tokens ∧ t.dividesByZero = false ∧
      t.value = v := by
  induction tokens generalizing trees with
  | nil =>
    match trees, h with
    | [t], h =>
      exact ⟨t, by simp, hsafe t List.mem_cons_self, Except.ok.inj h⟩
  | cons token tokens ih =>
    match token, trees, h with
    | .number r, trees, h =>
      rw [reduce] at h
      obtain ⟨t, hlisting, ht⟩ := ih (.number r :: trees) (List.forall_mem_cons.mpr ⟨rfl, hsafe⟩) h
      exact ⟨t, by simpa [postOrder] using hlisting, ht⟩
    | .op o, right :: left :: trees, h =>
      obtain ⟨hright, hsafe⟩ := List.forall_mem_cons.mp hsafe
      obtain ⟨hleft, hsafe⟩ := List.forall_mem_cons.mp hsafe
      rw [List.map_cons, List.map_cons, reduce_op] at h
      split at h
      · cases h
      · rename_i hdivisor
        have hnode : (node o left right).dividesByZero = false := by
          simpa [dividesByZero, hleft, hright] using hdivisor
        obtain ⟨t, hlisting, ht⟩ := ih (.node o left right :: trees) (List.forall_mem_cons.mpr ⟨hnode, hsafe⟩) h
        exact ⟨t, by simpa [postOrder] using hlisting, ht⟩
    | .op o, [], h => simp [reduce] at h
    | .op o, [t], h => simp [reduce] at h
    | .opening, trees, h => simp [reduce] at h
    | .closing, trees, h => simp [reduce] at h

theorem exists_of_value {tokens : List Token} {v : Rat} (h : Postfix.value tokens = .ok v) :
    ∃ t : ExprTree, t.postOrder = tokens ∧ t.dividesByZero = false ∧ t.value = v :=
  exists_postOrder [] nofun h

/-- A list in postfix order has a value exactly if it is the listing of a tree with this value in which nothing
is divided by zero. There is one such tree at most. If a divisor in it is zero, the list fails for this reason;
a list that is no listing has no value. -/
theorem value_eq_ok_iff (tokens : List Token) :
    (∀ v, Postfix.value tokens = .ok v ↔
      ∃ t : ExprTree, t.postOrder = tokens ∧ t.dividesByZero = false ∧ t.value = v) ∧
    (∀ s t : ExprTree, s.postOrder = tokens → t.postOrder = tokens → s = t) ∧
    (∀ t : ExprTree, t.postOrder = tokens → t.dividesByZero = true →
      Postfix.value tokens = .error .divisionByZero) ∧
    ((¬∃ t : ExprTree, t.postOrder = tokens) → ∀ v, Postfix.value tokens ≠ .ok v) := by
  refine ⟨fun v => ⟨exists_of_value, ?_⟩, fun s t hs ht => postOrder_injective (hs.trans ht.symm), ?_, ?_⟩
  · rintro ⟨t, rfl, hsafe, rfl⟩
    rw [value_postOrder, hsafe]
    rfl
  · rintro t rfl hzero
    rw [value_postOrder, hzero]
    rfl
  · intro hnone v h
    obtain ⟨t, ht, -⟩ := exists_of_value h
    exact hnone ⟨t, ht⟩

-- The converse of the third part fails: this list is no listing, but the division comes before its fault.
example : Postfix.value [.number 1, .number 0, .op .div, .op .add] = .error .divisionByZero := by
  rfl

/-- In `8 / (2 - 2)` the divisor is zero. -/
theorem value_of_eight_by_zero :
    let t : ExprTree := .node .div (.number 8) (.node .sub (.number 2) (.number 2))
    (t.postOrder = [.number 8, .number 2, .number 2, .op .sub, .op .div] ∧ t.dividesByZero = true) ∧
      Postfix.value t.postOrder = .error .divisionByZero := by
  intro t
  have hzero : t.dividesByZero = true := by decide +kernel
  exact ⟨⟨rfl, hzero⟩, (value_eq_ok_iff t.postOrder).2.2.1 t rfl hzero⟩

end ExprTree
end KeypadCalc
