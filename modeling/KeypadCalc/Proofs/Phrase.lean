import KeypadCalc.Expression.Postfix

/-!
# Expression trees

The grammar of plain arithmetic as a family of trees. A sum is a product, a product with a minus in
front, or a sum followed by `+` or `-` and a product; a product is a factor, or a product followed by
`*` or `/` and a factor; a factor is a number or a sum in parentheses. Sums and products nest to the
left, so the trees have standard precedence and left associativity built in. Nothing here refers to
the stack on which tokens wait.
-/
namespace KeypadCalc

/-- The exact result of an operation; a quotient by zero has no meaning and is zero here. -/
def BinaryOp.exact : BinaryOp → Rat → Rat → Rat
  | .add, a, b => a + b
  | .sub, a, b => a - b
  | .mul, a, b => a * b
  | .div, a, b => a / b

theorem BinaryOp.apply_eq_exact {o : BinaryOp} {a b : Rat} (h : ¬(o = .div ∧ b = 0)) :
    o.apply a b = .ok (o.exact a b) := by
  cases o with
  | div => exact if_neg fun hb => h ⟨rfl, hb⟩
  | _ => rfl

/-- The three kinds of phrases of the grammar. -/
inductive Rank where
  | factor
  | product
  | sum

inductive Phrase : Rank → Type where
  | number (r : Rat) : Phrase .factor
  | group (e : Phrase .sum) : Phrase .factor
  | single (f : Phrase .factor) : Phrase .product
  | scaled (t : Phrase .product) (o : BinaryOp) (tight : o.precedence = 2)
      (f : Phrase .factor) : Phrase .product
  | plain (t : Phrase .product) : Phrase .sum
  | negated (t : Phrase .product) : Phrase .sum
  | joined (e : Phrase .sum) (o : BinaryOp) (loose : o.precedence = 1)
      (t : Phrase .product) : Phrase .sum

namespace Phrase

variable {k : Rank}

/-- The phrase as it is written. -/
def tokens : {k : Rank} → Phrase k → List Token
  | _, .number r => [.number r]
  | _, .group e => .opening :: (e.tokens ++ [.closing])
  | _, .single f => f.tokens
  | _, .scaled t o _ f => t.tokens ++ .op o :: f.tokens
  | _, .plain t => t.tokens
  | _, .negated t => .op .sub :: t.tokens
  | _, .joined e o _ t => e.tokens ++ .op o :: t.tokens

/-- The post-order listing of the tree, in which a minus in front subtracts from zero. -/
def postOrder : {k : Rank} → Phrase k → List Token
  | _, .number r => [.number r]
  | _, .group e => e.postOrder
  | _, .single f => f.postOrder
  | _, .scaled t o _ f => t.postOrder ++ f.postOrder ++ [.op o]
  | _, .plain t => t.postOrder
  | _, .negated t => .number 0 :: (t.postOrder ++ [.op .sub])
  | _, .joined e o _ t => e.postOrder ++ t.postOrder ++ [.op o]

/-- The exact value, meaningful as long as nothing is divided by zero. -/
def value : {k : Rank} → Phrase k → Rat
  | _, .number r => r
  | _, .group e => e.value
  | _, .single f => f.value
  | _, .scaled t o _ f => o.exact t.value f.value
  | _, .plain t => t.value
  | _, .negated t => 0 - t.value
  | _, .joined e o _ t => o.exact e.value t.value

/-- Whether some divisor in the tree is zero. -/
def dividesByZero : {k : Rank} → Phrase k → Bool
  | _, .number _ => false
  | _, .group e => e.dividesByZero
  | _, .single f => f.dividesByZero
  | _, .scaled t o _ f =>
    t.dividesByZero || f.dividesByZero || (decide (o = .div) && decide (f.value = 0))
  | _, .plain t => t.dividesByZero
  | _, .negated t => t.dividesByZero
  | _, .joined e _ _ t => e.dividesByZero || t.dividesByZero

end Phrase
end KeypadCalc
