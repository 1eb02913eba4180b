import KeypadCalc.Proofs.Numeral
import KeypadCalc.Proofs.PostfixOrder

/-!
# Chains of operands

What the keypad can write: operands with operators between them, and possibly a minus in front. An
operand is a numeral that may have a percent sign behind it. A chain has one tree, which grows at its
right end: a product or quotient takes the last factor of the tree along, a sum or difference takes the
whole tree. The value of the chain is the value of that tree.
-/
namespace KeypadCalc

namespace Phrase

/-- Multiplies or divides the last product of a sum. -/
def scaleLast (e : Phrase .sum) (o : BinaryOp) (tight : o.precedence = 2) (f : Phrase .factor) :
    Phrase .sum :=
  match e with
  | .plain t => .plain (.scaled t o tight f)
  | .negated t => .negated (.scaled t o tight f)
  | .joined e o' loose t => .joined e o' loose (.scaled t o tight f)

/-- The sum with an operator and one more factor written behind it. -/
def extend (e : Phrase .sum) : BinaryOp → Phrase .factor → Phrase .sum
  | .add, f => .joined e .add rfl (.single f)
  | .sub, f => .joined e .sub rfl (.single f)
  | .mul, f => e.scaleLast .mul rfl f
  | .div, f => e.scaleLast .div rfl f

theorem tokens_scaleLast (e : Phrase .sum) (o : BinaryOp) (tight : o.precedence = 2)
    (f : Phrase .factor) : (e.scaleLast o tight f).tokens = e.tokens ++ .op o :: f.tokens := by
  cases e <;> simp [scaleLast, tokens]

theorem tokens_extend (e : Phrase .sum) (o : BinaryOp) (f : Phrase .factor) :
    (e.extend o f).tokens = e.tokens ++ .op o :: f.tokens := by
  cases o with
  | add => rfl
  | sub => rfl
  | mul => exact e.tokens_scaleLast .mul rfl f
  | div => exact e.tokens_scaleLast .div rfl f

/-- The value of the finished products of a sum, and the value of its last product with its sign. -/
def parts : Phrase .sum → Rat × Rat
  | .plain t => (0, t.value)
  | .negated t => (0, -t.value)
  | .joined e o _ t => (e.value, if o = .sub then -t.value else t.value)

theorem parts_add (e : Phrase .sum) : e.parts.1 + e.parts.2 = e.value := by
  cases e with
  | plain t => simp [parts, value]
  | negated t => simp [parts, value]
  | joined e o loose t =>
    cases o with
    | add => simp [parts, value, BinaryOp.exact]
    | sub => simp [parts, value, BinaryOp.exact, sub_eq_add_neg]
    | mul => cases loose
    | div => cases loose

end Phrase

/-- How an operator and its right operand change the finished products and the last one. -/
def BinaryOp.follow : BinaryOp → Rat × Rat → Rat → Rat × Rat
  | .add, (s, t), b => (s + t, b)
  | .sub, (s, t), b => (s + t, -b)
  | .mul, (s, t), b => (s, t * b)
  | .div, (s, t), b => (s, t / b)

namespace Phrase

theorem parts_extend (e : Phrase .sum) (o : BinaryOp) (f : Phrase .factor) :
    (e.extend o f).parts = o.follow e.parts f.value := by
  cases o with
  | add => exact Prod.ext e.parts_add.symm rfl
  | sub => exact Prod.ext e.parts_add.symm rfl
  | mul =>
    cases e with
    | joined e o _ t => by_cases ho : o = .sub <;>
        simp [extend, scaleLast, parts, BinaryOp.follow, value, BinaryOp.exact, ho]
    | _ => simp [extend, scaleLast, parts, BinaryOp.follow, value, BinaryOp.exact]
  | div =>
    cases e with
    | joined e o _ t => by_cases ho : o = .sub <;>
        simp [extend, scaleLast, parts, BinaryOp.follow, value, BinaryOp.exact, ho, neg_div]
    | _ => simp [extend, scaleLast, parts, BinaryOp.follow, value, BinaryOp.exact, neg_div]

theorem dividesByZero_extend (e : Phrase .sum) (o : BinaryOp) (f : Phrase .factor) :
    (e.extend o f).dividesByZero =
      (e.dividesByZero || f.dividesByZero || (decide (o = .div) && decide (f.value = 0))) := by
  cases o with
  | add => simp [extend, dividesByZero]
  | sub => simp [extend, dividesByZero]
  | mul => cases e <;> simp [extend, scaleLast, dividesByZero, Bool.or_assoc]
  | div => cases e <;> simp [extend, scaleLast, dividesByZero, Bool.or_assoc]

end Phrase

structure Operand where
  numeral : Numeral
  percent : Bool := false

namespace Operand

def text (x : Operand) : Text :=
  x.numeral.text ++ if x.percent then ['%'] else []

def value (x : Operand) : Rat :=
  if x.percent then x.numeral.value / 100 else x.numeral.value

/-- A percent sign stands for a division by one hundred in parentheses. -/
def phrase (x : Operand) : Phrase .factor :=
  if x.percent then
    .group (.plain (.scaled (.single (.number x.numeral.value)) .div rfl (.number 100)))
  else .number x.numeral.value

theorem value_phrase (x : Operand) : x.phrase.value = x.value := by
  unfold phrase value
  split <;> simp [Phrase.value, BinaryOp.exact]

theorem dividesByZero_phrase (x : Operand) : x.phrase.dividesByZero = false := by
  unfold phrase
  split <;> simp [Phrase.dividesByZero, Phrase.value]

theorem text_ne_nil (x : Operand) : x.text ≠ [] :=
  List.append_ne_nil_of_left_ne_nil x.numeral.text_ne_nil _

end Operand

structure Chain where
  negated : Bool := false
  first : Operand
  rest : List (BinaryOp × Operand) := []

namespace Chain

/-- The first operand with the minus in front of it. -/
def leadText (c : Chain) : Text :=
  (if c.negated then ['-'] else []) ++ c.first.text

/-- The text of the chain, where `symbol` says how an operator is written. -/
def textWith (symbol : BinaryOp → Text) (c : Chain) : Text :=
  c.leadText ++ c.rest.flatMap fun x => symbol x.1 ++ x.2.text

/-- The chain in plain arithmetic, without blanks. -/
def text (c : Chain) : Text :=
  c.textWith fun o => [o.symbol]

/-- The first operand as a tree; a minus in front negates the product that it begins. -/
def lead (c : Chain) : Phrase .sum :=
  if c.negated then .negated (.single c.first.phrase) else .plain (.single c.first.phrase)

def phrase (c : Chain) : Phrase .sum :=
  c.rest.foldl (fun e x => e.extend x.1 x.2.phrase) c.lead

/-- The exact value under standard precedence, meaningful as long as nothing is divided by zero. -/
def value (c : Chain) : Rat :=
  c.phrase.value

def dividesByZero (c : Chain) : Bool :=
  c.rest.any fun x => decide (x.1 = .div) && decide (x.2.value = 0)

theorem tokens_lead (c : Chain) :
    c.lead.tokens = (if c.negated then [.op .sub] else []) ++ c.first.phrase.tokens := by
  unfold lead
  split <;> rfl

theorem dividesByZero_lead (c : Chain) : c.lead.dividesByZero = false := by
  unfold lead
  split <;> exact c.first.dividesByZero_phrase

theorem parts_lead (c : Chain) :
    c.lead.parts = (0, if c.negated then -c.first.value else c.first.value) := by
  rw [lead, ← c.first.value_phrase]
  split <;> rfl

theorem tokens_foldl (rest : List (BinaryOp × Operand)) (e : Phrase .sum) :
    (rest.foldl (fun e x => e.extend x.1 x.2.phrase) e).tokens =
      e.tokens ++ rest.flatMap fun x => .op x.1 :: x.2.phrase.tokens := by
  induction rest generalizing e with
  | nil => simp
  | cons x rest ih => simp [ih, Phrase.tokens_extend]

theorem dividesByZero_foldl (rest : List (BinaryOp × Operand)) (e : Phrase .sum) :
    (rest.foldl (fun e x => e.extend x.1 x.2.phrase) e).dividesByZero =
      (e.dividesByZero || rest.any fun x => decide (x.1 = .div) && decide (x.2.value = 0)) := by
  induction rest generalizing e with
  | nil => simp
  | cons x rest ih =>
    rw [List.foldl_cons, ih, Phrase.dividesByZero_extend, x.2.dividesByZero_phrase, x.2.value_phrase,
      List.any_cons, Bool.or_false, Bool.or_assoc]

theorem parts_foldl (rest : List (BinaryOp × Operand)) (e : Phrase .sum) :
    (rest.foldl (fun e x => e.extend x.1 x.2.phrase) e).parts =
      rest.foldl (fun p x => x.1.follow p x.2.value) e.parts := by
  induction rest generalizing e with
  | nil => rfl
  | cons x rest ih => rw [List.foldl_cons, ih, Phrase.parts_extend, x.2.value_phrase, List.foldl_cons]

theorem tokens_phrase (c : Chain) :
    c.phrase.tokens = (if c.negated then [.op .sub] else []) ++ c.first.phrase.tokens ++
      c.rest.flatMap fun x => .op x.1 :: x.2.phrase.tokens := by
  rw [phrase, tokens_foldl, tokens_lead]

/-- A divisor is an operand, so the tree divides by zero where the chain does. -/
theorem dividesByZero_phrase (c : Chain) : c.phrase.dividesByZero = c.dividesByZero := by
  rw [phrase, dividesByZero_foldl, dividesByZero_lead, Bool.false_or, dividesByZero]

/-- The finished products and the last product after the whole chain. -/
def parts (c : Chain) : Rat × Rat :=
  c.rest.foldl (fun p x => x.1.follow p x.2.value)
    (0, if c.negated then -c.first.value else c.first.value)

theorem parts_phrase (c : Chain) : c.phrase.parts = c.parts := by
  rw [phrase, parts_foldl, parts_lead, parts]

theorem value_eq (c : Chain) : c.value = c.parts.1 + c.parts.2 := by
  rw [value, ← c.phrase.parts_add, parts_phrase]

end Chain
end KeypadCalc
