import KeypadCalc.Proofs.PostfixTrees

/-!
# Infix to postfix order, on every tree

`Postfix.arrange` reads a phrase token by token. While it does, a part of the post-order listing has
been written and the operators of the open product and sum still wait on the stack. `emitted` and
`pending` name the two parts, and one induction over the tree shows that reading the phrase writes the
one and leaves the other, whatever waits below and whatever follows. The value of the listing is that of
the tree in which nothing is left of the ranks.
-/
namespace KeypadCalc

open Postfix

namespace Phrase

variable {k : Rank}

/-- The operators that wait when all tokens of the phrase have been read, last one first. -/
def pending : {k : Rank} → Phrase k → List BinaryOp
  | _, .number _ => []
  | _, .group _ => []
  | _, .single _ => []
  | _, .scaled _ o _ _ => [o]
  | _, .plain t => t.pending
  | _, .negated t => t.pending ++ [.sub]
  | _, .joined _ o _ t => t.pending ++ [o]

/-- What has been written of the post-order listing by then. -/
def emitted : {k : Rank} → Phrase k → List Token
  | _, .number r => [.number r]
  | _, .group e => e.postOrder
  | _, .single f => f.emitted
  | _, .scaled t _ _ f => t.postOrder ++ f.postOrder
  | _, .plain t => t.emitted
  | _, .negated t => .number 0 :: t.emitted
  | _, .joined e _ _ t => e.postOrder ++ t.emitted

theorem emitted_pending (e : Phrase k) : e.emitted ++ e.pending.map Token.op = e.postOrder := by
  induction e with
  | number r => rfl
  | group e _ => simp [emitted, pending, postOrder]
  | single f ih =>
    have hp : f.pending = [] := by cases f <;> rfl
    rw [hp, List.map_nil, List.append_nil] at ih
    simpa [emitted, pending, postOrder] using ih
  | scaled t o _ f _ _ => rfl
  | plain t ih => exact ih
  | negated t ih => simp [emitted, pending, postOrder, ← ih]
  | joined e o _ t _ ih => simp [emitted, pending, postOrder, ← ih]

theorem pending_factor (f : Phrase .factor) : f.pending = [] := by
  cases f <;> rfl

theorem emitted_factor (f : Phrase .factor) : f.emitted = f.postOrder := by
  rw [← emitted_pending, pending_factor, List.map_nil, List.append_nil]

/-- The operators of an open product bind tightly. -/
theorem pending_product {t : Phrase .product} {o : BinaryOp} (h : o ∈ t.pending) :
    o.precedence = 2 := by
  cases t with
  | single f => cases h
  | scaled t o' tight f => rw [List.mem_singleton.mp h]; exact tight

theorem one_le_precedence (o : BinaryOp) : 1 ≤ o.precedence := by cases o <;> decide

end Phrase

namespace Postfix

/-- No operator on top of the stack binds as tightly as `level`. -/
def Calm (level : Nat) : List Waiting → Prop
  | .op p :: _ => p.precedence < level
  | _ => True

theorem Calm.mono {low high : Nat} {stack : List Waiting} (h : Calm low stack) (hle : low ≤ high) :
    Calm high stack := by
  match stack, h with
  | [], _ => trivial
  | .opening :: _, _ => trivial
  | .op _ :: _, h => exact Nat.lt_of_lt_of_le h hle

theorem release_calm (o : BinaryOp) {stack : List Waiting} (h : Calm o.precedence stack) :
    release o stack = ([], stack) := by
  match stack, h with
  | [], _ => rfl
  | .opening :: _, _ => rfl
  | .op p :: rest, h => rw [release, if_neg (Nat.not_le.mpr h)]

/-- All operators above a calm stack that bind at least as tightly are released. -/
theorem release_ops (o : BinaryOp) (ops : List BinaryOp) {stack : List Waiting}
    (htight : ∀ p ∈ ops, o.precedence ≤ p.precedence) (h : Calm o.precedence stack) :
    release o (ops.map Waiting.op ++ stack) = (ops.map Token.op, stack) := by
  induction ops with
  | nil => exact release_calm o h
  | cons p ops ih =>
    have hp : o.precedence ≤ p.precedence := htight p List.mem_cons_self
    have hrest := ih fun q hq => htight q (List.mem_cons_of_mem p hq)
    simp [release, hp, hrest]

theorem close?_ops (ops : List BinaryOp) (stack : List Waiting) :
    close? (ops.map Waiting.op ++ .opening :: stack) = some (ops.map Token.op, stack) := by
  induction ops with
  | nil => rfl
  | cons p ops ih => simp [close?, ih]

theorem drain_ops (ops : List BinaryOp) :
    drain (ops.map Waiting.op) = .ok (ops.map Token.op) := by
  induction ops with
  | nil => rfl
  | cons p ops ih => simp only [List.map_cons, drain, ih]; rfl

/-- `out` is written before the result of what follows. -/
def emit (out : List Token) (x : Except EvalError (List Token)) : Except EvalError (List Token) :=
  x.map (out ++ ·)

@[simp] theorem emit_ok (out rest : List Token) : emit out (.ok rest) = .ok (out ++ rest) := rfl

@[simp] theorem emit_emit (first second : List Token) (x : Except EvalError (List Token)) :
    emit first (emit second x) = emit (first ++ second) x := by
  cases x with
  | error e => rfl
  | ok rest => simp

theorem emit_eq_ok {out tokens : List Token} {x : Except EvalError (List Token)}
    (h : emit out x = .ok tokens) : ∃ rest, x = .ok rest ∧ tokens = out ++ rest := by
  cases x with
  | error e => cases h
  | ok rest => exact ⟨rest, rfl, (Except.ok.inj h).symm⟩

theorem emit_eq_error {out : List Token} {x : Except EvalError (List Token)} {e : EvalError}
    (h : emit out x = .error e) : x = .error e := by
  cases x with
  | error e' => exact h
  | ok rest => cases h

theorem drain_op (p : BinaryOp) (stack : List Waiting) :
    drain (.op p :: stack) = emit [.op p] (drain stack) := by
  rw [drain]
  cases drain stack <;> rfl

theorem arrange_number (stack : List Waiting) (r : Rat) (rest : List Token) :
    arrange stack false (.number r :: rest) = emit [.number r] (arrange stack true rest) := by
  rw [arrange]
  cases arrange stack true rest <;> rfl

theorem arrange_closing {stack kept : List Waiting} {out : List Token}
    (afterValue : Bool) (h : close? stack = some (out, kept)) (rest : List Token) :
    arrange stack afterValue (.closing :: rest) = emit out (arrange kept true rest) := by
  rw [arrange, h]
  dsimp only
  cases arrange kept true rest <;> rfl

theorem arrange_op {stack kept : List Waiting} {out : List Token} {o : BinaryOp}
    (afterValue : Bool) (h : release o stack = (out, kept)) (rest : List Token) :
    arrange stack afterValue (.op o :: rest) =
      emit ((if o = .sub && !afterValue then [.number 0] else []) ++ out)
        (arrange (.op o :: kept) false rest) := by
  rw [arrange, h]
  dsimp only
  cases arrange (.op o :: kept) false rest <;> rfl

/-- An operator that follows a value and finds on the stack only operators that it releases. -/
theorem arrange_op_after (ops : List BinaryOp) {stack : List Waiting} {o : BinaryOp}
    (htight : ∀ p ∈ ops, o.precedence ≤ p.precedence) (h : Calm o.precedence stack)
    (rest : List Token) :
    arrange (ops.map Waiting.op ++ stack) true (.op o :: rest) =
      emit (ops.map Token.op) (arrange (.op o :: stack) false rest) := by
  rw [arrange_op true (release_ops o ops htight h)]
  simp

end Postfix

namespace Rank

/-- A phrase of this rank can be read while operators below this precedence wait. -/
def level : Rank → Nat
  | .factor => 3
  | .product => 2
  | .sum => 1

end Rank

namespace Phrase

/-- Reading a phrase writes `emitted` and leaves `pending` on the stack. The induction is on the tree;
`stack` and `rest` vary, since inside parentheses and after an operator more waits and less follows. -/
theorem arrange_tokens (e : Phrase k) (stack : List Waiting) (rest : List Token)
    (h : Calm k.level stack) :
    arrange stack false (e.tokens ++ rest) =
      emit e.emitted (arrange (e.pending.map Waiting.op ++ stack) true rest) := by
  induction e generalizing stack rest with
  | number r => exact arrange_number stack r rest
  | group e ih =>
    have hread := ih (.opening :: stack) (.closing :: rest) trivial
    have hclose := arrange_closing true (close?_ops e.pending stack) rest
    simp only [tokens, emitted, pending, List.cons_append, List.append_assoc, List.nil_append,
      List.map_nil]
    rw [arrange, hread, hclose, emit_emit, emitted_pending]
  | single f ih =>
    have hread := ih stack rest (h.mono (by decide))
    simpa only [tokens, emitted, pending_factor, pending] using hread
  | scaled t o tight f iht ihf =>
    have hcalm : Calm o.precedence stack := by rw [tight]; exact h
    have htop : Calm Rank.factor.level (.op o :: stack) := by
      show o.precedence < 3
      omega
    have hafter := arrange_op_after t.pending
      (fun p hp => Nat.le_of_eq (tight.trans (pending_product hp).symm)) hcalm (f.tokens ++ rest)
    simp only [tokens, emitted, pending, List.append_assoc, List.cons_append, List.map_cons,
      List.map_nil, List.nil_append]
    rw [iht stack _ h, hafter, ihf _ rest htop, pending_factor, emitted_factor, emit_emit, emit_emit,
      emitted_pending]
    rfl
  | plain t ih => exact ih stack rest (h.mono (by decide))
  | negated t ih =>
    have hzero := arrange_op false (release_calm .sub h) (t.tokens ++ rest)
    have htop : Calm Rank.product.level (.op .sub :: stack) := by
      show 1 < 2
      decide
    simp only [tokens, emitted, pending, List.cons_append, List.map_append, List.append_assoc,
      List.map_cons, List.map_nil, List.nil_append]
    rw [hzero, ih _ rest htop]
    simp
  | joined e o loose t ihe iht =>
    have hcalm : Calm o.precedence stack := by rw [loose]; exact h
    have htop : Calm Rank.product.level (.op o :: stack) := by
      show o.precedence < 2
      omega
    have hafter := arrange_op_after e.pending
      (fun p _ => by rw [loose]; exact one_le_precedence p) hcalm (t.tokens ++ rest)
    simp only [tokens, emitted, pending, List.append_assoc, List.cons_append, List.map_append,
      List.map_cons, List.map_nil, List.nil_append]
    rw [ihe stack _ h, hafter, iht _ rest htop, emit_emit, emit_emit,
      emitted_pending]

theorem ofInfix_tokens (e : Phrase .sum) : ofInfix e.tokens = .ok e.postOrder := by
  have h := e.arrange_tokens [] [] trivial
  rw [List.append_nil, List.append_nil] at h
  rw [ofInfix, h, arrange, drain_ops, emit_ok, emitted_pending]

/-- The operators and operands of a phrase alone. -/
def tree : {k : Rank} → Phrase k → ExprTree
  | _, .number r => .number r
  | _, .group e => e.tree
  | _, .single f => f.tree
  | _, .scaled t o _ f => .node o t.tree f.tree
  | _, .plain t => t.tree
  | _, .negated t => .node .sub (.number 0) t.tree
  | _, .joined e o _ t => .node o e.tree t.tree

theorem postOrder_tree (e : Phrase k) : e.tree.postOrder = e.postOrder := by
  induction e <;> simp [tree, postOrder, ExprTree.postOrder, *]

theorem value_tree (e : Phrase k) : e.tree.value = e.value := by
  induction e <;> simp [tree, value, ExprTree.value, BinaryOp.exact, *]

theorem dividesByZero_tree (e : Phrase k) : e.tree.dividesByZero = e.dividesByZero := by
  induction e with
  | joined e o loose t ihe iht =>
    have ho : o ≠ .div := by rintro rfl; cases loose
    simp [tree, dividesByZero, ExprTree.dividesByZero, ihe, iht, ho]
  | _ => simp [tree, dividesByZero, ExprTree.dividesByZero, value_tree, *]

theorem value_postOrder (e : Phrase .sum) :
    Postfix.value e.postOrder =
      if e.dividesByZero then .error .divisionByZero else .ok e.value := by
  rw [← e.postOrder_tree, ← e.value_tree, ← e.dividesByZero_tree]
  exact e.tree.value_postOrder

/-- Every tree is put into post-order, and the listing has the value of the tree unless one of its
divisors is zero. -/
theorem ofInfix_and_value (e : Phrase .sum) :
    ofInfix e.tokens = .ok e.postOrder ∧
      Postfix.value e.postOrder =
        if e.dividesByZero then .error .divisionByZero else .ok e.value :=
  ⟨e.ofInfix_tokens, e.value_postOrder⟩

end Phrase
end KeypadCalc
