import KeypadCalc.Proofs.Arrangement
import Mathlib.Data.List.Chain

/-!
# Parentheses of a token list

Whether parentheses match can be told by counting those that are open. The arrangement into postfix order
counts them on its stack, so it complains of them only if they do not match, and none is ever written. The
reduction therefore meets numbers and operators only; all that can go wrong there is an operand too few or
too many, and a division by zero.
-/
namespace KeypadCalc

namespace Token

/-- Whether exactly the parentheses are closed that are opened, where `depth` of them are open already. -/
def closes : Nat → List Token → Bool
  | depth, [] => decide (depth = 0)
  | depth, .opening :: tokens => closes (depth + 1) tokens
  | 0, .closing :: _ => false
  | depth + 1, .closing :: tokens => closes depth tokens
  | depth, .number _ :: tokens => closes depth tokens
  | depth, .op _ :: tokens => closes depth tokens

def isParenthesis : Token → Bool
  | .opening | .closing => true
  | _ => false

def isNumber : Token → Bool
  | .number _ => true
  | _ => false

/-- Whether a value is still to come: at the beginning, behind an operator and behind an opening parenthesis,
but not behind a number or a closing parenthesis. -/
def awaitsValue : Option Token → Bool
  | none | some (.op _) | some .opening => true
  | some (.number _) | some .closing => false

/-- No number comes directly after a number or a closing parenthesis. -/
def NumbersApart (tokens : List Token) : Prop :=
  tokens.IsChain fun t u => u.isNumber = true → awaitsValue (some t) = true

theorem numbersApart_behind (before : Option Token) (t : Token) (tokens : List Token) :
    NumbersApart (before.toList ++ t :: tokens) ↔
      (t.isNumber = true → awaitsValue before = true) ∧ NumbersApart (t :: tokens) := by
  cases before with
  | none => simp [NumbersApart, awaitsValue]
  | some u => exact List.isChain_cons_cons

theorem numbersApart_behind_of_not (before : Option Token) {t : Token} (ht : t.isNumber = false)
    (tokens : List Token) : NumbersApart (before.toList ++ t :: tokens) ↔ NumbersApart (t :: tokens) := by
  rw [numbersApart_behind, ht]
  simp

end Token

namespace Postfix

/-- Numbers and operators only. -/
def Plain (tokens : List Token) : Prop :=
  ∀ t ∈ tokens, t.isParenthesis = false

theorem plain_nil : Plain [] := fun _ h => nomatch h

theorem Plain.append {left right : List Token} (hleft : Plain left) (hright : Plain right) :
    Plain (left ++ right) := fun t ht => (List.mem_append.mp ht).elim (hleft t) (hright t)

theorem Plain.cons {t : Token} {tokens : List Token} (ht : t.isParenthesis = false) (h : Plain tokens) :
    Plain (t :: tokens) :=
  List.forall_mem_cons.mpr ⟨ht, h⟩

/-- The parentheses that wait to be closed. -/
def openings : List Waiting → Nat
  | [] => 0
  | .op _ :: stack => openings stack
  | .opening :: stack => openings stack + 1

theorem openings_ops (ops : List BinaryOp) (stack : List Waiting) :
    openings (ops.map Waiting.op ++ stack) = openings stack := by
  induction ops with
  | nil => rfl
  | cons o ops ih => exact ih

theorem plain_ops (ops : List BinaryOp) : Plain (ops.map Token.op) := by
  intro t ht
  obtain ⟨o, -, rfl⟩ := List.mem_map.mp ht
  rfl

/-- Only operators are released, so no parenthesis is lost. -/
theorem openings_release (o : BinaryOp) (stack : List Waiting) :
    openings (release o stack).2 = openings stack := by
  obtain ⟨ops, -, hstack⟩ := exists_of_release o stack
  rw [← openings_ops ops, ← hstack]

theorem openings_of_close? {stack kept : List Waiting} {out : List Token}
    (h : close? stack = some (out, kept)) : openings stack = openings kept + 1 := by
  obtain ⟨ops, -, rfl⟩ := exists_of_close? h
  rw [openings_ops, openings]

/-- A parenthesis can be closed unless none is open. -/
theorem openings_eq_zero_of_close? {stack : List Waiting} (h : close? stack = none) :
    openings stack = 0 := by
  induction stack with
  | nil => rfl
  | cons w stack ih =>
    cases w with
    | opening => cases h
    | op p =>
      cases hclose : close? stack with
      | none => exact ih hclose
      | some rest => simp [close?, hclose] at h

theorem drain_error {stack : List Waiting} {e : EvalError} (h : drain stack = .error e) :
    e = .unbalanced ∧ openings stack ≠ 0 := by
  induction stack with
  | nil => cases h
  | cons w stack ih =>
    cases w with
    | opening => exact ⟨(Except.error.inj h).symm, Nat.succ_ne_zero _⟩
    | op p =>
      rw [drain_op] at h
      exact ih (emit_eq_error h)

/-- What is written has no parentheses. -/
theorem Arranges.plain {stack : List Waiting} {afterValue : Bool} {tokens out : List Token}
    (h : Arranges stack afterValue tokens out) : Plain out := by
  induction h with
  | done _ ops => exact plain_ops ops
  | number r _ ih => exact .cons rfl ih
  | opening _ _ ih => exact ih
  | closing ops _ _ ih => exact (plain_ops ops).append ih
  | op o released _ _ ih =>
    refine Plain.append (Plain.append ?_ (plain_ops released)) ih
    split
    · exact .cons rfl plain_nil
    · exact plain_nil

/-- The arrangement fails for two values in a row, or for its parentheses if they do not match. -/
theorem arrange_error {stack : List Waiting} (before : Option Token) {tokens : List Token} {e : EvalError}
    (h : arrange stack (!Token.awaitsValue before) tokens = .error e) :
    e = .malformed ∧ ¬Token.NumbersApart (before.toList ++ tokens) ∨
      e = .unbalanced ∧ Token.closes (openings stack) tokens = false := by
  induction tokens generalizing stack before with
  | nil =>
    obtain ⟨he, hopen⟩ := drain_error h
    exact .inr ⟨he, decide_eq_false hopen⟩
  | cons t tokens ih =>
    cases t with
    | number r =>
      rw [Token.numbersApart_behind]
      cases hawaits : Token.awaitsValue before with
      | false =>
        rw [hawaits] at h
        exact .inl ⟨(Except.error.inj h).symm, fun hapart => Bool.false_ne_true (hapart.1 rfl)⟩
      | true =>
        rw [hawaits, Bool.not_true, arrange_number] at h
        exact (ih (some (.number r)) (emit_eq_error h)).imp_left fun hrest => ⟨hrest.1, fun h => hrest.2 h.2⟩
    | op o =>
      rw [arrange_op _ rfl] at h
      have hrest := ih (some (.op o)) (emit_eq_error h)
      rw [openings, openings_release] at hrest
      rwa [Token.numbersApart_behind_of_not before rfl]
    | opening =>
      have hrest := ih (some .opening) h
      rw [openings] at hrest
      rwa [Token.numbersApart_behind_of_not before rfl]
    | closing =>
      cases hclose : close? stack with
      | none =>
        rw [arrange, hclose] at h
        rw [openings_eq_zero_of_close? hclose]
        exact .inr ⟨(Except.error.inj h).symm, rfl⟩
      | some x =>
        rw [arrange_closing _ hclose] at h
        rw [openings_of_close? hclose, Token.numbersApart_behind_of_not before rfl]
        exact ih (some .closing) (emit_eq_error h)

/-- Without parentheses a reduction fails for its operands only. -/
theorem reduce_error {tokens : List Token} (hplain : Plain tokens) {stack : List Rat} {e : EvalError}
    (h : reduce stack tokens = .error e) : e = .malformed ∨ e = .divisionByZero := by
  induction tokens generalizing stack with
  | nil =>
    match stack, h with
    | [], h => exact .inl (Except.error.inj h).symm
    | [_], h => cases h
    | _ :: _ :: _, h => exact .inl (Except.error.inj h).symm
  | cons t tokens ih =>
    obtain ⟨ht, hrest⟩ := List.forall_mem_cons.mp hplain
    match t, stack, h with
    | .number r, stack, h => exact ih hrest (by simpa [reduce] using h)
    | .op o, b :: a :: stack, h =>
      rw [reduce_op] at h
      split at h
      · exact .inr (Except.error.inj h).symm
      · exact ih hrest h
    | .op o, [], h => exact .inl (Except.error.inj h).symm
    | .op o, [a], h => exact .inl (Except.error.inj h).symm
    | .opening, stack, h => cases ht
    | .closing, stack, h => cases ht

/-- When its parentheses match, a token list is evaluated, or its operators and operands do not fit, or
something is divided by zero. -/
theorem value_ofInfix_error {tokens : List Token} (hclosed : Token.closes 0 tokens = true) {e : EvalError}
    (h : (ofInfix tokens >>= fun arranged => value arranged) = .error e) :
    e = .malformed ∨ e = .divisionByZero := by
  cases harranged : ofInfix tokens with
  | error e' =>
    rw [harranged] at h
    obtain rfl : e' = e := Except.error.inj h
    rcases arrange_error none harranged with ⟨he, -⟩ | ⟨-, hopen⟩
    · exact .inl he
    · rw [openings, hclosed] at hopen
      cases hopen
  | ok arranged =>
    rw [harranged] at h
    exact reduce_error (arranges_of_arrange harranged).plain h

end Postfix
end KeypadCalc
