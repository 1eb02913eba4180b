import KeypadCalc.Proofs.Parentheses

/-!
# Which token lists are arranged, and what is kept

Operators that touch, an operator without operands and empty parentheses do not matter to the arrangement
into postfix order. It looks at two things only: whether the parentheses match, and whether a number comes
where no value is awaited. When it succeeds nothing is lost. The operators are those of the list, and its
numbers are written in their order, with a zero for each minus sign that has no value before it.
-/
namespace KeypadCalc

namespace Token

/-- Every closing parenthesis has its opening one before it, and every opening one is closed. -/
structure Balanced (tokens : List Token) : Prop where
  opened : ∀ front, front <+: tokens → front.count .closing ≤ front.count .opening
  closed : tokens.count .closing = tokens.count .opening

/-- The numbers of a list, in order. -/
def numbers (tokens : List Token) : List Rat :=
  tokens.filterMap fun t =>
    match t with
    | .number r => some r
    | _ => none

/-- The list with a zero in front of each minus sign that has no value before it: one that is first, or that
follows an operator or an opening parenthesis. `before` is the token before the list. -/
def withZeros (before : Option Token) : List Token → List Token
  | [] => []
  | t :: tokens =>
    (if t = .op .sub ∧ awaitsValue before then [.number 0] else []) ++ t :: withZeros (some t) tokens

/-- Counting the parentheses that are open comes to the same as counting in every beginning of the list. -/
theorem closes_iff (depth : Nat) (tokens : List Token) :
    closes depth tokens = true ↔
      (∀ front, front <+: tokens → front.count .closing ≤ depth + front.count .opening) ∧
        tokens.count .closing = depth + tokens.count .opening := by
  induction tokens generalizing depth with
  | nil => simp [closes, eq_comm]
  | cons t tokens ih =>
    have hfronts (P : List Token → Prop) :
        (∀ front, front <+: t :: tokens → P front) ↔ P [] ∧ ∀ front, front <+: tokens → P (t :: front) := by
      constructor
      · intro h
        exact ⟨h [] List.nil_prefix, fun front hfront => h _ (List.cons_prefix_cons.mpr ⟨rfl, hfront⟩)⟩
      · rintro ⟨hnil, hcons⟩ front hfront
        rcases List.prefix_cons_iff.mp hfront with rfl | ⟨rest, rfl, hrest⟩
        · exact hnil
        · exact hcons rest hrest
    rw [hfronts]
    cases t with
    | number r => simp [closes, ih]
    | op o => simp [closes, ih]
    | opening =>
      rw [closes, ih]
      simp [Nat.add_right_comm, Nat.add_assoc]
    | closing =>
      cases depth with
      | zero =>
        refine iff_of_false Bool.false_ne_true fun ⟨⟨_, hopened⟩, _⟩ => ?_
        have hfirst := hopened [] List.nil_prefix
        simp at hfirst
      | succ depth =>
        rw [closes, ih]
        simp [Nat.add_right_comm]

end Token

namespace Postfix

open Token

theorem Arranges.closes {stack : List Waiting} {afterValue : Bool} {tokens out : List Token}
    (h : Arranges stack afterValue tokens out) : Token.closes (openings stack) tokens = true := by
  induction h with
  | done _ ops =>
    have hopen := openings_ops ops []
    rw [List.append_nil] at hopen
    rw [hopen]
    rfl
  | number _ _ ih => exact ih
  | opening _ _ ih => exact ih
  | closing ops _ _ ih =>
    rw [openings_ops]
    exact ih
  | op o released _ _ ih =>
    rw [openings_ops]
    exact ih

theorem Arranges.numbersApart {stack : List Waiting} {afterValue : Bool} {tokens out : List Token}
    (h : Arranges stack afterValue tokens out) (before : Option Token)
    (hbefore : afterValue = !awaitsValue before) : NumbersApart (before.toList ++ tokens) := by
  induction h generalizing before with
  | done => cases before <;> simp [NumbersApart]
  | number r _ ih =>
    rw [numbersApart_behind]
    exact ⟨fun _ => by simpa using hbefore.symm, ih (some (.number r)) rfl⟩
  | opening _ _ ih => exact (numbersApart_behind_of_not _ rfl _).mpr (ih (some .opening) rfl)
  | closing _ _ _ ih => exact (numbersApart_behind_of_not _ rfl _).mpr (ih (some .closing) rfl)
  | op o _ _ _ ih => exact (numbersApart_behind_of_not _ rfl _).mpr (ih (some (.op o)) rfl)

theorem numbers_append (left right : List Token) : numbers (left ++ right) = numbers left ++ numbers right :=
  List.filterMap_append

theorem numbers_ops (ops : List BinaryOp) : numbers (ops.map Token.op) = [] := by
  simp [numbers]

theorem Arranges.numbers_eq {stack : List Waiting} {afterValue : Bool} {tokens out : List Token}
    (h : Arranges stack afterValue tokens out) (before : Option Token)
    (hbefore : afterValue = !awaitsValue before) : numbers out = numbers (withZeros before tokens) := by
  induction h generalizing before with
  | done _ ops => exact numbers_ops ops
  | number r _ ih => exact congrArg (r :: ·) (ih (some (.number r)) rfl)
  | opening _ _ ih => exact ih (some .opening) rfl
  | closing ops _ _ ih =>
    rw [numbers_append, numbers_ops]
    exact ih (some .closing) rfl
  | @op o released _ afterValue tokens out _ ih =>
    have hzero : (if o = .sub && !afterValue then [Token.number 0] else []) =
        if Token.op o = .op .sub ∧ awaitsValue before = true then [.number 0] else [] := by
      simp [hbefore]
    rw [numbers_append, numbers_append, numbers_ops, List.append_nil, ih (some (.op o)) rfl, hzero, withZeros,
      numbers_append]
    rfl

/-- An operator that waits is written as often as it waits. -/
theorem count_ops (ops : List BinaryOp) (o : BinaryOp) :
    (ops.map Token.op).count (.op o) = (ops.map Waiting.op).count (.op o) := by
  induction ops with
  | nil => rfl
  | cons p ops ih => simp [List.count_cons, ih]

theorem Arranges.count_op {stack : List Waiting} {afterValue : Bool} {tokens out : List Token}
    (h : Arranges stack afterValue tokens out) (o : BinaryOp) :
    out.count (.op o) = tokens.count (.op o) + stack.count (.op o) := by
  induction h with
  | done _ ops => rw [count_ops, List.count_nil, Nat.zero_add]
  | number r _ ih => simpa using ih
  | opening _ _ ih => simpa using ih
  | closing ops _ _ ih =>
    simp only [List.count_append, count_ops, ih]
    simp
    omega
  | op p released afterValue _ ih =>
    have hzero : (if p = .sub && !afterValue then [Token.number 0] else []).count (.op o) = 0 := by
      split <;> rfl
    simp only [List.count_append, List.count_cons, count_ops, hzero, ih]
    simp
    omega

/-- A token list is arranged exactly if its parentheses match and no number comes directly after a number or
a closing parenthesis, and it is refused for its parentheses only if they do not match. What is written has
no parentheses; its numbers are those of the list in their order, with the zeros, and every operator is
written as often as the list has it. -/
theorem ofInfix_conserves (tokens : List Token) :
    ((∃ out, ofInfix tokens = .ok out) ↔ Balanced tokens ∧ NumbersApart tokens) ∧
    (∀ e, ofInfix tokens = .error e →
      e = .malformed ∧ ¬NumbersApart tokens ∨ e = .unbalanced ∧ ¬Balanced tokens) ∧
    ∀ out, ofInfix tokens = .ok out →
      Plain out ∧ numbers out = numbers (withZeros none tokens) ∧
        ∀ o : BinaryOp, out.count (.op o) = tokens.count (.op o) := by
  have hbalanced : Token.closes 0 tokens = true ↔ Balanced tokens := by
    rw [closes_iff]
    simp only [Nat.zero_add]
    exact ⟨fun h => ⟨h.1, h.2⟩, fun h => ⟨h.1, h.2⟩⟩
  have hfails : ∀ e, ofInfix tokens = .error e →
      e = .malformed ∧ ¬NumbersApart tokens ∨ e = .unbalanced ∧ ¬Balanced tokens := by
    intro e h
    rcases arrange_error none h with hglued | ⟨he, hopen⟩
    · exact .inl hglued
    · refine .inr ⟨he, fun hmatch => ?_⟩
      rw [openings, hbalanced.mpr hmatch] at hopen
      cases hopen
  refine ⟨?_, hfails, fun out h => ?_⟩
  · constructor
    · rintro ⟨out, h⟩
      have harranges := arranges_of_arrange h
      exact ⟨hbalanced.mp harranges.closes, harranges.numbersApart none rfl⟩
    · rintro ⟨hclosed, hapart⟩
      cases h : ofInfix tokens with
      | ok out => exact ⟨out, rfl⟩
      | error e =>
        rcases hfails e h with ⟨-, hglued⟩ | ⟨-, hopen⟩
        · exact absurd hapart hglued
        · exact absurd hclosed hopen
  · have harranges := arranges_of_arrange h
    exact ⟨harranges.plain, harranges.numbers_eq none rfl, harranges.count_op⟩

/-- In `- ( 2 * - 3 )` both minus signs have no value before them. -/
theorem ofInfix_of_signed_group :
    let tokens : List Token :=
      [.op .sub, .opening, .number 2, .op .mul, .op .sub, .number 3, .closing]
    let out : List Token := [.number 0, .number 2, .number 0, .op .mul, .number 3, .op .sub, .op .sub]
    ofInfix tokens = .ok out ∧ (Balanced tokens ∧ NumbersApart tokens) ∧
      Plain out ∧ numbers out = [0, 2, 0, 3] ∧ out.count (.op .sub) = 2 ∧ out.count (.op .mul) = 1 := by
  intro tokens out
  have h : ofInfix tokens = .ok out := by decide
  obtain ⟨haccepted, -, hkept⟩ := ofInfix_conserves tokens
  obtain ⟨hplain, hnumbers, hcount⟩ := hkept out h
  exact ⟨h, haccepted.mp ⟨out, h⟩, hplain, hnumbers, hcount .sub, hcount .mul⟩

end Postfix
end KeypadCalc
