import KeypadCalc.Key
import KeypadCalc.Proofs.ChainResult

/-!
# Chains as they are typed

The keys of a chain, and the text that they type: the keypad shows `x` for a product and puts a space on
each side of an operator. Without its blanks the typed text is the chain in plain arithmetic, so it has
the result of the chain.
-/
namespace KeypadCalc

def Key.ofDigit (c : Char) : Key :=
  .digit (c.toNat - '0'.toNat)

namespace Numeral

/-- Digits, a zero in front only if it is the only one, and possibly a point and further digits. -/
def IsTyped (n : Numeral) : Prop :=
  n.whole ≠ [] ∧ (n.whole.head? = some '0' → n.whole = ['0'])

def keys (n : Numeral) : List Key :=
  n.whole.map Key.ofDigit ++
    match n.places with
    | none => []
    | some ds => .point :: ds.map Key.ofDigit

end Numeral

def Operand.keys (x : Operand) : List Key :=
  x.numeral.keys ++ if x.percent then [.percent] else []

namespace Chain

def restKeys (rest : List (BinaryOp × Operand)) : List Key :=
  rest.flatMap fun x => .op x.1 :: x.2.keys

/-- The operators of a chain and their right operands, as they are typed. -/
def typedRest (rest : List (BinaryOp × Operand)) : Text :=
  rest.flatMap fun x => [' ', x.1.glyph, ' '] ++ x.2.text

/-- The keys of a chain without a minus in front. -/
def keys (c : Chain) : List Key :=
  c.first.keys ++ restKeys c.rest

def typedText (c : Chain) : Text :=
  c.leadText ++ typedRest c.rest

def operands (c : Chain) : List Operand :=
  c.first :: c.rest.map Prod.snd

def last (c : Chain) : Operand :=
  c.operands.getLast (List.cons_ne_nil _ _)

end Chain

/-- Operands that the display has room for: full only for the last one, since a full display refuses
even the digit that would begin the next operand. -/
def FitsDisplay (operands : List Operand) : Prop :=
  (∀ x ∈ operands, x.numeral.IsTyped ∧ x.numeral.text.length ≤ displayLimit) ∧
    ∀ x ∈ operands.dropLast, x.numeral.text.length < displayLimit

/-- The operand of a single digit. -/
def Operand.ofDigit (c : Char) (h : c.isDigit = true) : Operand where
  numeral := { whole := [c], isDigit := by simpa using h, nonempty := List.cons_ne_nil _ _ }

theorem Operand.fitsDisplay_ofDigit {c : Char} (h : c.isDigit = true) :
    (ofDigit c h).numeral.IsTyped ∧ (ofDigit c h).numeral.text.length < displayLimit := by
  have hlength : 1 < displayLimit := by decide
  exact ⟨⟨List.cons_ne_nil _ _, fun hzero => congrArg (fun d => [d]) (Option.some.inj hzero)⟩, hlength⟩

namespace Text

theorem dense_append (s t : Text) : dense (s ++ t) = dense s ++ dense t := by
  simp [dense, compact_append]

theorem dense_compact (s : Text) : dense (compact s) = dense s := by
  simp [dense, compact]

theorem dense_operator (o : BinaryOp) : dense [' ', o.glyph, ' '] = [o.symbol] := by
  cases o <;> decide

theorem isAdmitted_operator (o : BinaryOp) : IsAdmitted [' ', o.glyph, ' '] := by
  cases o <;> exact List.all_eq_true.mp rfl

end Text

namespace Operand

theorem isAdmitted_text (x : Operand) : x.text.IsAdmitted := by
  intro c hc
  rcases mem_text hc with h | rfl
  · exact isExpressionChar_of_isNumeral h
  · rfl

theorem isBlank_of_mem_text {x : Operand} {c : Char} (h : c ∈ x.text) : isBlank c = false := by
  rcases mem_text h with h | rfl
  · exact Token.isBlank_of_isNumeral h
  · decide

theorem dense_text (x : Operand) : x.text.dense = x.text := by
  refine Text.dense_eq_self (fun c hc => isBlank_of_mem_text hc) fun hx => ?_
  rcases mem_text hx with h | h <;> cases h

end Operand

namespace Chain

theorem dense_typedRest (rest : List (BinaryOp × Operand)) : (typedRest rest).dense = restText rest := by
  induction rest with
  | nil => rfl
  | cons x rest ih =>
    have htyped : typedRest (x :: rest) = [' ', x.1.glyph, ' '] ++ (x.2.text ++ typedRest rest) := by
      simp [typedRest]
    have htext : restText (x :: rest) = [x.1.symbol] ++ (x.2.text ++ restText rest) := by
      simp [restText]
    rw [htyped, Text.dense_append, Text.dense_append, Text.dense_operator, x.2.dense_text, ih, htext]

theorem isAdmitted_typedRest (rest : List (BinaryOp × Operand)) : (typedRest rest).IsAdmitted := by
  induction rest with
  | nil => exact fun _ h => nomatch h
  | cons x rest ih =>
    rw [typedRest, List.flatMap_cons]
    exact ((Text.isAdmitted_operator x.1).append x.2.isAdmitted_text).append ih

theorem isAdmitted_leadText (c : Chain) : c.leadText.IsAdmitted := by
  unfold leadText
  refine Text.IsAdmitted.append ?_ c.first.isAdmitted_text
  split <;> exact List.all_eq_true.mp rfl

theorem isAdmitted_typedText (c : Chain) : c.typedText.IsAdmitted :=
  c.isAdmitted_leadText.append (isAdmitted_typedRest c.rest)

theorem dense_typedText (c : Chain) : c.typedText.dense = c.text := by
  have hlead : c.leadText.dense = c.leadText := by
    rw [leadText, Text.dense_append, c.first.dense_text]
    split <;> rfl
  rw [typedText, Text.dense_append, hlead, dense_typedRest, text, textWith]
  rfl

/-- What is evaluated of the typed text is the chain in plain arithmetic, and it is short enough. -/
theorem admitted_typedText {c : Chain} (h : c.typedText.length ≤ evaluationLimit) :
    c.typedText.compact.admitted.length ≤ evaluationLimit ∧
      c.typedText.compact.admitted.dense = c.text := by
  have hcompact : c.typedText.compact.IsAdmitted := fun d hd =>
    c.isAdmitted_typedText d (List.mem_filter.mp hd).1
  rw [Text.admitted_eq_self hcompact, Text.dense_compact, dense_typedText]
  exact ⟨le_trans (List.length_filter_le _ _) h, rfl⟩

theorem trim_typedText_ne_nil (c : Chain) : c.typedText.trim ≠ [] := by
  intro h
  rw [Text.trim_eq_nil_iff] at h
  have hdense := c.dense_typedText
  rw [Text.dense, h] at hdense
  exact c.text_ne_nil hdense.symm

end Chain

namespace Decimal

/-- The chain that begins with a decimal. -/
def beginning (d : Decimal) (rest : List (BinaryOp × Operand)) : Chain where
  negated := decide (d.units < 0)
  first := ⟨d.numeral, false⟩
  rest := rest

theorem leadText_beginning (d : Decimal) (rest : List (BinaryOp × Operand)) :
    (d.beginning rest).leadText = d.render := by
  rw [render_eq, sign, Chain.leadText]
  simp [beginning, Operand.text]

end Decimal
end KeypadCalc
