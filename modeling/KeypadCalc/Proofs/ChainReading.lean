import KeypadCalc.Expression
import KeypadCalc.Proofs.AdmittedShape
import KeypadCalc.Proofs.TokenBalance

/-!
# Which texts have a value

A chain is read as its tree. Conversely a text that has a value is a list of items in which operators do
not touch and none stands at the end; then there are at least as many operands as operators, and the
balance of the tokens is one only if operands and operators alternate. Operands that touch, such as
`5%5%`, leave two numbers on the stack.
-/
namespace KeypadCalc

open Postfix (emit emit_ok emit_eq_ok balance surplus)

namespace Expression

/-- The first stage of a computation that succeeds has succeeded. -/
theorem exists_of_bind {α β : Type} {x : Except EvalError α} {f : α → Except EvalError β} {b : β}
    (h : x >>= f = .ok b) : ∃ a, x = .ok a ∧ f a = .ok b := by
  cases x with
  | error e => cases h
  | ok a => exact ⟨a, rfl, h⟩

theorem arithmeticValue_of_tokens {s : Text} {tokens : List Token} (h : Token.ofText s = .ok tokens) :
    arithmeticValue s = Postfix.ofInfix tokens >>= fun arranged => Postfix.value arranged := by
  rw [arithmeticValue, h]
  rfl

theorem exists_of_arithmeticValue {s : Text} {v : Rat} (h : arithmeticValue s = .ok v) :
    ∃ tokens arranged, Token.ofText s = .ok tokens ∧ Postfix.ofInfix tokens = .ok arranged ∧
      Postfix.value arranged = .ok v := by
  obtain ⟨tokens, htokens, h⟩ := exists_of_bind h
  obtain ⟨arranged, harranged, hvalue⟩ := exists_of_bind h
  exact ⟨tokens, arranged, htokens, harranged, hvalue⟩

end Expression

namespace Chain

/-- The operators of a chain and their right operands, in plain arithmetic. -/
def restText (rest : List (BinaryOp × Operand)) : Text :=
  rest.flatMap fun x => [x.1.symbol] ++ x.2.text

theorem head?_restText {rest : List (BinaryOp × Operand)} {c : Char} (h : c ∈ (restText rest).head?) :
    ∃ o : BinaryOp, c = o.symbol := by
  cases rest with
  | nil => simp [restText] at h
  | cons x rest => exact ⟨x.1, by simpa [restText, eq_comm] using h⟩

theorem symbol_not_operand (o : BinaryOp) : Token.isNumeral o.symbol = false ∧ o.symbol ≠ '%' := by
  cases o <;> decide

theorem denseTokens_operand_restText (x : Operand) (rest : List (BinaryOp × Operand)) :
    Text.denseTokens (x.text ++ restText rest) =
      emit x.phrase.tokens (Text.denseTokens (restText rest)) := by
  apply Text.denseTokens_operand
  intro _ c hc
  obtain ⟨o, rfl⟩ := head?_restText hc
  exact symbol_not_operand o

theorem denseTokens_restText (rest : List (BinaryOp × Operand)) :
    Text.denseTokens (restText rest) = .ok (rest.flatMap fun x => .op x.1 :: x.2.phrase.tokens) := by
  induction rest with
  | nil =>
    rw [restText, List.flatMap_nil, Text.denseTokens, Text.expandPercents, List.reverse_nil, Token.ofText]
    rfl
  | cons x rest ih =>
    have htext : restText (x :: rest) = x.1.symbol :: (x.2.text ++ restText rest) := by simp [restText]
    rw [htext, Text.denseTokens_symbol, denseTokens_operand_restText, ih]
    simp

theorem text_eq (c : Chain) :
    c.text = (if c.negated then ['-'] else []) ++ (c.first.text ++ restText c.rest) := by
  rw [text, textWith, leadText, List.append_assoc]
  rfl

/-- A chain is read as its tree. -/
theorem denseTokens_text (c : Chain) : Text.denseTokens c.text = .ok c.phrase.tokens := by
  have hread : Text.denseTokens (c.first.text ++ restText c.rest) =
      .ok (c.first.phrase.tokens ++ c.rest.flatMap fun x => .op x.1 :: x.2.phrase.tokens) := by
    rw [denseTokens_operand_restText, denseTokens_restText, emit_ok]
  rw [text_eq, tokens_phrase]
  cases c.negated with
  | false => simpa using hread
  | true =>
    have hminus := Text.denseTokens_symbol .sub (c.first.text ++ restText c.rest)
    rw [hread, emit_ok, BinaryOp.symbol] at hminus
    simpa using hminus

/-- The value of a chain in plain arithmetic, or a division by zero. -/
theorem arithmeticValue_text (c : Chain) :
    Expression.arithmeticValue (Text.expandPercents [] c.text) =
      if c.dividesByZero then .error .divisionByZero else .ok c.value := by
  have hread : Token.ofText (Text.expandPercents [] c.text) = .ok c.phrase.tokens := c.denseTokens_text
  have hvalue := c.phrase.value_postOrder
  rw [dividesByZero_phrase] at hvalue
  rw [Expression.arithmeticValue_of_tokens hread, c.phrase.ofInfix_tokens]
  exact hvalue

end Chain

namespace Item

/-- Every operator has an operand behind it. -/
def Spaced : List Item → Prop
  | [] => True
  | .operand _ :: items => Spaced items
  | .op _ :: .operand _ :: items => Spaced items
  | .op _ :: _ => False

/-- Pairs of an operator and its right operand, as items. -/
def ofPairs (rest : List (BinaryOp × Operand)) : List Item :=
  rest.flatMap fun x => [.op x.1, .operand x.2]

theorem text_ofPairs (rest : List (BinaryOp × Operand)) :
    (ofPairs rest).flatMap text = Chain.restText rest := by
  induction rest with
  | nil => rfl
  | cons x rest ih => simp_all [ofPairs, Chain.restText, text]

theorem isOperatorChar_symbol (o : BinaryOp) : isOperatorChar o.symbol = true := by
  cases o <;> rfl

theorem getLast?_of_suffix (s : Text) {t : Text} {c : Char} (h : c ∈ t.getLast?) :
    c ∈ (s ++ t).getLast? := by
  rw [List.getLast?_append, Option.mem_def.mp h]
  rfl

/-- Operators that do not touch, and of which none is last, have operands behind them. -/
theorem spaced_of_text {items : List Item}
    (hadjacent : Text.hasAdjacentOperators (items.flatMap text) = false)
    (hlast : ∀ c ∈ (items.flatMap text).getLast?, isOperatorChar c = false) : Spaced items := by
  rw [Text.hasAdjacentOperators_eq_false_iff] at hadjacent
  fun_induction Spaced items with
  | case1 => trivial
  | case2 x items ih =>
    rw [List.flatMap_cons] at hadjacent hlast
    exact ih (List.isChain_append.mp hadjacent).2.1 fun c hc => hlast c (getLast?_of_suffix _ hc)
  | case3 o x items ih =>
    rw [List.flatMap_cons, List.flatMap_cons, ← List.append_assoc] at hadjacent hlast
    exact ih (List.isChain_append.mp hadjacent).2.1 fun c hc => hlast c (getLast?_of_suffix _ hc)
  | case4 o items hoperand =>
    match items, hoperand with
    | [], _ =>
      have hop := hlast o.symbol (by simp [text])
      rw [isOperatorChar_symbol] at hop
      cases hop
    | .operand x :: items, hoperand => exact hoperand x items rfl
    | .op o' :: items, _ =>
      simp only [List.flatMap_cons, text, List.singleton_append, List.isChain_cons_cons] at hadjacent
      exact hadjacent.1 ⟨isOperatorChar_symbol o, isOperatorChar_symbol o'⟩

theorem surplus_operand (afterValue : Bool) (x : Operand) (tokens : List Token) :
    surplus afterValue (x.phrase.tokens ++ tokens) = 1 + surplus true tokens := by
  unfold Operand.phrase
  split <;> simp [Phrase.tokens, surplus]

/-- Behind a value there are never more operators than operands, and as many only if they alternate. -/
theorem surplus_spaced {items : List Item} (h : Spaced items) :
    0 ≤ surplus true (items.flatMap tokens) ∧
      (surplus true (items.flatMap tokens) = 0 → ∃ rest, items = ofPairs rest) := by
  fun_induction Spaced items with
  | case1 => exact ⟨Int.le_refl 0, fun _ => ⟨[], rfl⟩⟩
  | case2 x items ih =>
    have hrest := (ih h).1
    rw [List.flatMap_cons, tokens, surplus_operand]
    omega
  | case3 o x items ih =>
    obtain ⟨hrest, halternate⟩ := ih h
    have hcount : surplus true ((Item.op o :: .operand x :: items).flatMap tokens) =
        surplus true (items.flatMap tokens) := by
      simp only [List.flatMap_cons, tokens, List.singleton_append, surplus, surplus_operand]
      simp
    rw [hcount]
    refine ⟨hrest, fun hzero => ?_⟩
    obtain ⟨rest, rfl⟩ := halternate hzero
    exact ⟨(o, x) :: rest, rfl⟩
  | case4 => exact h.elim

/-- An operand, possibly behind a minus, and further items. -/
def led (negated : Bool) (x : Operand) (tail : List Item) : List Item :=
  (if negated then [.op .sub] else []) ++ .operand x :: tail

/-- Spaced items that do not begin with an operator other than the minus begin with an operand. -/
theorem exists_led {items : List Item} (hspaced : Spaced items) (hne : items ≠ [])
    (hhead : ∀ c ∈ (items.flatMap text).head?, c ∉ ['+', '*', '/']) :
    ∃ negated x tail, items = led negated x tail ∧ Spaced tail := by
  match items, hspaced with
  | [], _ => exact absurd rfl hne
  | .operand x :: tail, htail => exact ⟨false, x, tail, rfl, htail⟩
  | .op o :: .operand x :: tail, htail =>
    have hminus : o = .sub := by
      have hsymbol := hhead o.symbol (by simp [text])
      cases o <;> first | rfl | exact absurd (by decide) hsymbol
    exact ⟨true, x, tail, by rw [hminus]; rfl, htail⟩

end Item

namespace Chain

/-- The items of a chain. -/
theorem text_led (negated : Bool) (x : Operand) (rest : List (BinaryOp × Operand)) :
    (Item.led negated x (Item.ofPairs rest)).flatMap Item.text = (Chain.mk negated x rest).text := by
  rw [text_eq, Item.led, List.flatMap_append, List.flatMap_cons, Item.text_ofPairs]
  cases negated <;> rfl

/-- Items that begin with a value or with a minus, and that balance, form a chain. -/
theorem exists_of_spaced {items : List Item} (hspaced : Item.Spaced items)
    (hhead : ∀ c ∈ (items.flatMap Item.text).head?, c ∉ ['+', '*', '/'])
    (hbalance : surplus false (items.flatMap Item.tokens) = 1) :
    ∃ c : Chain, items.flatMap Item.text = c.text := by
  have hne : items ≠ [] := by
    rintro rfl
    cases hbalance
  obtain ⟨negated, x, tail, rfl, htail⟩ := Item.exists_led hspaced hne hhead
  have hcount : surplus true (tail.flatMap Item.tokens) = 0 := by
    cases negated <;> simp [Item.led, Item.tokens, surplus, Item.surplus_operand] at hbalance <;> omega
  obtain ⟨rest, rfl⟩ := (Item.surplus_spaced htail).2 hcount
  exact ⟨_, text_led negated x rest⟩

/-- A dense text with a value is a chain, if its operators stand where the shape check wants them. -/
theorem exists_of_arithmeticValue {s : Text} (hs : s.IsDense)
    (hadjacent : s.hasAdjacentOperators = false) (hhead : ∀ c ∈ s.head?, c ∉ ['+', '*', '/'])
    (hlast : ∀ c ∈ s.getLast?, isOperatorChar c = false) {v : Rat}
    (h : Expression.arithmeticValue (Text.expandPercents [] s) = .ok v) :
    ∃ c : Chain, s = c.text := by
  obtain ⟨tokens, arranged, htokens, harranged, hvalue⟩ := Expression.exists_of_arithmeticValue h
  obtain ⟨items, rfl, rfl⟩ : ∃ items : List Item,
      s = items.flatMap Item.text ∧ tokens = items.flatMap Item.tokens := by
    rcases Text.read_items hs with ⟨items, hitems, -, hread⟩ | ⟨e, -, herror⟩
    · exact ⟨items, hitems, Except.ok.inj (htokens.symm.trans hread)⟩
    · cases htokens.symm.trans herror
  apply exists_of_spaced (Item.spaced_of_text hadjacent hlast) hhead
  have hone := Postfix.balance_of_value hvalue
  have hsame := Postfix.arrange_balance harranged
  unfold Postfix.waitingBalance at hsame
  omega

end Chain
end KeypadCalc
