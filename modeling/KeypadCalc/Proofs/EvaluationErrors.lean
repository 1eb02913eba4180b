import KeypadCalc.Proofs.ChainResult
import KeypadCalc.Proofs.Parentheses

/-!
# What an evaluation can fail for

The shape check leaves only few ways to fail. Parentheses come in pairs from percent signs, operators have
operands on both sides, and something is left to evaluate. What cannot be read is a percent sign without a
number or a run of digits and points that is no number. If everything can be read, the text is a chain, which
fails for a division by zero at most, or two operands touch; the first of them then ends in a percent sign.
A result is that of a chain, and it is far from the end of the range of doubles.
-/
namespace KeypadCalc

/-- A product is written with a letter before it is dense, which changes neither percent signs nor numerals. -/
theorem Text.percent_infix_of_dense {s : Text} {c : Char} (hc : Token.isNumeral c = true)
    (h : ['%', c] <:+: s.dense) : ['%', c] <:+: s.compact := by
  have hkept {d : Char} (hd : Token.isNumeral d = true ∨ d = '%') {b : Char}
      (hb : d = if b = 'x' then '*' else b) : b = d := by
    split at hb
    · rcases hd with hd | hd <;> rw [hb] at hd <;> cases hd
    · exact hb.symm
  obtain ⟨word, hword, hmap⟩ := List.infix_map_iff.mp h
  obtain ⟨a, b, rfl⟩ := List.length_eq_two.mp (by simpa using (congrArg List.length hmap).symm)
  obtain ⟨ha, htail⟩ := List.cons_eq_cons.mp hmap
  have hb := (List.cons_eq_cons.mp htail).1
  rwa [hkept (.inr rfl) ha, hkept (.inl hc) hb] at hword

namespace Item

/-- The parentheses in which percent signs are written match. -/
theorem closes_tokens (items : List Item) : Token.closes 0 (items.flatMap tokens) = true := by
  induction items with
  | nil => rfl
  | cons i items ih =>
    cases i with
    | op o => exact ih
    | operand x =>
      rw [List.flatMap_cons, tokens, Operand.phrase]
      split
      · exact ih
      · exact ih

/-- Items behind an operand alternate, or somewhere two operands follow each other. -/
theorem alternates_or_touches {tail : List Item} (h : Spaced tail) (x : Operand) :
    (∃ rest, tail = ofPairs rest) ∨
      ∃ y z : Operand, [.operand y, .operand z] <:+: .operand x :: tail := by
  fun_induction Spaced tail generalizing x with
  | case1 => exact .inl ⟨[], rfl⟩
  | case2 y items => exact .inr ⟨x, y, [], items, rfl⟩
  | case3 o y items ih =>
    rcases ih h y with ⟨rest, rfl⟩ | ⟨y', z', htouch⟩
    · exact .inl ⟨(o, y) :: rest, rfl⟩
    · exact .inr ⟨y', z', htouch.trans ⟨[.operand x, .op o], [], by simp⟩⟩
  | case4 => exact h.elim

/-- Where two operands are read one after the other, the percent sign of the first one is followed by a digit
or a point. -/
theorem exists_percent_numeral {items : List Item} (hmeet : items.IsChain Meets) {y z : Operand}
    (htouch : [.operand y, .operand z] <:+: items) :
    ∃ c, Token.isNumeral c = true ∧ ['%', c] <:+: items.flatMap text := by
  have hpair := hmeet.infix htouch
  rw [List.isChain_pair] at hpair
  have hpercent : y.percent = true := hpair
  obtain ⟨c, rest, hz⟩ := List.exists_cons_of_ne_nil z.text_ne_nil
  have hhead : c ∈ (z.text ++ []).head? := by
    rw [List.append_nil, hz]
    rfl
  refine ⟨c, Operand.isNumeral_of_head? hhead, List.IsInfix.trans ?_ (htouch.flatMap text)⟩
  refine ⟨y.numeral.text, rest, ?_⟩
  rw [List.flatMap_cons, List.flatMap_singleton, text, text, hz, Operand.text, if_pos hpercent]
  simp

end Item

namespace Chain

/-- A dense text whose operators stand where the shape check wants them fails for what cannot be read, for a
division by zero, or because two operands touch. -/
theorem error_of_arithmeticValue {s : Text} (hs : s.IsDense) (hne : s ≠ [])
    (hadjacent : s.hasAdjacentOperators = false) (hhead : ∀ c ∈ s.head?, c ∉ ['+', '*', '/'])
    (hlast : ∀ c ∈ s.getLast?, isOperatorChar c = false) {e : EvalError}
    (h : Expression.arithmeticValue (Text.expandPercents [] s) = .error e) :
    Unreadable e ∨ e = .divisionByZero ∨
      e = .malformed ∧ ∃ c, Token.isNumeral c = true ∧ ['%', c] <:+: s := by
  rcases Text.read_items hs with ⟨items, rfl, hmeet, hread⟩ | ⟨e', he', hread⟩
  · have hspaced := Item.spaced_of_text hadjacent hlast
    have hitems : items ≠ [] := by
      rintro rfl
      exact hne rfl
    obtain ⟨negated, x, tail, rfl, htail⟩ := Item.exists_led hspaced hitems hhead
    rcases Item.alternates_or_touches htail x with ⟨rest, rfl⟩ | ⟨y, z, htouch⟩
    · rw [text_led, arithmeticValue_text] at h
      split at h
      · exact .inr (.inl (Except.error.inj h).symm)
      · cases h
    · rw [Expression.arithmeticValue_of_tokens hread] at h
      rcases Postfix.value_ofInfix_error (Item.closes_tokens _) h with he | he
      · have hwithin : .operand x :: tail <:+: Item.led negated x tail := (List.suffix_append _ _).isInfix
        exact .inr (.inr ⟨he, Item.exists_percent_numeral hmeet (htouch.trans hwithin)⟩)
      · exact .inr (.inl he)
  · have hunread : Expression.arithmeticValue (Text.expandPercents [] s) = .error e' := by
      rw [Expression.arithmeticValue, show Token.ofText (Text.expandPercents [] s) = .error e' from hread]
      rfl
    obtain rfl : e' = e := Except.error.inj (hunread.symm.trans h)
    exact .inl he'

end Chain

namespace Expression

/-- The errors of an evaluation. -/
theorem error_of_value {s : Text} {e : EvalError} (h : value s = .error e) :
    e = .refused ∨ Unreadable e ∨ e = .divisionByZero ∨
      e = .malformed ∧ ∃ c, Token.isNumeral c = true ∧ ['%', c] <:+: s.admitted.compact := by
  rw [value] at h
  split at h
  · exact .inl (Except.error.inj h).symm
  · rename_i hevaluable
    obtain ⟨hne, -, hadjacent, hhead, hlast, -⟩ :=
      (Text.isEvaluable_iff s.isAdmitted_admitted).mp (by simpa using hevaluable)
    have hleft : s.admitted.arithmetic.isEmpty = false := by
      rw [List.isEmpty_eq_false_iff, Text.arithmetic_eq]
      exact fun hnil => hne (Text.expandPercents_eq_nil hnil).2
    rw [hleft, if_neg Bool.false_ne_true, Text.arithmetic_eq] at h
    refine .inr ?_
    rcases Chain.error_of_arithmeticValue s.isDense_admitted hne hadjacent hhead hlast h with
      he | he | ⟨he, c, hc, hinfix⟩
    · exact .inl he
    · exact .inr (.inl he)
    · exact .inr (.inr ⟨he, c, hc, Text.percent_infix_of_dense hc hinfix⟩)

/-- What has a value has a result, so nothing fails behind the evaluation. -/
theorem error_of_result {s : Text} {e : EvalError} (h : result s = .error e) : value s = .error e := by
  cases hvalue : value s with
  | ok v =>
    rw [result_of_value hvalue] at h
    cases h
  | error e' =>
    have hresult : result s = .error e' := by
      rw [result, hvalue]
      rfl
    rw [Except.error.inj (hresult.symm.trans h)]

/-- An evaluation is never empty, its parentheses match, and its result is a finite double; only a percent
sign can be an unexpected character. Operands and operators do not fit only where, among the characters that
an expression can have and without blanks, a percent sign is directly followed by a digit or a point. The
value of a text with `n` such characters is at most `10 ^ n`, and there are at most a hundred of them. -/
theorem fails_or_is_bounded (s : Text) :
    (∀ e, result s = .error e →
      e = .refused ∨ e = .unexpectedCharacter '%' ∨ (∃ run, e = .invalidNumber run) ∨ e = .divisionByZero ∨
        e = .malformed ∧ ∃ c, (c.isDigit = true ∨ c = '.') ∧ ['%', c] <:+: s.admitted.compact) ∧
    ∀ t, result s = .ok t →
      let n := s.admitted.compact.length
      n ≤ 100 ∧ ∃ v x : Rat, value s = .ok v ∧ t = resultText v ∧ |v| ≤ 10 ^ n ∧
        Double.ofText? t = some (.finite x) := by
  constructor
  · intro e h
    rcases error_of_value (error_of_result h) with he | he | he | ⟨he, c, hc, hinfix⟩
    · exact .inl he
    · cases he with
      | percent => exact .inr (.inl rfl)
      | number run => exact .inr (.inr (.inl ⟨run, rfl⟩))
    · exact .inr (.inr (.inr (.inl he)))
    · rw [Token.isNumeral, Bool.or_eq_true, decide_eq_true_eq] at hc
      exact .inr (.inr (.inr (.inr ⟨he, c, hc, hinfix⟩)))
  · intro t h n
    obtain ⟨v, hvalue, -⟩ := exists_of_bind h
    rw [result_of_value hvalue] at h
    obtain rfl := Except.ok.inj h
    have hlength : s.admitted.length ≤ 100 := (exists_chain_of_value hvalue).1
    exact ⟨(List.length_filter_le _ _).trans hlength, v, _, hvalue, rfl, abs_value_le hvalue,
      ofText?_of_value hvalue⟩

/-- Two operands touch in `5%5`; the quotient of `12 / 8` has four characters that count. -/
theorem outcomes_of_five_percent_five :
    (result "5%5".toList = .error .malformed ∧
      ∃ c, (c.isDigit = true ∨ c = '.') ∧ ['%', c] <:+: Text.compact (Text.admitted "5%5".toList)) ∧
    result "12 / 8".toList = .ok "1.5".toList ∧
      ∃ v x : Rat, value "12 / 8".toList = .ok v ∧ "1.5".toList = resultText v ∧ |v| ≤ 10 ^ 4 ∧
        Double.ofText? "1.5".toList = some (.finite x) := by
  have hfailed : result "5%5".toList = .error .malformed := by decide +kernel
  have hdivided : result "12 / 8".toList = .ok "1.5".toList := by decide +kernel
  have hcause := (fails_or_is_bounded "5%5".toList).1 _ hfailed
  simp only [reduceCtorEq, exists_false, false_or, true_and] at hcause
  exact ⟨⟨hfailed, hcause⟩, hdivided, ((fails_or_is_bounded "12 / 8".toList).2 _ hdivided).2⟩

/-- Characters that no expression has are left out before the text is looked at: without the letter the
percent sign of `5%a5` is followed by a digit. -/
theorem not_percent_infix_compact :
    ¬ ∀ s : Text, result s = .error .malformed →
      ∃ c, (c.isDigit = true ∨ c = '.') ∧ ['%', c] <:+: s.compact := by
  intro h
  obtain ⟨c, hc, hinfix⟩ := h "5%a5".toList (by decide +kernel)
  have hcompact : Text.compact "5%a5".toList = ['5', '%', 'a', '5'] := by decide
  rw [hcompact] at hinfix
  have hmem : c ∈ ['5', '%', 'a', '5'] := hinfix.subset (by simp)
  simp only [List.mem_cons, List.not_mem_nil, or_false] at hmem
  rcases hmem with rfl | rfl | rfl | rfl <;> revert hc hinfix <;> decide

end Expression
end KeypadCalc
