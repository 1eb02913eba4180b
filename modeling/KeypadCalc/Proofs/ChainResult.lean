import KeypadCalc.Proofs.ChainMagnitude
import KeypadCalc.Proofs.ChainReading

/-!
# The expressions that have a result

A chain passes every check before the evaluation: two neighbours in its text are never the same mark, and
never both operators. With the reading of chains, and with the bound on their values, this settles which
texts have a result and what the result is.
-/
namespace KeypadCalc

/-- What two neighbours in the text of a chain are not: the same mark, or two operators. -/
def Separated (c d : Char) : Prop :=
  (c = d → c.isDigit = true) ∧ ¬(isOperatorChar c = true ∧ isOperatorChar d = true)

theorem isOperatorChar_of_isNumeral {c : Char} (h : Token.isNumeral c = true) :
    isOperatorChar c = false := by
  by_contra hop
  simp only [isOperatorChar, List.mem_cons, List.not_mem_nil, or_false, Bool.not_eq_false,
    decide_eq_true_eq] at hop
  rcases hop with rfl | rfl | rfl | rfl | rfl <;> cases h

theorem isNumeral_of_isDigit {c : Char} (h : c.isDigit = true) : Token.isNumeral c = true := by
  rw [Token.isNumeral, h]
  rfl

theorem separated_of_isDigit {c d : Char} (h : c.isDigit = true ∨ d.isDigit = true) :
    Separated c d := by
  rcases h with h | h
  · refine ⟨fun _ => h, fun hop => ?_⟩
    rw [isOperatorChar_of_isNumeral (isNumeral_of_isDigit h)] at hop
    cases hop.1
  · refine ⟨fun he => he ▸ h, fun hop => ?_⟩
    rw [isOperatorChar_of_isNumeral (isNumeral_of_isDigit h)] at hop
    cases hop.2

theorem isChain_of_isDigit {ds : Text} (h : ∀ c ∈ ds, c.isDigit = true) : ds.IsChain Separated :=
  List.Pairwise.isChain (List.pairwise_of_forall_mem_list fun c hc _ _ =>
    separated_of_isDigit (.inl (h c hc)))

theorem Numeral.isChain_text (n : Numeral) : n.text.IsChain Separated := by
  have hwhole := n.isDigit_whole
  have hplaces := n.isDigit_places
  have hfraction : n.fraction.IsChain Separated := by
    cases hp : n.places with
    | none => simp [fraction, hp]
    | some ds =>
      rw [hp] at hplaces
      rw [fraction, hp, List.isChain_cons]
      refine ⟨fun c hc => ?_, isChain_of_isDigit hplaces⟩
      exact separated_of_isDigit (.inr (hplaces c (List.mem_of_mem_head? hc)))
  rw [text, List.isChain_append]
  refine ⟨isChain_of_isDigit hwhole, hfraction, fun c hc _ _ => ?_⟩
  exact separated_of_isDigit (.inl (hwhole c (List.mem_of_mem_getLast? hc)))

namespace Operand

theorem mem_text {x : Operand} {c : Char} (h : c ∈ x.text) : Token.isNumeral c = true ∨ c = '%' := by
  rw [text, List.mem_append] at h
  rcases h with h | h
  · exact .inl (Numeral.mem_text h)
  · right
    split at h
    · exact List.mem_singleton.mp h
    · cases h

theorem not_isOperatorChar {x : Operand} {c : Char} (h : c ∈ x.text) : isOperatorChar c = false := by
  rcases mem_text h with h | rfl
  · exact isOperatorChar_of_isNumeral h
  · rfl

theorem separated_symbol {x : Operand} (o : BinaryOp) {c : Char} (h : c ∈ x.text) :
    Separated c o.symbol ∧ Separated o.symbol c := by
  have hop := not_isOperatorChar h
  have hne : c ≠ o.symbol := by
    rintro rfl
    rw [Item.isOperatorChar_symbol] at hop
    cases hop
  simp [Separated, hne, hne.symm, hop]

theorem isChain_text (x : Operand) : x.text.IsChain Separated := by
  rw [text, List.isChain_append]
  refine ⟨x.numeral.isChain_text, ?_, fun c hc d hd => ?_⟩
  · split <;> simp
  · obtain rfl : d = '%' := by
      split at hd
      · simpa [eq_comm] using hd
      · cases hd
    have hnumeral := Numeral.mem_text (List.mem_of_mem_getLast? hc)
    have hne : c ≠ '%' := by
      rintro rfl
      cases hnumeral
    exact ⟨fun he => absurd he hne, fun hop => by cases hop.2⟩

end Operand

namespace Chain

theorem isChain_operand_restText (x : Operand) (rest : List (BinaryOp × Operand)) :
    (x.text ++ restText rest).IsChain Separated := by
  induction rest generalizing x with
  | nil => simpa [restText] using x.isChain_text
  | cons y rest ih =>
    have htext : restText (y :: rest) = y.1.symbol :: (y.2.text ++ restText rest) := by simp [restText]
    rw [List.isChain_append, htext, List.isChain_cons]
    refine ⟨x.isChain_text, ⟨fun c hc => ?_, ih y.2⟩, fun c hc d hd => ?_⟩
    · rw [List.head?_append_of_ne_nil _ y.2.text_ne_nil] at hc
      exact (Operand.separated_symbol y.1 (List.mem_of_mem_head? hc)).2
    · obtain rfl : d = y.1.symbol := by simpa [eq_comm] using hd
      exact (Operand.separated_symbol y.1 (List.mem_of_mem_getLast? hc)).1

theorem isChain_text (c : Chain) : c.text.IsChain Separated := by
  have hbody := isChain_operand_restText c.first c.rest
  rw [text_eq]
  split
  · rw [List.singleton_append, List.isChain_cons]
    refine ⟨fun d hd => ?_, hbody⟩
    rw [List.head?_append_of_ne_nil _ c.first.text_ne_nil] at hd
    exact (Operand.separated_symbol .sub (List.mem_of_mem_head? hd)).2
  · exact hbody

theorem text_ne_nil (c : Chain) : c.text ≠ [] := by
  rw [text_eq]
  simp [c.first.text_ne_nil]

theorem head?_text {c : Chain} {d : Char} (h : d ∈ c.text.head?) : d ∉ ['+', '*', '/'] := by
  have hoperand : d ∈ (c.first.text ++ restText c.rest).head? → d ∉ ['+', '*', '/'] := by
    intro hd
    rw [List.head?_append_of_ne_nil _ c.first.text_ne_nil] at hd
    apply not_mem_of_isOperatorChar (by simp)
    exact Operand.not_isOperatorChar (List.mem_of_mem_head? hd)
  rw [text_eq] at h
  split at h
  · obtain rfl : d = '-' := by simpa [eq_comm] using h
    decide
  · exact hoperand h

/-- The last character belongs to an operand. -/
theorem getLast?_text {c : Chain} {d : Char} (h : d ∈ c.text.getLast?) :
    isOperatorChar d = false := by
  obtain ⟨front, x, hx⟩ : ∃ (front : Text) (x : Operand), c.text = front ++ x.text := by
    rw [text_eq]
    rcases List.eq_nil_or_concat c.rest with hrest | ⟨init, x, hrest⟩
    · exact ⟨_, c.first, by rw [hrest, restText, List.flatMap_nil, List.append_nil]⟩
    · refine ⟨(if c.negated then ['-'] else []) ++ (c.first.text ++ (restText init ++ [x.1.symbol])),
        x.2, ?_⟩
      simp [hrest, restText]
  rw [hx, List.getLast?_append_of_ne_nil _ x.text_ne_nil] at h
  exact Operand.not_isOperatorChar (List.mem_of_mem_getLast? h)

/-- Two equal marks in a row do not occur, even in a text with blanks that is dense the same way. -/
theorem not_infix_trim {s : Text} {c : Chain} (hdense : s.dense = c.text) {d : Char}
    (hblank : isBlank d = false) (hdigit : d.isDigit = false) (hx : d ≠ 'x') : ¬ [d, d] <:+: s.trim := by
  intro h
  have hcompact : [d, d] <:+: s.compact := by
    have hfilter := h.filter (fun c => !isBlank c)
    rw [← Text.compact_trim]
    simpa [hblank, Text.compact] using hfilter
  have hinfix : [d, d] <:+: c.text := by
    have hmap := hcompact.map fun c => if c = 'x' then '*' else c
    rw [← hdense]
    simpa [hx, Text.dense] using hmap
  have hseparated := c.isChain_text.infix hinfix
  rw [List.isChain_pair] at hseparated
  rw [hseparated.1 rfl] at hdigit
  cases hdigit

/-- A chain of moderate length passes the check before the evaluation. -/
theorem isEvaluable {s : Text} {c : Chain} (hs : s.IsAdmitted)
    (hlength : s.length ≤ evaluationLimit) (hdense : s.dense = c.text) : s.isEvaluable = true := by
  rw [Text.isEvaluable_iff hs, hdense]
  refine ⟨c.text_ne_nil, hlength, ?_, fun d hd => head?_text hd, fun d hd => getLast?_text hd, ?_, ?_⟩
  · rw [Text.hasAdjacentOperators_eq_false_iff]
    exact c.isChain_text.imp fun _ _ h => h.2
  · exact not_infix_trim hdense (by decide) (by decide) (by decide)
  · exact not_infix_trim hdense (by decide) (by decide) (by decide)

end Chain

namespace Expression

/-- The value of a text that is a chain once blanks are left out. -/
theorem value_of_chain {s : Text} {c : Chain} (hlength : s.admitted.length ≤ evaluationLimit)
    (hdense : s.admitted.dense = c.text) :
    value s = if c.dividesByZero then .error .divisionByZero else .ok c.value := by
  have hs := s.isAdmitted_admitted
  have hne : s.admitted.arithmetic.isEmpty = false := by
    rw [List.isEmpty_eq_false_iff, Text.arithmetic_eq, hdense]
    exact fun h => c.text_ne_nil (Text.expandPercents_eq_nil h).2
  simp only [value, Chain.isEvaluable hs hlength hdense, Bool.not_true, Bool.false_eq_true, if_false, hne]
  rw [Text.arithmetic_eq, hdense, Chain.arithmeticValue_text]

/-- A text that has a value is a chain once blanks are left out, and its value is that of the chain. -/
theorem exists_chain_of_value {s : Text} {v : Rat} (h : value s = .ok v) :
    s.admitted.length ≤ evaluationLimit ∧
      ∃ c : Chain, s.admitted.dense = c.text ∧ c.dividesByZero = false ∧ c.value = v := by
  have hs := s.isAdmitted_admitted
  obtain ⟨hlength, c, hdense⟩ : s.admitted.length ≤ evaluationLimit ∧
      ∃ c : Chain, s.admitted.dense = c.text := by
    rw [value] at h
    split at h
    · cases h
    · rename_i hevaluable
      split at h
      · cases h
      · have hshape := (Text.isEvaluable_iff hs).mp (by simpa using hevaluable)
        obtain ⟨-, hlength, hadjacent, hhead, hlast, -⟩ := hshape
        rw [Text.arithmetic_eq] at h
        exact ⟨hlength, Chain.exists_of_arithmeticValue s.isDense_admitted hadjacent hhead hlast h⟩
  rw [value_of_chain hlength hdense] at h
  split at h
  · cases h
  · rename_i hzero
    exact ⟨hlength, c, hdense, by simpa using hzero, Except.ok.inj h⟩

/-- Every character that counts makes the value at most ten times as large. -/
theorem abs_value_le {s : Text} {v : Rat} (h : value s = .ok v) :
    |v| ≤ 10 ^ s.admitted.compact.length := by
  obtain ⟨-, c, hdense, -, rfl⟩ := exists_chain_of_value h
  have hcount : c.text.length = s.admitted.compact.length := by
    rw [← hdense, Text.dense, List.length_map]
  exact hcount ▸ c.abs_value_le

/-- No text that is evaluated is long enough for its value to leave the range of doubles. -/
theorem ofText?_of_value {s : Text} {v : Rat} (h : value s = .ok v) :
    Double.ofText? (resultText v) =
      some (.finite (Double.nearestValue (Decimal.round .awayFromZero v).toRat)) := by
  have hlength : s.admitted.compact.length ≤ evaluationLimit :=
    (List.length_filter_le _ _).trans (exists_chain_of_value h).1
  exact ofText?_resultText (hlength.trans (by decide)) (abs_value_le h)

/-- A text that has a value has a result, the rounded value. -/
theorem result_of_value {s : Text} {v : Rat} (h : value s = .ok v) : result s = .ok (resultText v) := by
  have hread := ofText?_of_value h
  simp only [result, h, bind, Except.bind, hread]
  rfl

theorem result_of_chain {s : Text} {c : Chain} (hlength : s.admitted.length ≤ evaluationLimit)
    (hdense : s.admitted.dense = c.text) :
    result s = if c.dividesByZero then .error .divisionByZero else .ok (resultText c.value) := by
  have hvalue := value_of_chain hlength hdense
  cases hzero : c.dividesByZero with
  | true =>
    rw [hzero, if_pos rfl] at hvalue
    rw [result, hvalue]
    rfl
  | false =>
    rw [hzero, if_neg Bool.false_ne_true] at hvalue
    rw [result_of_value hvalue]
    rfl

end Expression
end KeypadCalc
