import KeypadCalc.Proofs.BufferBounds
import KeypadCalc.Proofs.OperatorKeys
import KeypadCalc.Proofs.TypedCalculation

/-!
# An operator without a right operand

When the key for equals follows an operator, the display stands in for the missing operand, so a number
on the display is combined with itself. A number with a minus in front is not: its minus comes to stand
directly behind the operator, and the expression is refused, as it is when zero is divided by itself.
-/
namespace KeypadCalc

/-- A number on the display is a numeral with a minus in front of it at most. -/
theorem exists_numeral_of_isShown {s : Text} {a : Rat} (hs : s.IsShown)
    (h : Literal.value? s = some a) :
    ∃ n : Numeral, s = n.text ∧ a = n.value ∨ s = '-' :: n.text ∧ a = -n.value := by
  obtain ⟨mark, body, rfl, rfl | rfl | rfl, hbody⟩ := hs.exists_mark
  · obtain ⟨n, hn, hvalue⟩ := Numeral.exists_of_value? hbody h
    exact ⟨n, .inl ⟨hn.symm, hvalue.symm⟩⟩
  · obtain ⟨n, hn, hvalue⟩ := Numeral.exists_of_value?_minus hbody h
    exact ⟨n, .inr ⟨congrArg (List.cons '-') hn.symm, hvalue⟩⟩
  · rw [List.singleton_append, Literal.value?_infinity] at h
    cases h

/-- The last character of a number on the display is a digit or a point. -/
theorem endsWithOperator_number {s : Text} {n : Numeral} {a : Rat}
    (h : s = n.text ∧ a = n.value ∨ s = '-' :: n.text ∧ a = -n.value) :
    s.endsWithOperator = false := by
  rcases h with ⟨rfl, -⟩ | ⟨rfl, -⟩
  · exact Draft.endsWithOperator_numeral [] n
  · exact Draft.endsWithOperator_numeral ['-'] n

namespace Chain

/-- A numeral, an operator, and the numeral again. -/
def twice (n : Numeral) (o : BinaryOp) : Chain where
  first := { numeral := n }
  rest := [(o, { numeral := n })]

theorem typedText_twice (n : Numeral) (o : BinaryOp) :
    (twice n o).typedText = n.text ++ [' ', o.glyph, ' '] ++ n.text := by
  simp [twice, typedText, leadText, typedRest, Operand.text]

/-- There is room for every number on the display twice. -/
theorem length_twice {n : Numeral} (o : BinaryOp) (h : n.text.length ≤ longestResult) :
    (twice n o).typedText.length ≤ evaluationLimit := by
  rw [longestResult] at h
  rw [typedText_twice, List.length_append, List.length_append, evaluationLimit]
  simp only [List.length_cons, List.length_nil]
  omega

theorem dividesByZero_twice (n : Numeral) (o : BinaryOp) :
    (twice n o).dividesByZero = (decide (o = .div) && decide (n.value = 0)) := by
  simp [twice, dividesByZero, Operand.value]

theorem value_twice {n : Numeral} {o : BinaryOp} {v : Rat} (h : o.apply n.value n.value = .ok v) :
    (twice n o).dividesByZero = false ∧ (twice n o).value = v := by
  rw [dividesByZero_twice, value_eq]
  cases o with
  | add =>
    obtain rfl : n.value + n.value = v := Except.ok.inj h
    simp [twice, parts, BinaryOp.follow, Operand.value]
  | sub =>
    obtain rfl : n.value - n.value = v := Except.ok.inj h
    simp [twice, parts, BinaryOp.follow, Operand.value]
  | mul =>
    obtain rfl : n.value * n.value = v := Except.ok.inj h
    simp [twice, parts, BinaryOp.follow, Operand.value]
  | div =>
    rw [BinaryOp.apply] at h
    split at h
    · cases h
    · obtain rfl : n.value / n.value = v := Except.ok.inj h
      simp [twice, parts, BinaryOp.follow, Operand.value, *]

end Chain

/-- Two operators in a row are refused. -/
theorem Expression.result_of_adjacent {s : Text} {c d : Char} (hadjacent : [c, d] <:+: s.admitted.dense)
    (hc : isOperatorChar c = true) (hd : isOperatorChar d = true) : result s = .error .refused := by
  have hevaluable : s.admitted.isEvaluable = false := by
    by_contra h
    obtain ⟨-, -, hnone, -⟩ := (Text.isEvaluable_iff s.isAdmitted_admitted).mp (by simpa using h)
    have hchain := List.IsChain.infix (Text.hasAdjacentOperators_eq_false_iff.mp hnone) hadjacent
    rw [List.isChain_pair] at hchain
    exact hchain ⟨hc, hd⟩
  rw [result, value, hevaluable]
  rfl

namespace Draft

/-- The draft after an operator behind what the display shows. -/
def continued (d : Draft) (o : BinaryOp) : Draft :=
  { d with
    expression := d.display ++ [' ', o.glyph, ' ']
    lastKey := some (.op o)
    justComputed := false
    awaitingOperand := true }

/-- With nothing but the display in the expression, an operator is accepted behind it. -/
theorem typeKey_operator {d : Draft} (hshown : d.display.IsShown)
    (hlength : d.display.length ≤ longestResult) (hend : d.display.endsWithOperator = false)
    (hexpression : d.expression = [] ∨ d.expression = d.display) (o : BinaryOp) :
    d.typeKey (.op o) = some (d.continued o) := by
  have hleft : d.operatorLeft = d.display := by
    rcases hexpression with h | h
    · rw [operatorLeft, h]
      rfl
    · rw [operatorLeft, h, hend, if_neg Bool.false_ne_true, ite_self]
  have hharmless : d.display.IsHarmless := hshown.isSpelled.isHarmless
  have hfits : d.display.length + 3 ≤ expressionLimit := Nat.add_le_add_right hlength 3 |>.trans (by decide)
  have htakes : d.TakesOperator d.display := ⟨hharmless, hharmless, le_max_of_le_left hfits⟩
  exact htakes.typeKey hleft o

theorem toEvaluate_continued (d : Draft) (o : BinaryOp) :
    (d.continued o).toEvaluate = d.display ++ [' ', o.glyph, ' '] ++ d.display :=
  if_pos (endsWithOperator_operator d.display o)

/-- A minus in front of the display comes to stand behind the operator, and the text is refused. -/
theorem calculate_continued_minus {d : Draft} {n : Numeral} (hdisplay : d.display = '-' :: n.text)
    (o : BinaryOp) : (d.continued o).calculate = .error .invalidExpression := by
  have hminus : Text.IsAdmitted ('-' :: n.text) := by
    intro c hc
    rcases List.mem_cons.mp hc with rfl | h
    · rfl
    · exact isExpressionChar_of_isNumeral (Numeral.mem_text h)
  have hadmitted : Text.IsAdmitted (d.continued o).toEvaluate.compact := by
    rw [toEvaluate_continued, hdisplay]
    exact fun c hc => (hminus.append (Text.isAdmitted_operator o)).append hminus c (List.mem_of_mem_filter hc)
  have hadjacent : [o.symbol, '-'] <:+: (d.continued o).toEvaluate.compact.admitted.dense := by
    have hdense : Text.dense ('-' :: n.text) = '-' :: n.text.dense := rfl
    rw [Text.admitted_eq_self hadmitted, Text.dense_compact, toEvaluate_continued, hdisplay,
      Text.dense_append, Text.dense_append, Text.dense_operator, hdense]
    exact ⟨'-' :: n.text.dense, n.text.dense, by simp⟩
  refine calculate_of_error (fun hempty => ?_)
    (Expression.result_of_adjacent hadjacent (Item.isOperatorChar_symbol o) rfl)
  rw [(Text.trim_eq_nil_iff _).mp hempty] at hadjacent
  exact absurd (List.infix_nil.mp hadjacent) (List.cons_ne_nil _ _)

/-- Zero is divided by zero. -/
theorem calculate_continued_zero {d : Draft} {n : Numeral} (hdisplay : d.display = n.text)
    (hlength : d.display.length ≤ longestResult) (hzero : n.value = 0) :
    (d.continued .div).calculate = .error .invalidExpression := by
  have htext : (d.continued .div).toEvaluate = (Chain.twice n .div).typedText := by
    rw [toEvaluate_continued, Chain.typedText_twice, hdisplay]
  obtain ⟨hshort, hdense⟩ := Chain.admitted_typedText (Chain.length_twice .div (hdisplay ▸ hlength))
  have hresult : Expression.result (d.continued .div).toEvaluate.compact = .error .divisionByZero := by
    rw [htext, Expression.result_of_chain hshort hdense, Chain.dividesByZero_twice, hzero]
    rfl
  refine calculate_of_error ?_ hresult
  rw [htext]
  exact Chain.trim_typedText_ne_nil _

end Draft

namespace Session

/-- The calculation without a right operand has failed: the draft is as the operator has left it, and
the history is as it was. The error is shown unless it would be over as soon as it begins. -/
structure Incomplete (before after : Session) (o : BinaryOp) (now : Time) : Prop where
  draft_eq : after.draft = before.draft.continued o
  history_eq : after.history = before.history
  error_eq : after.error =
    if now < Time.after now before.parameters.errorDuration then some "Invalid expression".toList else none

/-- An operator behind a number that stands alone on the display, and the key for equals: the operator is
applied to the number and itself, as in a chain that has it twice. The calculation fails exactly where
zero is divided by itself or the display begins with a minus. -/
theorem repeats_operand (p : Parameters) (before : List Event) (o : BinaryOp) (a : Rat) :
    let s := (new p).run before
    s.isCalculating = false → Literal.value? s.draft.display = some a →
    (s.draft.expression = [] ∨ s.draft.expression = s.draft.display) →
    ∀ (typing : List Event) (t : Time) (waits : List Time) (now : Time), Presses [.op o] typing →
      (∀ w ∈ waits, w < Time.after t p.calculationDelay) → Time.after t p.calculationDelay ≤ now →
      let s' := s.run (typing ++ equalsEvents t waits now)
      (∀ v, s.draft.display.head? ≠ some '-' → o.apply a a = .ok v →
        ∃ c : Chain, c.typedText = s.draft.display ++ [' ', o.glyph, ' '] ++ s.draft.display ∧
          c.value = v ∧ Calculated s s' c) ∧
      (s.draft.display.head? = some '-' ∨ (o = .div ∧ a = 0) → Incomplete s s' o now) := by
  intro s hcalculating hvalue hexpression typing t waits now htyping hwaits hnow s'
  have hshown : s.draft.display.IsShown := isShown_run p before
  have hlength : s.draft.display.length ≤ longestResult := length_display_run p before
  have hparameters : s.parameters = p := parameters_run (new p) before
  obtain ⟨n, hnumber⟩ := exists_numeral_of_isShown hshown hvalue
  have hkeys : s.draft.typeKeys [.op o] = some (s.draft.continued o) := by
    have hend := endsWithOperator_number hnumber
    rw [Draft.typeKeys_cons (Draft.typeKey_operator hshown hlength hend hexpression o)]
    rfl
  rw [← hparameters] at hwaits hnow
  obtain ⟨due, hrun, hdue, hdraft, hhistory, hdueParameters, hnone⟩ :=
    exists_due htyping (calculation_eq_idle hcalculating) hkeys hwaits hnow
  have hfailed (h : (s.draft.continued o).calculate = .error .invalidExpression) :
      Incomplete s s' o now := by
    obtain ⟨hkept, hstored, herror⟩ := advance_of_error hdue (hdraft ▸ h)
    rw [← hrun] at hkept hstored herror
    rw [hdueParameters] at herror
    exact ⟨hkept.trans hdraft, hstored.trans hhistory, herror⟩
  rcases hnumber with ⟨hdisplay, rfl⟩ | ⟨hdisplay, rfl⟩
  · constructor
    · intro v _ hv
      obtain ⟨hzero, hvalue⟩ := Chain.value_twice hv
      have hchain : (Chain.twice n o).typedText =
          s.draft.display ++ [' ', o.glyph, ' '] ++ s.draft.display := by
        rw [Chain.typedText_twice, hdisplay]
      have htext : due.draft.toEvaluate = (Chain.twice n o).typedText := by
        rw [hdraft, Draft.toEvaluate_continued, hchain]
      have hcapacity : s.history.capacity = max 1 s.parameters.historyCapacity := by
        rw [hparameters]
        exact capacity_run p before
      have h := calculated_of_value hcapacity hhistory hdue htext
        (Chain.length_twice o (hdisplay ▸ hlength)) hzero hnone
      rw [← hrun] at h
      exact ⟨.twice n o, hchain, hvalue, h⟩
    · rintro (hminus | ⟨rfl, hzero⟩)
      · rw [hdisplay] at hminus
        cases Numeral.mem_text (List.mem_of_mem_head? hminus)
      · exact hfailed (Draft.calculate_continued_zero hdisplay hlength hzero)
  · constructor
    · intro v hhead
      rw [hdisplay] at hhead
      exact absurd rfl hhead
    · intro _
      exact hfailed (Draft.calculate_continued_minus hdisplay o)

/-- `7 x =` is `49`. -/
theorem repeats_seven :
    let s := (new {}).run [.press (.digit 7) 0]
    s.isCalculating = false ∧ Literal.value? s.draft.display = some 7 ∧
      ∃ c : Chain, c.typedText = "7 x 7".toList ∧ c.value = 49 ∧
        Calculated s (s.run (.press (.op .mul) 0 :: equalsEvents 0 [] (Time.ofMillis 50))) c := by
  intro s
  have hcalculating : s.isCalculating = false := by decide +kernel
  have hvalue : Literal.value? s.draft.display = some 7 := by decide +kernel
  have hpresses : Presses [.op .mul] [.press (.op .mul) 0] := .press _ _ .done
  have hsquare : BinaryOp.apply .mul 7 7 = .ok 49 := eq_ok_of_toOption (by decide +kernel)
  obtain ⟨hcommit, -⟩ := repeats_operand {} [.press (.digit 7) 0] .mul 7 hcalculating hvalue
    (.inr (by decide +kernel)) _ 0 [] (Time.ofMillis 50) hpresses (by simp) (by decide +kernel)
  exact ⟨hcalculating, hvalue, hcommit 49 (by decide +kernel) hsquare⟩

/-- Not every number is combined with itself: behind the result `-2` of `3 - 5` an addition would have to
give `-4`, but the completed text `-2 + -2` is refused. -/
theorem not_repeats_operand :
    ¬ ∀ (p : Parameters) (before : List Event) (o : BinaryOp) (a v : Rat) (t now : Time),
      let s := (new p).run before
      s.isCalculating = false → Literal.value? s.draft.display = some a →
      (s.draft.expression = [] ∨ s.draft.expression = s.draft.display) → o.apply a a = .ok v →
      Time.after t p.calculationDelay ≤ now →
      ∃ x, Double.ofText? (resultText v) = some x ∧
        (s.run [.press (.op o) t, .press .equals t, .advance now]).draft =
          Draft.afterResult x.displayText := by
  intro h
  let keys : List Key := [.digit 3, .op .sub, .digit 5, .equals]
  obtain ⟨x, -, hdraft⟩ := h {} (keys.map (fun key => .press key 0) ++ [.advance (Time.ofMillis 50)])
    .add (-2) (-4) (Time.ofMillis 60) (Time.ofMillis 110) (by decide +kernel) (by decide +kernel)
    (.inl (by decide +kernel)) (eq_ok_of_toOption (by decide +kernel)) (by decide +kernel)
  have hresult : (Draft.afterResult x.displayText).justComputed = true := rfl
  have hcomputed := (congrArg Draft.justComputed hdraft).trans hresult
  exact absurd hcomputed (by decide +kernel)

end Session

end KeypadCalc
