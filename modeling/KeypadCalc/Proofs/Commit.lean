import KeypadCalc.Session
import KeypadCalc.Proofs.ChainResult
import KeypadCalc.Proofs.DecimalDisplay

/-!
# What a calculation shows

A text with a value is calculated, and what is shown is the rounded value read back as a double. When
the time of a scheduled calculation has come, one step of the session takes over the result and adds
one entry to the history, or reports the error and leaves draft and history alone.
-/
namespace KeypadCalc

namespace Expression

theorem resultText_ne_invalidInput (r : Rat) : resultText r ≠ invalidInput := by
  intro h
  have hletter : 'i' ∈ (Decimal.round .awayFromZero r).render := by
    rw [← resultText_eq, h]
    decide
  rcases Decimal.mem_render hletter with hminus | hnumeral
  · cases hminus
  · cases hnumeral

theorem result_ne_invalidInput {s t : Text} (h : result s = .ok t) : t ≠ invalidInput := by
  obtain ⟨v, hv, -⟩ := exists_of_bind h
  rw [result_of_value hv] at h
  exact Except.ok.inj h ▸ resultText_ne_invalidInput v

/-- The text that stands for a failure is given for failures only. -/
theorem resultOrInvalid_eq_invalidInput_iff {s : Text} :
    resultOrInvalid s = invalidInput ↔ ∃ e, result s = .error e := by
  unfold resultOrInvalid
  cases hresult : result s with
  | ok t => simpa using result_ne_invalidInput hresult
  | error e => simp

end Expression

theorem Decimal.isAdmitted_render (d : Decimal) : d.render.IsAdmitted := by
  intro c hc
  rcases mem_render hc with rfl | hc
  · rfl
  · exact isExpressionChar_of_isNumeral hc

theorem Double.isUnmarked_displayText (value : Rat) : (Double.finite value).displayText.IsUnmarked := by
  rw [Double.displayText_finite]
  split
  · exact Text.hasMarkup_eq_false_iff.mp (by decide)
  · split
    · exact Text.hasMarkup_eq_false_iff.mp (by decide)
    · exact (Decimal.isAdmitted_render _).isSpelled.isHarmless.toIsUnmarked

namespace Draft

/-- What is shown of an exact value. -/
def shown (v : Rat) : Text :=
  (Double.finite (Double.nearestValue (Decimal.round .awayFromZero v).toRat)).displayText

theorem shown_eq_render {v : Rat} (h : |v| ≤ 10 ^ 15) :
    shown v = (Decimal.round .awayFromZero v).displayed.render := by
  have hround := Decimal.abs_toRat_round_le .awayFromZero (n := 10 ^ 15) (by exact_mod_cast h)
  have hnearest := Double.abs_nearestValue_le (n := 10 ^ 15) (by norm_num) hround
  exact Double.displayText_of_abs_le (by exact_mod_cast hnearest)

/-- The decimal of the result is shown unchanged, or it is not. -/
theorem shown_eq_resultText_iff {v : Rat} (h : |v| ≤ 10 ^ 15) :
    shown v = resultText v ↔
      (Decimal.round .awayFromZero v).displayed = Decimal.round .awayFromZero v := by
  rw [shown_eq_render h, resultText_eq]
  exact ⟨fun he => Decimal.render_injective he, fun he => by rw [he]⟩

theorem shown_eq_resultText {v : Rat} (h : |v| ≤ 10 ^ 15) (hclose : |v| ≤ 2 ^ 26 ∨ ∃ n : Int, v = n) :
    shown v = resultText v := by
  rw [shown_eq_resultText_iff h]
  rcases hclose with hclose | ⟨n, rfl⟩
  · have hround := Decimal.abs_toRat_round_le .awayFromZero (n := 2 ^ 26) (by exact_mod_cast hclose)
    exact Decimal.displayed_of_abs_le (by exact_mod_cast hround)
  · have hexact := Decimal.toRat_round_intCast .awayFromZero n
    refine Decimal.displayed_of_integer hexact ?_
    rw [hexact]
    exact lt_of_le_of_lt h (by norm_num)

theorem trim_ne_nil_of_value {s : Text} {v : Rat} (h : Expression.value s.compact = .ok v) :
    s.trim ≠ [] := by
  intro hempty
  obtain ⟨-, c, hdense, -⟩ := Expression.exists_chain_of_value h
  rw [Text.trim_eq_nil_iff] at hempty
  rw [hempty] at hdense
  exact c.text_ne_nil hdense.symm

theorem calculate_of_value {d : Draft} {v : Rat}
    (h : Expression.value d.toEvaluate.compact = .ok v) : d.calculate = .ok (some (shown v)) := by
  have hempty : d.toEvaluate.trim.isEmpty = false :=
    List.isEmpty_eq_false_iff.mpr (trim_ne_nil_of_value h)
  have hvalid := Expression.resultText_ne_invalidInput v
  have hunmarked (x : Rat) : (Double.finite x).displayText.hasMarkup = false :=
    Text.hasMarkup_eq_false_iff.mpr (Double.isUnmarked_displayText x)
  simp only [calculate, hempty, Expression.resultOrInvalid, Expression.result_of_value h, hvalid,
    Expression.ofText?_of_value h, hunmarked, Bool.false_eq_true, if_false]
  rfl

theorem calculate_of_blank {d : Draft} (h : d.toEvaluate.trim = []) : d.calculate = .ok none := by
  rw [calculate, h]
  rfl

theorem calculate_of_error {d : Draft} {e : EvalError} (hne : d.toEvaluate.trim ≠ [])
    (h : Expression.result d.toEvaluate.compact = .error e) :
    d.calculate = .error .invalidExpression := by
  have hinvalid := Expression.resultOrInvalid_eq_invalidInput_iff.mpr ⟨e, h⟩
  simp only [calculate, List.isEmpty_eq_false_iff.mpr hne, hinvalid, Bool.false_eq_true, if_false, if_true]

end Draft

namespace Session

theorem eq_ok_of_toOption {ε α : Type} {x : Except ε α} {a : α} (h : x.toOption = some a) :
    x = .ok a := by
  cases x with
  | error e => cases h
  | ok b => exact congrArg _ (Option.some.inj h)

theorem parameters_expire (s : Session) (now : Time) : (s.expire now).parameters = s.parameters := by
  unfold expire
  split <;> rfl

theorem draft_expire (s : Session) (now : Time) : (s.expire now).draft = s.draft := by
  unfold expire
  split <;> rfl

theorem history_expire (s : Session) (now : Time) : (s.expire now).history = s.history := by
  unfold expire
  split <;> rfl

theorem isCalculating_expire (s : Session) (now : Time) :
    (s.expire now).isCalculating = s.isCalculating := by
  unfold expire
  split <;> rfl

theorem settle_of_shown {s : Session} {now : Time} {shown : Text}
    (hdue : s.calculation.isDue now = true) (h : s.draft.calculate = .ok (some shown)) :
    s.settle now =
      { s with
        calculation := .idle
        history := s.history.add (Draft.entry s.draft.toEvaluate shown)
        draft := Draft.afterResult shown } := by
  rw [settle, if_pos hdue, complete, h]

theorem settle_of_error {s : Session} {now : Time} {e : CalculationError}
    (hdue : s.calculation.isDue now = true) (h : s.draft.calculate = .error e) :
    s.settle now = { s with calculation := .idle }.report e now := by
  rw [settle, if_pos hdue, complete, h]

/-- A due calculation of a text with a value of moderate size commits, and the display shows the double
nearest to the text of the result, rounded to eight places. This is the text of the result exactly when
that double is no more than half a unit of the last place away, and the half only if the last place is
even; so it is up to `2 ^ 26`, and for integers. -/
theorem display_of_commit {s : Session} {now : Time} {v : Rat}
    (hdue : s.calculation.isDue now = true)
    (hvalue : Expression.value s.draft.toEvaluate.compact = .ok v) (hsmall : |v| ≤ 10 ^ 15) :
    Expression.result s.draft.toEvaluate.compact = .ok (resultText v) ∧
      ∃ x : Rat, Double.ofText? (resultText v) = some (.finite x) ∧
        (s.advance now).draft =
          { display := (Decimal.round .toEven x).render, lastKey := some .equals, justComputed := true } ∧
        (s.advance now).history =
          { s.history with
            entries :=
              ({ expression := Text.forStorage History.expressionLimit (Text.normalizeBlanks s.draft.toEvaluate)
                 result := Text.forStorage History.resultLimit (Decimal.round .toEven x).render } ::
                s.history.entries).take s.history.capacity } ∧
        ((s.advance now).draft.display = resultText v ↔
          let units := (Decimal.round .awayFromZero v).units
          |x * unitsPerOne - units| < 1 / 2 ∨ |x * unitsPerOne - units| = 1 / 2 ∧ units % 2 = 0) ∧
        (|v| ≤ 2 ^ 26 ∨ (∃ n : Int, v = n) → (s.advance now).draft.display = resultText v) := by
  have hsettle := settle_of_shown hdue (Draft.calculate_of_value hvalue)
  have hdraft : (s.advance now).draft = Draft.afterResult (Draft.shown v) := by
    rw [advance, draft_expire, hsettle]
  have hhistory : (s.advance now).history =
      { s.history with
        entries :=
          (Draft.entry s.draft.toEvaluate (Draft.shown v) :: s.history.entries).take s.history.capacity } := by
    rw [advance, history_expire, hsettle]
    rfl
  have hdisplay : (s.advance now).draft.display = Draft.shown v := by
    rw [hdraft, Draft.afterResult]
  have hshown := Draft.shown_eq_render hsmall
  refine ⟨Expression.result_of_value hvalue, _, Expression.ofText?_of_value hvalue, ?_, ?_, ?_, ?_⟩
  · rw [hdraft, hshown, Decimal.displayed, Draft.afterResult]
  · rw [hhistory, hshown, Decimal.displayed]
    rfl
  · rw [hdisplay, Draft.shown_eq_resultText_iff hsmall, Decimal.displayed_eq_iff]
  · intro hclose
    rw [hdisplay, Draft.shown_eq_resultText hsmall hclose]

theorem display_of_one_eighth :
    let s := (new {}).run ([.digit 1, .op .div, .digit 8, .equals].map fun k => .press k 0)
    s.calculation.isDue (Time.ofMillis 50) = true ∧
      Expression.value s.draft.toEvaluate.compact = .ok (1 / 8) ∧ |(1 / 8 : Rat)| ≤ 10 ^ 15 ∧
      (s.advance (Time.ofMillis 50)).draft.display = resultText (1 / 8) := by
  intro s
  have hdue : s.calculation.isDue (Time.ofMillis 50) = true := by decide +kernel
  have hvalue : Expression.value s.draft.toEvaluate.compact = .ok (1 / 8) :=
    eq_ok_of_toOption (by decide +kernel)
  have hsmall : |(1 / 8 : Rat)| ≤ 10 ^ 15 := by norm_num [abs_le]
  obtain ⟨-, x, -, -, -, -, hdisplay⟩ := display_of_commit hdue hvalue hsmall
  exact ⟨hdue, hvalue, hsmall, hdisplay (.inl (by norm_num [abs_le]))⟩

/-- The keys of `67108864.1`, a little above `2 ^ 26`, and the key for equals. -/
def keysAboveThreshold : List Event :=
  [.digit 6, .digit 7, .digit 1, .digit 0, .digit 8, .digit 8, .digit 6, .digit 4, .point, .digit 1,
    .equals].map fun k => .press k 0

/-- The display does not always show the text of the result: `67108864.1` becomes
`67108864.09999999`. -/
theorem not_display_eq_resultText :
    ¬ ∀ (p : Parameters) (events : List Event) (now : Time) (v : Rat),
      ((new p).run events).calculation.isDue now = true →
      Expression.value ((new p).run events).draft.toEvaluate.compact = .ok v →
      |v| ≤ 10 ^ 15 →
      (((new p).run events).advance now).draft.display = resultText v := by
  intro h
  have hvalue : Expression.value ((new {}).run keysAboveThreshold).draft.toEvaluate.compact =
      .ok (671088641 / 10) := eq_ok_of_toOption (by decide +kernel)
  have hdisplay := h {} keysAboveThreshold (Time.ofMillis 50) _ (by decide +kernel) hvalue
    (by norm_num [abs_le])
  exact absurd hdisplay (by decide +kernel)

end Session
end KeypadCalc
