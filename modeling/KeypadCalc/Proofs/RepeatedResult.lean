import KeypadCalc.Proofs.BufferBounds
import KeypadCalc.Proofs.DoubleGrid
import KeypadCalc.Proofs.TypedCalculation

/-!
# The key for equals on a result

What a calculation has left is evaluated again as it stands: the expression is empty, so the text is that of
the display. A decimal has itself as its exact value, and the decimal of a double is shown unchanged, so the
same result is committed again, however often the key is pressed. Only the infinity sign has no value; it
stays on the display, with an error.
-/
namespace KeypadCalc

namespace Decimal

theorem compact_render (d : Decimal) : d.render.compact = d.render := by
  refine Text.compact_eq_self fun c hc => ?_
  rcases mem_render hc with rfl | hc
  · decide
  · exact Token.isBlank_of_isNumeral hc

theorem value_beginning (d : Decimal) : (d.beginning []).value = d.toRat := by
  rw [Chain.value_eq, toRat_eq_numeral]
  show (0 : Rat) + (if decide (d.units < 0) then -d.numeral.value else d.numeral.value) = _
  rw [zero_add, if_congr decide_eq_true_iff rfl rfl]

/-- The exact value of a decimal that is evaluated is the decimal. -/
theorem value_render {d : Decimal} (h : d.render.length ≤ evaluationLimit) :
    Expression.value d.render = .ok d.toRat := by
  have htext : (d.beginning []).typedText = d.render := by
    rw [Chain.typedText, d.leadText_beginning]
    exact List.append_nil _
  rw [← htext] at h
  obtain ⟨hlength, hdense⟩ := Chain.admitted_typedText h
  rw [htext, d.compact_render] at hlength hdense
  rw [Expression.value_of_chain hlength hdense, ← d.value_beginning]
  rfl

end Decimal

/-- What the display shows of a double, other than the infinity sign, is the decimal that it is evaluated
to, and that decimal is shown unchanged. -/
theorem Double.value_displayText {x : Rat} (hx : IsDouble x)
    (h : (Double.finite x).displayText ≠ ['∞']) :
    ∃ v : Rat, Expression.value (Double.finite x).displayText = .ok v ∧
      resultText v = (Double.finite x).displayText ∧ Draft.shown v = (Double.finite x).displayText := by
  obtain ⟨hsmall, hrender⟩ := displayText_eq_render h
  have hvalue := Decimal.abs_toRat_round_le .toEven (n := 10 ^ 15) (by exact_mod_cast hsmall)
  have hlength := Decimal.length_render_round_le hx hsmall
  rw [hrender]
  refine ⟨(Decimal.round .toEven x).toRat, Decimal.value_render (hlength.trans (by decide)), ?_, ?_⟩
  · rw [resultText_eq, Decimal.round_toRat]
  · rw [Draft.shown_eq_render (by exact_mod_cast hvalue), Decimal.round_toRat, Decimal.displayed_round hx]

namespace Draft

theorem toEvaluate_afterResult (shown : Text) : (afterResult shown).toEvaluate = shown := rfl

/-- The infinity sign has no value. -/
theorem calculate_infinity : (afterResult ['∞']).calculate = .error .invalidExpression := by
  refine calculate_of_error (e := .refused) ?_ ?_
  · decide
  · decide

/-- A finite result is calculated to what is shown already. -/
theorem calculate_afterResult {v : Rat} (h : shown v ≠ ['∞']) :
    (afterResult (shown v)).calculate = .ok (some (shown v)) := by
  obtain ⟨w, hvalue, -, hshown⟩ := Double.value_displayText (Double.isDouble_nearestValue _) h
  have hcompact : (shown v).compact = shown v := by
    obtain ⟨d, hd⟩ := exists_render_of_shown h
    rw [hd, d.compact_render]
  rw [← shown] at hvalue hshown
  rw [calculate_of_value (v := w) (by rw [toEvaluate_afterResult, hcompact, hvalue]), hshown]

end Draft

namespace Session

/-- When a result is shown and nothing is pending, the key for equals and the delay after it leave the draft
as it is: a finite result is committed once more, and the infinity sign is refused with an error. This is so
for whatever double the display shows: other than the infinity sign, its text is its own result, and the
double nearest to it is shown the same way. -/
theorem repeats_result (p : Parameters) (before : List Event) :
    let s := (new p).run before
    (s.draft.justComputed = true → s.isCalculating = false →
      ∀ (t : Time) (waits : List Time) (now : Time),
        (∀ w ∈ waits, w < Time.after t p.calculationDelay) → Time.after t p.calculationDelay ≤ now →
        let s' := s.run (equalsEvents t waits now)
        s'.draft = s.draft ∧
          (s.draft.display ≠ ['∞'] →
            s'.history =
                { s.history with
                  entries :=
                    ({ expression := Text.forStorage History.expressionLimit s.draft.display.normalizeBlanks
                       result := Text.forStorage History.resultLimit s.draft.display } ::
                      s.history.entries).take (max 1 p.historyCapacity) } ∧
              s'.error = none) ∧
          (s.draft.display = ['∞'] →
            s'.history = s.history ∧
              s'.error =
                if 0 < p.errorDuration ∧ now < Time.last then some "Invalid expression".toList
                else none)) ∧
      ∀ (bits : BitVec 64) (x : Rat), Double.ofBits bits = .finite x →
        let shown := (Double.finite x).displayText
        shown ≠ ['∞'] →
          Expression.result shown = .ok shown ∧
            ∃ y : Double, Double.ofText? shown = some y ∧ y.displayText = shown := by
  intro s
  constructor
  · intro hcomputed hcalculating t waits now hwaits hnow s'
    have hparameters : s.parameters = p := parameters_run (new p) before
    obtain ⟨v, hdraft⟩ := showsResult_run p before hcomputed
    rw [← hparameters] at hwaits hnow
    obtain ⟨due, hrun, hdue, hkept, hhistory, hsame, hnone⟩ :=
      exists_due .done (calculation_eq_idle hcalculating) rfl hwaits hnow
    rw [List.nil_append] at hrun
    have hdisplay : s.draft.display = Draft.shown v := by
      rw [hdraft]
      rfl
    rw [show s' = due.advance now from hrun, hdisplay]
    by_cases hfinite : Draft.shown v = ['∞']
    · have hfailed : due.draft.calculate = .error .invalidExpression := by
        rw [hkept, hdraft, hfinite, Draft.calculate_infinity]
      obtain ⟨hafter, hentries, herror⟩ := advance_of_error hdue hfailed
      rw [hsame, hparameters, if_congr Time.lt_after_iff rfl rfl] at herror
      exact ⟨hafter.trans hkept, fun h => absurd hfinite h, fun _ => ⟨hentries.trans hhistory, herror⟩⟩
    · have hcommitted : due.draft.calculate = .ok (some (Draft.shown v)) := by
        rw [hkept, hdraft, Draft.calculate_afterResult hfinite]
      obtain ⟨hafter, hentries, herror⟩ := advance_of_shown hdue hcommitted
      rw [hkept, hdraft, Draft.toEvaluate_afterResult, hhistory, capacity_run p before] at hentries
      exact ⟨hafter.trans hdraft.symm, fun _ => ⟨hentries, herror hnone⟩, fun h => absurd h hfinite⟩
  · intro bits x hbits shown hfinite
    obtain ⟨v, hvalue, hresult, hshown⟩ := Double.value_displayText (Double.isDouble_ofBits hbits) hfinite
    have hread := Expression.ofText?_of_value hvalue
    rw [hresult] at hread
    exact ⟨by rw [Expression.result_of_value hvalue, hresult], _, hread, hshown⟩

/-- The result of `67108864.1` is shown as `67108864.09999999`, and is so again; the product of two numbers
with eight digits is shown as infinite, and the key for equals on it puts up an error. -/
theorem repeats_above_threshold :
    let committed : List Event := [.advance (Time.ofMillis 50)]
    let again := equalsEvents (Time.ofMillis 60) [Time.ofMillis 70] (Time.ofMillis 110)
    let s := (new {}).run (keysAboveThreshold ++ committed)
    let digits : List Key := List.replicate 8 (.digit 9)
    let keys : List Key := digits ++ .op .mul :: digits ++ [.equals]
    let product : List Event := keys.map fun k => .press k 0
    let s' := (new {}).run (product ++ committed)
    (s.draft.display = "67108864.09999999".toList ∧ (s.run again).draft = s.draft ∧
        (s.run again).history.entries =
          [⟨"67108864.09999999".toList, "67108864.09999999".toList⟩,
            ⟨"67108864.1".toList, "67108864.09999999".toList⟩]) ∧
      (s'.draft.display = ['∞'] ∧ (s'.run again).draft = s'.draft ∧
        (s'.run again).error = some "Invalid expression".toList) ∧
      Double.ofBits 0x4190000000666666#64 = .finite (2251799817040691 / 33554432) ∧
      Expression.result "67108864.09999999".toList = .ok "67108864.09999999".toList := by
  intro committed again s digits keys product s'
  have hwaits : ∀ w ∈ [Time.ofMillis 70], w < Time.after (Time.ofMillis 60) (Time.ofMillis 50) := by decide
  have hnow : Time.after (Time.ofMillis 60) (Time.ofMillis 50) ≤ Time.ofMillis 110 := by decide
  obtain ⟨hrepeats, hdoubles⟩ := repeats_result {} (keysAboveThreshold ++ committed)
  have hdisplay : s.draft.display = "67108864.09999999".toList := by decide +kernel
  have hinfinite : s'.draft.display = ['∞'] := by decide +kernel
  have hbits : Double.ofBits 0x4190000000666666#64 = .finite (2251799817040691 / 33554432) := by
    decide +kernel
  refine ⟨?_, ?_, hbits, ?_⟩
  · obtain ⟨hdraft, hfinite, -⟩ := hrepeats (by decide +kernel) (by decide +kernel) _ _ _ hwaits hnow
    have hrecorded := congrArg History.entries (hfinite (by rw [hdisplay]; decide)).1
    exact ⟨hdisplay, hdraft, hrecorded.trans (by decide +kernel)⟩
  · have hrefused := (repeats_result {} (product ++ committed)).1
    rw [show (new {}).run (product ++ committed) = s' from rfl] at hrefused
    obtain ⟨hdraft, -, herror⟩ := hrefused (by decide +kernel) (by decide +kernel) _ _ _ hwaits hnow
    exact ⟨hinfinite, hdraft, (herror hinfinite).2.trans (if_pos (by decide))⟩
  · have hshown : (Double.finite (2251799817040691 / 33554432)).displayText =
        "67108864.09999999".toList := by decide +kernel
    have hresult := (hdoubles _ _ hbits (by rw [hshown]; decide)).1
    rwa [hshown] at hresult

end Session
end KeypadCalc
