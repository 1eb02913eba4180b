import KeypadCalc.Proofs.DoubleText
import KeypadCalc.Proofs.ReachedDraft

/-!
# How long the texts of a session get

A key makes a text longer only up to a limit, and a result is the only text that comes from elsewhere. It is
the text of a double, so it has at most 24 characters. The expression and the display together, which is the
most that is ever evaluated, stay well within what an evaluation takes.
-/
namespace KeypadCalc

/-- The length of the longest text that a result can have: a minus, fourteen digits, a point and eight
places. -/
def longestResult : Nat := 24

theorem Decimal.count_point_le (d : Decimal) : d.render.count '.' ≤ 1 := by
  have hsign : d.sign.count '.' = 0 := by
    unfold sign
    split <;> rfl
  rw [d.render_eq, List.count_append, hsign, Nat.zero_add]
  exact d.numeral.count_point_le

namespace Draft

theorem length_shown_le (v : Rat) : (shown v).length ≤ longestResult := by
  by_cases h : shown v = ['∞']
  · rw [h]
    decide
  · obtain ⟨hsmall, hrender⟩ := Double.displayText_eq_render h
    rw [shown, hrender]
    exact Decimal.length_render_round_le (Double.isDouble_nearestValue _) hsmall

theorem count_point_shown (v : Rat) : (shown v).count '.' ≤ 1 := by
  by_cases h : shown v = ['∞']
  · rw [h]
    decide
  · obtain ⟨d, hd⟩ := exists_render_of_shown h
    rw [hd]
    exact d.count_point_le

/-- A second point is refused, and no other key writes one behind the display. -/
theorem Edit.count_point_le {d d' : Draft} {key : Key} (h : d.Edit key d') (hd : d.display.count '.' ≤ 1) :
    d'.display.count '.' ≤ 1 := by
  have hdigit {value : Nat} (hvalue : value < 10) : [value.digitChar].count '.' = 0 := by
    interval_cases value <;> rfl
  have hzero : ['0', '.'].count '.' ≤ 1 := by decide
  cases h with
  | digitBehindOperator hvalue => exact (hdigit hvalue).trans_le (Nat.zero_le 1)
  | digitForResult hvalue => exact (hdigit hvalue).trans_le (Nat.zero_le 1)
  | digitForZero hvalue => exact (hdigit hvalue).trans_le (Nat.zero_le 1)
  | digit hvalue =>
    rw [List.count_append, hdigit hvalue]
    exact hd
  | pointFirst => exact hzero
  | pointApart => exact hzero
  | point _ _ hpoint =>
    rw [List.count_append, List.count_eq_zero.mpr hpoint]
    decide
  | backspaceBehindOperator => exact (d.display.dropLast_sublist.count_le '.').trans hd
  | backspace => exact (d.display.dropLast_sublist.count_le '.').trans hd
  | _ => exact hd

theorem length_toEvaluate_le (d : Draft) :
    d.toEvaluate.length ≤ d.expression.length + d.display.length := by
  unfold toEvaluate
  split
  · rw [List.length_append]
  · split
    · exact Nat.le_add_left _ _
    · exact Nat.le_add_right _ _

end Draft

namespace Session

theorem length_display_run (p : Parameters) (events : List Event) :
    ((new p).run events).draft.display.length ≤ longestResult := by
  refine draft_run (P := fun d => d.display.length ≤ longestResult) (Nat.zero_le _) ?_
    (fun _ => Nat.zero_le _) Draft.length_shown_le p events
  intro d d' key hd hkey
  exact (Draft.limits_of_typeKey hkey).1.1.trans (max_le (by decide) hd)

theorem count_point_run (p : Parameters) (events : List Event) :
    ((new p).run events).draft.display.count '.' ≤ 1 :=
  draft_run (P := fun d => d.display.count '.' ≤ 1) (Nat.zero_le _)
    (fun hd hkey => (Draft.edit_of_typeKey hkey).count_point_le hd) (fun _ => Nat.zero_le _)
    Draft.count_point_shown p events

theorem length_expression_run (p : Parameters) (events : List Event) :
    ((new p).run events).draft.expression.length ≤ expressionLimit := by
  refine draft_run (P := fun d => d.expression.length ≤ expressionLimit) (Nat.zero_le _) ?_
    (fun {d} hd => (Draft.length_dropNumeral_le d.expression).trans hd) (fun _ => Nat.zero_le _) p events
  intro d d' key hd hkey
  exact (Draft.limits_of_typeKey hkey).2.1.trans (max_le le_rfl hd)

/-- In every session the expression has at most 50 characters, the display at most 24 and at most one point,
and neither has markup or a forbidden word. What would be evaluated has at most 74 characters, so no
calculation is refused for its length. -/
theorem texts_stay_short (p : Parameters) (events : List Event) :
    let d := ((new p).run events).draft
    d.expression.length ≤ 50 ∧ d.display.length ≤ 24 ∧ d.display.count '.' ≤ 1 ∧
      (d.expression.IsHarmless ∧ d.display.IsHarmless) ∧
      d.toEvaluate.length ≤ 74 ∧ d.toEvaluate.compact.admitted.length ≤ evaluationLimit := by
  intro d
  have hexpression : d.expression.length ≤ 50 := length_expression_run p events
  have hdisplay : d.display.length ≤ 24 := length_display_run p events
  obtain ⟨hdisplaySpelled, hexpressionSpelled⟩ := isSpelled_run p events
  have hevaluated : d.toEvaluate.length ≤ 74 :=
    d.length_toEvaluate_le.trans (Nat.add_le_add hexpression hdisplay)
  have hkept : d.toEvaluate.compact.admitted.length ≤ d.toEvaluate.length :=
    (List.length_filter_le _ _).trans (List.length_filter_le _ _)
  exact ⟨hexpression, hdisplay, count_point_run p events,
    ⟨hexpressionSpelled.isHarmless, hdisplaySpelled.isHarmless⟩, hevaluated,
    (hkept.trans hevaluated).trans (by decide)⟩

/-- `0 - 10000000000000 - 0.001953125` shows 24 characters. -/
example :
    let subtrahend : List Key := .digit 1 :: List.replicate 13 (.digit 0)
    let fraction : List Key := .digit 0 :: .point :: [0, 0, 1, 9, 5, 3, 1, 2, 5].map .digit
    let keys : List Key := .digit 0 :: .op .sub :: subtrahend ++ .op .sub :: fraction ++ [.equals]
    let events : List Event := keys.map (fun key => .press key 0) ++ [.advance (Time.ofMillis 50)]
    ((new {}).run events).draft.display.length = longestResult := by
  decide +kernel

end Session
end KeypadCalc
