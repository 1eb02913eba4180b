import KeypadCalc.Proofs.PendingCalculation

/-!
# The error of a session

Of a calculation only the evaluation can fail, since every result that it gives is read back and shown
without markup; so there is one message. A failure puts it up and sets its deadline, and touches neither the
draft nor the history. From then on the message and its deadline go together: the next key dismisses both,
time takes both away at the deadline, and a calculation is pending only while there is neither. Only the
end of the session stops the timer and leaves the message where it is.
-/
namespace KeypadCalc

/-- Every result is read back as a finite double, and what is shown of it has no markup. -/
theorem Expression.shown_of_result {s text : Text} (h : result s = .ok text) :
    ∃ x : Rat, Double.ofText? text = some (.finite x) ∧ (Double.finite x).displayText.IsUnmarked := by
  obtain ⟨v, hvalue, -⟩ := exists_of_bind h
  rw [result_of_value hvalue] at h
  obtain rfl := Except.ok.inj h
  exact ⟨_, ofText?_of_value hvalue, Double.isUnmarked_displayText _⟩

/-- A calculation fails exactly if there is something to evaluate and the evaluation fails, and always with
the same error. -/
theorem Draft.calculate_eq_error_iff {d : Draft} {e : CalculationError} :
    d.calculate = .error e ↔
      e = .invalidExpression ∧ d.toEvaluate.trim ≠ [] ∧
        ∃ cause, Expression.result d.toEvaluate.compact = .error cause := by
  constructor
  · intro h
    have houtcome := d.outcome_calculate
    rw [h] at houtcome
    cases houtcome with
    | refused htext hcause => exact ⟨rfl, htext, _, hcause⟩
  · rintro ⟨rfl, htext, cause, hcause⟩
    exact calculate_of_error htext hcause

namespace Session

/-- The error, its timer and a pending calculation. -/
structure ErrorsAgree (s : Session) : Prop where
  pending : s.isCalculating = true → s.error = none
  expiring : s.errorExpiry ≠ .idle → s.error ≠ none
  message : s.error = none ∨ s.error = some "Invalid expression".toList

theorem errorsAgree_of_dismissed {s : Session} (herror : s.error = none) (hexpiry : s.errorExpiry = .idle) :
    s.ErrorsAgree where
  pending _ := herror
  expiring h := absurd hexpiry h
  message := .inl herror

theorem ErrorsAgree.expire {s : Session} (h : s.ErrorsAgree) (now : Time) : (s.expire now).ErrorsAgree := by
  unfold Session.expire
  split
  · exact errorsAgree_of_dismissed rfl rfl
  · exact h

theorem ErrorsAgree.step {s : Session} (h : s.ErrorsAgree) (e : Event) : (s.step e).ErrorsAgree := by
  have htransition := s.transition_step e
  generalize s.step e = s' at htransition ⊢
  cases htransition with
  | ignored => exact h
  | waited now => exact h.expire now
  | blank now =>
    refine ErrorsAgree.expire ?_ now
    exact ⟨nofun, h.expiring, h.message⟩
  | committed now =>
    refine ErrorsAgree.expire ?_ now
    exact ⟨nofun, h.expiring, h.message⟩
  | failed now =>
    refine ErrorsAgree.expire ?_ now
    exact ⟨nofun, fun _ => nofun, .inr rfl⟩
  | historyCleared => exact ⟨h.pending, h.expiring, h.message⟩
  | closed => exact ⟨nofun, fun hidle => absurd rfl hidle, h.message⟩
  | _ => exact errorsAgree_of_dismissed rfl rfl

theorem errorsAgree_run (p : Parameters) (events : List Event) : ((new p).run events).ErrorsAgree :=
  run_of_step (fun _ e _ h => h.step e) (errorsAgree_of_dismissed rfl rfl)

/-- A visible error has a deadline. -/
def Expires (s : Session) : Prop :=
  s.error ≠ none → s.errorExpiry ≠ .idle

theorem Expires.expire {s : Session} (h : s.Expires) (now : Time) : (s.expire now).Expires := by
  unfold Session.expire
  split
  · exact fun hvisible => absurd rfl hvisible
  · exact h

theorem Expires.step {s : Session} (h : s.Expires) {e : Event} (he : e ≠ .close) :
    (s.step e).Expires := by
  have htransition := s.transition_step e
  generalize s.step e = s' at htransition ⊢
  cases htransition with
  | ignored => exact h
  | waited now => exact h.expire now
  | blank now =>
    refine Expires.expire ?_ now
    exact h
  | committed now =>
    refine Expires.expire ?_ now
    exact h
  | failed now =>
    refine Expires.expire ?_ now
    exact fun _ => nofun
  | historyCleared => exact h
  | closed => exact absurd rfl he
  | _ => exact fun hvisible => absurd rfl hvisible

theorem expires_run (p : Parameters) {events : List Event} (hopen : .close ∉ events) :
    ((new p).run events).Expires :=
  run_of_step (P := Expires) (fun _ _ he h => h.step (ne_of_mem_of_not_mem he hopen))
    (fun hvisible => absurd rfl hvisible)

theorem exists_deadline {t : Timer} (h : t ≠ .idle) : ∃ deadline, t = ⟨some deadline⟩ := by
  obtain ⟨_ | deadline⟩ := t
  · exact absurd rfl h
  · exact ⟨deadline, rfl⟩

/-- The time of an error is over when its deadline is reached, if nothing else is pending. -/
theorem error_advance {s : Session} {deadline now : Time} (hidle : s.isCalculating = false)
    (hexpiry : s.errorExpiry = ⟨some deadline⟩) (hnow : deadline ≤ now) : (s.advance now).error = none := by
  have hdue : s.errorExpiry.isDue now = true := by
    rw [hexpiry]
    exact decide_eq_true hnow
  rw [advance_of_idle (calculation_eq_idle hidle), expire, if_pos hdue]
  rfl

/-- In every session at most one of the two timers is pending, no error is visible while a calculation is
pending, and a pending deadline is that of a visible error. As long as the session has not been closed, an
error has a deadline, and the first time that reaches it takes the error away. -/
theorem error_has_deadline (p : Parameters) (events : List Event) :
    let s := (new p).run events
    ¬(s.calculation.isScheduled = true ∧ s.errorExpiry.isScheduled = true) ∧
      (s.calculation.isScheduled = true → s.error = none) ∧
      (s.errorExpiry.isScheduled = true → s.error ≠ none) ∧
      (.close ∉ events → s.error ≠ none →
        ∃ deadline, s.errorExpiry = ⟨some deadline⟩ ∧
          ∀ now, deadline ≤ now → (s.advance now).error = none) := by
  intro s
  have hagree : s.ErrorsAgree := errorsAgree_run p events
  have hvisible (hscheduled : s.errorExpiry.isScheduled = true) : s.error ≠ none := by
    refine hagree.expiring fun hidle => ?_
    rw [hidle] at hscheduled
    cases hscheduled
  refine ⟨?_, hagree.pending, hvisible, ?_⟩
  · rintro ⟨hcalculating, hscheduled⟩
    exact hvisible hscheduled (hagree.pending hcalculating)
  · intro hopen herror
    obtain ⟨deadline, hexpiry⟩ := exists_deadline (expires_run p hopen herror)
    have hidle : s.isCalculating = false := by
      by_contra hcalculating
      exact herror (hagree.pending (by simpa using hcalculating))
    exact ⟨deadline, hexpiry, fun now hnow => error_advance hidle hexpiry hnow⟩

/-- The division `1 / 0` fails at 50 ms, and its error is gone at 3050 ms. -/
theorem error_of_one_over_zero :
    let events : List Event := ([.digit 1, .op .div, .digit 0, .equals].map fun key => .press key 0) ++
      [.advance (Time.ofMillis 50)]
    let s := (new {}).run events
    .close ∉ events ∧ s.error ≠ none ∧
      ∃ deadline, s.errorExpiry = ⟨some deadline⟩ ∧ ∀ now, deadline ≤ now → (s.advance now).error = none := by
  intro events s
  have hopen : .close ∉ events := by decide
  have herror : s.error ≠ none := by decide +kernel
  exact ⟨hopen, herror, (error_has_deadline {} events).2.2.2 hopen herror⟩

/-- When the evaluation of a due calculation fails, only the error and the two timers change; the error is
shown unless its time is over as soon as it begins. There is only one error: a session shows it or none,
and a calculation fails only because there is something to evaluate that the evaluation refuses, since every
result is read back as a finite number that is shown without markup. -/
theorem failure_keeps_draft (p : Parameters) (events : List Event) :
    let s := (new p).run events
    (∀ now e, s.calculation.isDue now = true → s.draft.calculate = .error e →
      let lasting := 0 < p.errorDuration ∧ now < Time.last
      s.advance now =
        { s with
          calculation := .idle
          error := if lasting then some "Invalid expression".toList else none
          errorExpiry := if lasting then .schedule now p.errorDuration else .idle }) ∧
    (s.error = none ∨ s.error = some "Invalid expression".toList) ∧
    (∀ e, s.draft.calculate = .error e ↔
      e = .invalidExpression ∧ s.draft.toEvaluate.trim ≠ [] ∧
        ∃ cause, Expression.result s.draft.toEvaluate.compact = .error cause) ∧
    ∀ source text : Text, Expression.result source = .ok text →
      ∃ x : Rat, Double.ofText? text = some (.finite x) ∧ (Double.finite x).displayText.IsUnmarked := by
  intro s
  have hparameters : s.parameters = p := parameters_run (new p) events
  refine ⟨?_, (errorsAgree_run p events).message, fun e => Draft.calculate_eq_error_iff,
    fun _ _ => Expression.shown_of_result⟩
  intro now e hdue hfailed lasting
  obtain rfl := (Draft.calculate_eq_error_iff.mp hfailed).1
  rw [advance_failed hdue hfailed, hparameters, if_congr Time.lt_after_iff rfl rfl]
  by_cases hlasting : lasting
  · rw [if_pos hlasting, if_pos hlasting, if_pos hlasting, report]
    rfl
  · rw [if_neg hlasting, if_neg hlasting, if_neg hlasting]
    rfl

/-- After `1 / 0 =` the display, the expression and the history are as before. -/
theorem failure_of_one_over_zero :
    let s := (new {}).run ([.digit 1, .op .div, .digit 0, .equals].map fun key => .press key 0)
    let now := Time.ofMillis 50
    s.calculation.isDue now = true ∧ s.draft.calculate = .error .invalidExpression ∧
      s.advance now =
        { s with
          calculation := .idle
          error := some "Invalid expression".toList
          errorExpiry := .schedule now (Time.ofMillis 3000) } := by
  intro s now
  have hdue : s.calculation.isDue now = true := by decide
  have hfailed : s.draft.calculate = .error .invalidExpression := by
    exact Draft.calculate_eq_error_iff.mpr ⟨rfl, by decide +kernel, .divisionByZero, by decide +kernel⟩
  refine ⟨hdue, hfailed, ?_⟩
  rw [(failure_keeps_draft {} _).1 now _ hdue hfailed]
  rfl

end Session
end KeypadCalc
