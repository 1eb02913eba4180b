import KeypadCalc.Proofs.Commit
import KeypadCalc.Proofs.DraftTyping

/-!
# What an event does to a session

A key is ignored while a calculation is pending; otherwise it edits, clears, or asks for a calculation.
Time either only passes, or it has come to the deadline and the calculation is carried out: there is
nothing to calculate, or a result is taken over, or the evaluation is refused. `transition_step` says this
once for the whole state, so what a step keeps is a case analysis over the transitions, and what a run
keeps follows by induction.
-/
namespace KeypadCalc

namespace Draft

/-- What the calculation of a draft comes to. Only the evaluation can fail: every result that it gives
is read back and shown. -/
inductive Outcome (d : Draft) : Except CalculationError (Option Text) → Prop
  | blank (hblank : d.toEvaluate.trim = []) : d.Outcome (.ok none)
  | value {v : Rat} (hvalue : Expression.value d.toEvaluate.compact = .ok v) :
      d.Outcome (.ok (some (shown v)))
  | refused {cause : EvalError} (htext : d.toEvaluate.trim ≠ [])
      (hcause : Expression.result d.toEvaluate.compact = .error cause) :
      d.Outcome (.error .invalidExpression)

theorem outcome_calculate (d : Draft) : d.Outcome d.calculate := by
  by_cases hblank : d.toEvaluate.trim = []
  · rw [calculate_of_blank hblank]
    exact .blank hblank
  · cases hvalue : Expression.value d.toEvaluate.compact with
    | ok v =>
      rw [calculate_of_value hvalue]
      exact .value hvalue
    | error cause =>
      have hcause : Expression.result d.toEvaluate.compact = .error cause := by
        rw [Expression.result, hvalue]
        rfl
      rw [calculate_of_error hblank hcause]
      exact .refused hblank hcause

end Draft

namespace Session

/-- The session when the key for equals has been pressed. -/
def asked (s : Session) (t : Time) : Session :=
  { s.dismissError with calculation := .schedule t s.parameters.calculationDelay }

theorem press_equals {s : Session} (hidle : s.isCalculating = false) (t : Time) :
    s.press .equals t = s.asked t := by
  rw [press, hidle, Bool.false_and, if_neg Bool.false_ne_true]
  rfl

theorem advance_of_idle {s : Session} (hidle : s.calculation = .idle) (now : Time) :
    s.advance now = s.expire now := by
  rw [advance, settle, hidle]
  rfl

/-- How an event changes a session. -/
inductive Transition (s : Session) : Event → Session → Prop
  | ignored (key : Key) (now : Time) (hpending : s.isCalculating = true)
      (hkey : key.isClearing = false) : s.Transition (.press key now) s
  | edited (key : Key) (now : Time) (hidle : s.isCalculating = false) (hkey : key.isClearing = false)
      (hequals : key ≠ .equals) :
      s.Transition (.press key now) (s.dismissError.edit (s.draft.typeKey key))
  | entryCleared (now : Time) :
      s.Transition (.press .clearEntry now)
        { s.dismissError with calculation := .idle, draft := s.draft.clearEntry }
  | allCleared (now : Time) :
      s.Transition (.press .clearAll now) { s.dismissError with calculation := .idle, draft := {} }
  | asked (now : Time) (hidle : s.isCalculating = false) :
      s.Transition (.press .equals now) (s.asked now)
  | waited (now : Time) (hearly : s.calculation.isDue now = false) :
      s.Transition (.advance now) (s.expire now)
  | blank (now : Time) (hdue : s.calculation.isDue now = true)
      (hblank : s.draft.toEvaluate.trim = []) :
      s.Transition (.advance now) ({ s with calculation := .idle }.expire now)
  | committed (now : Time) (hdue : s.calculation.isDue now = true) {v : Rat}
      (hvalue : Expression.value s.draft.toEvaluate.compact = .ok v) :
      s.Transition (.advance now)
        ({ s with
          calculation := .idle
          history := s.history.add (Draft.entry s.draft.toEvaluate (Draft.shown v))
          draft := Draft.afterResult (Draft.shown v) }.expire now)
  | failed (now : Time) (hdue : s.calculation.isDue now = true) {cause : EvalError}
      (htext : s.draft.toEvaluate.trim ≠ [])
      (hcause : Expression.result s.draft.toEvaluate.compact = .error cause) :
      s.Transition (.advance now)
        (({ s with calculation := .idle }.report .invalidExpression now).expire now)
  | historyCleared : s.Transition .clearHistory s.clearHistory
  | closed : s.Transition .close s.close

theorem transition_press (s : Session) (key : Key) (now : Time) :
    s.Transition (.press key now) (s.press key now) := by
  unfold press
  split
  · rename_i hignored
    obtain ⟨hpending, hkey⟩ := Bool.and_eq_true_iff.mp hignored
    exact .ignored key now hpending (by simpa using hkey)
  · rename_i haccepted
    have hidle (hkey : key.isClearing = false) : s.isCalculating = false := by
      simpa [hkey] using haccepted
    cases key with
    | digit value => exact .edited (.digit value) now (hidle rfl) rfl nofun
    | point => exact .edited .point now (hidle rfl) rfl nofun
    | op o => exact .edited (.op o) now (hidle rfl) rfl nofun
    | percent => exact .edited .percent now (hidle rfl) rfl nofun
    | equals => exact .asked now (hidle rfl)
    | backspace => exact .edited .backspace now (hidle rfl) rfl nofun
    | clearEntry => exact .entryCleared now
    | clearAll => exact .allCleared now

theorem transition_advance (s : Session) (now : Time) :
    s.Transition (.advance now) (s.advance now) := by
  cases hdue : s.calculation.isDue now with
  | false =>
    rw [advance, settle, hdue, if_neg Bool.false_ne_true]
    exact .waited now hdue
  | true =>
    have houtcome := s.draft.outcome_calculate
    generalize hcalculate : s.draft.calculate = outcome at houtcome
    rw [advance]
    cases houtcome with
    | blank hblank =>
      rw [settle, if_pos hdue, complete, hcalculate]
      exact .blank now hdue hblank
    | value hvalue =>
      rw [settle_of_shown hdue hcalculate]
      exact .committed now hdue hvalue
    | refused htext hcause =>
      rw [settle_of_error hdue hcalculate]
      exact .failed now hdue htext hcause

theorem transition_step (s : Session) (e : Event) : s.Transition e (s.step e) := by
  cases e with
  | press key now => exact s.transition_press key now
  | advance now => exact s.transition_advance now
  | clearHistory => exact .historyCleared
  | close => exact .closed

theorem run_append (s : Session) (first second : List Event) :
    s.run (first ++ second) = (s.run first).run second :=
  List.foldl_append

/-- What every step keeps is kept by a run. -/
theorem run_of_step {P : Session → Prop} {events : List Event}
    (hstep : ∀ s, ∀ e ∈ events, P s → P (s.step e)) {s : Session} (hs : P s) : P (s.run events) := by
  induction events generalizing s with
  | nil => exact hs
  | cons e events ih =>
    exact ih (fun s a ha => hstep s a (List.mem_cons_of_mem _ ha)) (hstep s e List.mem_cons_self hs)

theorem parameters_step (s : Session) (e : Event) : (s.step e).parameters = s.parameters := by
  have htransition := s.transition_step e
  generalize s.step e = s' at htransition ⊢
  cases htransition with
  | waited now => exact s.parameters_expire now
  | blank now => exact parameters_expire _ now
  | committed now => exact parameters_expire _ now
  | failed now => exact parameters_expire _ now
  | _ => rfl

theorem parameters_run (s : Session) (events : List Event) :
    (s.run events).parameters = s.parameters :=
  run_of_step (P := fun s' => s'.parameters = s.parameters)
    (fun s' e _ h => (s'.parameters_step e).trans h) rfl

end Session
end KeypadCalc
