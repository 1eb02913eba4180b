import KeypadCalc.Proofs.DraftEdits

/-!
# From the key for equals to the outcome

Between the key for equals and the deadline nothing that happens touches the draft: keys are ignored, time
passes, the history may be cleared. The first time that reaches the deadline carries the calculation out,
and only that; a clearing key or the end of the session takes the calculation away. So a request has one
outcome or none, and over a whole run there are no more outcomes than requests.
-/
namespace KeypadCalc

theorem Time.lt_after_iff {now delay : Time} :
    now < Time.after now delay ↔ 0 < delay ∧ now < Time.last := by
  rw [Time.after, lt_min_iff, Nat.lt_add_right_iff_pos]

namespace Session

/-- What a pending calculation with this deadline outlasts. -/
def Event.waits (deadline : Time) : Event → Bool
  | .press key _ => !key.isClearing
  | .advance now => decide (now < deadline)
  | .clearHistory => true
  | .close => false

/-- What takes a pending calculation away. -/
def Event.cancels : Event → Bool
  | .press key _ => key.isClearing
  | .close => true
  | _ => false

/-- Whether the event asks for a calculation, and is not ignored. -/
def asks (s : Session) : Event → Bool
  | .press .equals _ => !s.isCalculating
  | _ => false

/-- What the calculation comes to that the event carries out, if it carries one out. -/
def outcome? (s : Session) : Event → Option (Except CalculationError (Option Text))
  | .advance now => if s.calculation.isDue now then some s.draft.calculate else none
  | _ => none

/-- The outcomes of all calculations that a run carries out, in order. -/
def outcomes (s : Session) : List Event → List (Except CalculationError (Option Text))
  | [] => []
  | e :: events => (s.outcome? e).toList ++ (s.step e).outcomes events

/-- The history entry that the event adds, if it adds one. -/
def inserted? (s : Session) (e : Event) : Option History.Entry :=
  match s.outcome? e with
  | some (.ok (some text)) => some (Draft.entry s.draft.toEvaluate text)
  | _ => none

/-- How many events of a run satisfy `q`, each in the session that it meets. -/
def countAlong (q : Session → Event → Bool) (s : Session) : List Event → Nat
  | [] => 0
  | e :: events => (q s e).toNat + (s.step e).countAlong q events

theorem expire_of_idle {s : Session} (h : s.errorExpiry = .idle) (now : Time) : s.expire now = s := by
  rw [expire, h]
  rfl

/-- An error is shown unless its time is over as soon as it begins. -/
theorem expire_report (s : Session) (e : CalculationError) (now : Time) :
    (s.report e now).expire now =
      if now < Time.after now s.parameters.errorDuration then s.report e now else s.dismissError := by
  have hdue : (s.report e now).errorExpiry.isDue now =
      decide (Time.after now s.parameters.errorDuration ≤ now) := rfl
  rw [expire, hdue]
  by_cases hlasting : now < Time.after now s.parameters.errorDuration
  · rw [if_pos hlasting, if_neg (by simpa using hlasting)]
  · rw [if_neg hlasting, if_pos (by simpa using hlasting)]
    rfl

theorem advance_failed {s : Session} {now : Time} {e : CalculationError}
    (hdue : s.calculation.isDue now = true) (h : s.draft.calculate = .error e) :
    s.advance now =
      if now < Time.after now s.parameters.errorDuration then
        { s with calculation := .idle }.report e now
      else { s with calculation := .idle }.dismissError := by
  rw [advance, settle_of_error hdue h, expire_report]

theorem isCalculating_of_isDue {s : Session} {now : Time} (h : s.calculation.isDue now = true) :
    s.isCalculating = true := by
  rw [Timer.isDue, Option.any_eq_true_iff_get] at h
  exact h.1

theorem outcome?_of_due {s : Session} {now : Time} (hdue : s.calculation.isDue now = true) :
    s.outcome? (.advance now) = some s.draft.calculate := by
  rw [outcome?, if_pos hdue]

/-- The session in which the calculation of `s` has been carried out. There was nothing to evaluate, and
nothing else happens; or the value is shown, with one more entry in the history; or the evaluation has
failed, and there is an error, which may be over at once. -/
inductive Concluded (s : Session) (now : Time) : Session → Prop
  | blank (hblank : s.draft.toEvaluate.trim = []) : s.Concluded now { s with calculation := .idle }
  | committed {v : Rat} (hvalue : Expression.value s.draft.toEvaluate.compact = .ok v) :
      s.Concluded now
        { s with
          calculation := .idle
          history :=
            { s.history with
              entries :=
                ({ expression := Text.forStorage History.expressionLimit (Text.normalizeBlanks s.draft.toEvaluate)
                   result := Text.forStorage History.resultLimit (Draft.shown v) } ::
                  s.history.entries).take s.history.capacity }
          draft := { display := Draft.shown v, lastKey := some .equals, justComputed := true } }
  | failed {cause : EvalError} (htext : s.draft.toEvaluate.trim ≠ [])
      (hcause : Expression.result s.draft.toEvaluate.compact = .error cause)
      (hlasting : 0 < s.parameters.errorDuration ∧ now < Time.last) :
      s.Concluded now
        { s with
          calculation := .idle
          error := some "Invalid expression".toList
          errorExpiry := ⟨some (Time.after now s.parameters.errorDuration)⟩ }
  | expired {cause : EvalError} (htext : s.draft.toEvaluate.trim ≠ [])
      (hcause : Expression.result s.draft.toEvaluate.compact = .error cause)
      (hover : s.parameters.errorDuration = 0 ∨ Time.last ≤ now) :
      s.Concluded now { s with calculation := .idle }

theorem concluded_advance {s : Session} {now : Time} (hdue : s.calculation.isDue now = true)
    (herror : s.error = none) (hexpiry : s.errorExpiry = .idle) : s.Concluded now (s.advance now) := by
  have htransition := s.transition_advance now
  generalize s.advance now = s' at htransition ⊢
  cases htransition with
  | waited _ hearly =>
    rw [hdue] at hearly
    cases hearly
  | blank _ _ hblank =>
    rw [expire_of_idle (by exact hexpiry)]
    exact .blank hblank
  | committed _ _ hvalue =>
    rw [expire_of_idle (by exact hexpiry)]
    exact .committed hvalue
  | failed _ _ htext hcause =>
    rw [expire_report]
    split
    · rename_i hlasting
      exact .failed htext hcause (Time.lt_after_iff.mp hlasting)
    · rename_i hover
      rw [Time.lt_after_iff, not_and_or, Nat.not_lt, Nat.not_lt, Nat.le_zero] at hover
      have hdismissed : { s with calculation := .idle }.dismissError = { s with calculation := .idle } := by
        rw [dismissError, ← herror, ← hexpiry]
      rw [hdismissed]
      exact .expired htext hcause hover

/-- Without an outcome no entry is added and no error comes up. -/
theorem quiet_step {s : Session} {e : Event} (h : s.outcome? e = none) :
    s.inserted? e = none ∧ ((s.step e).error = s.error ∨ (s.step e).error = none) := by
  refine ⟨by rw [inserted?, h], ?_⟩
  have htransition := s.transition_step e
  generalize s.step e = s' at htransition ⊢
  cases htransition with
  | ignored => exact .inl rfl
  | historyCleared => exact .inl rfl
  | closed => exact .inl rfl
  | waited now =>
    unfold expire
    split
    · exact .inr rfl
    · exact .inl rfl
  | blank now hdue =>
    rw [outcome?_of_due hdue] at h
    cases h
  | committed now hdue =>
    rw [outcome?_of_due hdue] at h
    cases h
  | failed now hdue =>
    rw [outcome?_of_due hdue] at h
    cases h
  | _ => exact .inr rfl

/-- The entries of the history come from outcomes, and only a clearing takes them away. -/
theorem history_step (s : Session) (e : Event) :
    (s.step e).history =
      match s.inserted? e with
      | some entry => { s.history with entries := (entry :: s.history.entries).take s.history.capacity }
      | none => if e = .clearHistory then { s.history with entries := [] } else s.history := by
  have htransition := s.transition_step e
  generalize s.step e = s' at htransition ⊢
  cases htransition with
  | waited now hearly =>
    rw [history_expire, inserted?, outcome?, hearly]
    rfl
  | blank now hdue hblank =>
    rw [history_expire, inserted?, outcome?_of_due hdue, Draft.calculate_of_blank hblank]
    rfl
  | committed now hdue hvalue =>
    rw [history_expire, inserted?, outcome?_of_due hdue, Draft.calculate_of_value hvalue]
    rfl
  | failed now hdue htext hcause =>
    rw [history_expire, inserted?, outcome?_of_due hdue, Draft.calculate_of_error htext hcause]
    rfl
  | _ => rfl

theorem capacity_step (s : Session) (e : Event) : (s.step e).history.capacity = s.history.capacity := by
  rw [history_step]
  split
  · rfl
  · split <;> rfl

/-- The history can always hold an entry. -/
theorem capacity_run (p : Parameters) (events : List Event) :
    ((new p).run events).history.capacity = max 1 p.historyCapacity :=
  run_of_step (P := fun s => s.history.capacity = max 1 p.historyCapacity)
    (fun s e _ h => (s.capacity_step e).trans h) (Nat.max_comm _ _)

theorem outcome?_of_early {s : Session} {e : Event} {deadline : Time}
    (hcalculation : s.calculation = ⟨some deadline⟩) (he : e.waits deadline = true) :
    s.outcome? e = none := by
  cases e with
  | advance now =>
    have hearly : now < deadline := of_decide_eq_true he
    have hdue : s.calculation.isDue now = false := by
      rw [hcalculation]
      exact decide_eq_false (Nat.not_le.mpr hearly)
    rw [outcome?, hdue]
    rfl
  | _ => rfl

/-- A pending calculation outlasts the event, and nothing but the history changes. -/
theorem step_of_waits {s : Session} {e : Event} {deadline : Time}
    (hcalculation : s.calculation = ⟨some deadline⟩) (hexpiry : s.errorExpiry = .idle)
    (he : e.waits deadline = true) :
    s.step e =
      { s with history := if e = .clearHistory then { s.history with entries := [] } else s.history } := by
  have hpending : s.isCalculating = true := by
    rw [isCalculating, hcalculation]
    rfl
  have hnone := outcome?_of_early hcalculation he
  have htransition := s.transition_step e
  generalize s.step e = s' at htransition ⊢
  cases htransition with
  | ignored => rfl
  | waited now => exact expire_of_idle hexpiry now
  | historyCleared => rfl
  | closed => cases he
  | entryCleared => cases he
  | allCleared => cases he
  | edited _ _ hidle =>
    rw [hpending] at hidle
    cases hidle
  | asked _ hidle =>
    rw [hpending] at hidle
    cases hidle
  | _ now hdue =>
    rw [outcome?_of_due hdue] at hnone
    cases hnone

theorem run_waiting {s : Session} {deadline : Time} (hcalculation : s.calculation = ⟨some deadline⟩)
    (hexpiry : s.errorExpiry = .idle) {waits : List Event} (hwaits : ∀ e ∈ waits, e.waits deadline = true) :
    s.run waits =
        { s with
          history := if .clearHistory ∈ waits then { s.history with entries := [] } else s.history } ∧
      s.outcomes waits = [] := by
  induction waits generalizing s with
  | nil => exact ⟨rfl, rfl⟩
  | cons e waits ih =>
    have he := hwaits e List.mem_cons_self
    have hstep := step_of_waits hcalculation hexpiry he
    obtain ⟨hrun, hnone⟩ := ih (s := s.step e) (by rw [hstep]; exact hcalculation)
      (by rw [hstep]; exact hexpiry) fun a ha => hwaits a (List.mem_cons_of_mem _ ha)
    constructor
    · show (s.step e).run waits = _
      rw [hrun, hstep]
      by_cases hclear : e = .clearHistory
      · simp [hclear]
      · simp [hclear, Ne.symm hclear]
    · rw [outcomes, outcome?_of_early hcalculation he, hnone]
      rfl

/-- A calculation is pending because it was before, or because it has been asked for; none has been carried
out in this step. -/
theorem outcome?_of_pending {s : Session} {e : Event} (h : (s.step e).isCalculating = true) :
    s.outcome? e = none ∧ (s.asks e = true ∨ s.isCalculating = true) := by
  have htransition := s.transition_step e
  generalize s.step e = s' at htransition h
  cases htransition with
  | asked _ hidle =>
    rw [asks, hidle]
    exact ⟨rfl, .inl rfl⟩
  | waited now hearly =>
    rw [isCalculating_expire] at h
    rw [outcome?, hearly]
    exact ⟨rfl, .inr h⟩
  | blank =>
    rw [isCalculating_expire] at h
    cases h
  | committed =>
    rw [isCalculating_expire] at h
    cases h
  | failed =>
    rw [isCalculating_expire] at h
    cases h
  | entryCleared => cases h
  | allCleared => cases h
  | closed => cases h
  | _ => exact ⟨rfl, .inr h⟩

/-- Only a pending calculation is carried out. -/
theorem pending_of_outcome {s : Session} {e : Event} (h : s.outcome? e ≠ none) :
    s.isCalculating = true := by
  cases e with
  | advance now =>
    rw [outcome?, ne_eq, ite_eq_right_iff, not_forall] at h
    obtain ⟨hdue, -⟩ := h
    exact isCalculating_of_isDue hdue
  | _ => exact absurd rfl h

/-- Without a request an idle session stays idle, and there is no outcome. -/
theorem step_of_idle {s : Session} {e : Event} (hidle : s.isCalculating = false)
    (hasks : s.asks e = false) : (s.step e).isCalculating = false ∧ s.outcome? e = none := by
  constructor
  · by_contra hpending
    rcases (outcome?_of_pending (by simpa using hpending)).2 with h | h
    · rw [hasks] at h
      cases h
    · rw [hidle] at h
      cases h
  · by_contra houtcome
    rw [pending_of_outcome houtcome] at hidle
    cases hidle

theorem step_of_cancels {s : Session} {e : Event} (he : e.cancels = true) :
    (s.step e).isCalculating = false ∧ s.outcome? e = none := by
  have htransition := s.transition_step e
  generalize s.step e = s' at htransition ⊢
  cases htransition with
  | entryCleared => exact ⟨rfl, rfl⟩
  | allCleared => exact ⟨rfl, rfl⟩
  | closed => exact ⟨rfl, rfl⟩
  | ignored key now hpending hkey =>
    rw [Event.cancels, hkey] at he
    cases he
  | edited key now hidle hkey =>
    rw [Event.cancels, hkey] at he
    cases he
  | _ => cases he

theorem idle_of_due {s : Session} {now : Time} (hdue : s.calculation.isDue now = true) :
    (s.advance now).isCalculating = false := by
  by_contra hpending
  have hadvanced : (s.step (.advance now)).isCalculating = true := by
    show (s.advance now).isCalculating = true
    simpa using hpending
  have hnone := (outcome?_of_pending hadvanced).1
  rw [outcome?_of_due hdue] at hnone
  cases hnone

theorem outcomes_of_idle {s : Session} (hidle : s.isCalculating = false) {events : List Event}
    (hevents : s.Along (fun s e => s.asks e = false) events) : s.outcomes events = [] := by
  induction events generalizing s with
  | nil => rfl
  | cons e events ih =>
    obtain ⟨hstep, hnone⟩ := step_of_idle hidle hevents.1
    rw [outcomes, hnone, ih hstep hevents.2]
    rfl

theorem outcomes_append (s : Session) (first second : List Event) :
    s.outcomes (first ++ second) = s.outcomes first ++ (s.run first).outcomes second := by
  induction first generalizing s with
  | nil => rfl
  | cons e first ih =>
    rw [List.cons_append, outcomes, outcomes, ih, List.append_assoc]
    rfl

/-- An outcome uses a request up: what is pending after a step was pending before or is asked for in it,
and there is no outcome besides. -/
theorem outcome?_add_pending_le (s : Session) (e : Event) :
    (s.outcome? e).isSome.toNat + (s.step e).isCalculating.toNat ≤
      (s.asks e).toNat + s.isCalculating.toNat := by
  cases hpending : (s.step e).isCalculating with
  | true =>
    obtain ⟨hnone, hcause⟩ := outcome?_of_pending hpending
    rw [hnone]
    rcases hcause with h | h
    · rw [h]
      exact Nat.le_add_right _ _
    · rw [h]
      exact Nat.le_add_left _ _
  | false =>
    cases houtcome : s.outcome? e with
    | none => exact Nat.zero_le _
    | some outcome =>
      rw [pending_of_outcome (by rw [houtcome]; nofun)]
      exact Nat.le_add_left _ _

theorem inserted?_le_outcome? (s : Session) (e : Event) :
    (s.inserted? e).isSome.toNat ≤ (s.outcome? e).isSome.toNat := by
  unfold inserted?
  split
  · rename_i h
    rw [h]
    exact Nat.le_refl _
  · exact Nat.zero_le _

/-- No run adds more entries to the history than it has requests, and one that is still pending has added
none. -/
theorem countAlong_inserted_le (s : Session) (events : List Event) :
    s.countAlong (fun s e => (s.inserted? e).isSome) events + (s.run events).isCalculating.toNat ≤
      s.countAlong asks events + s.isCalculating.toNat := by
  induction events generalizing s with
  | nil => exact Nat.le_refl _
  | cons e events ih =>
    have hrest := ih (s.step e)
    have hstep := s.outcome?_add_pending_le e
    have hinserted := s.inserted?_le_outcome? e
    have hrun : s.run (e :: events) = (s.step e).run events := rfl
    rw [countAlong, countAlong, hrun]
    omega

/-- A request leaves the draft alone until the first time that reaches the deadline, and there it has its
outcome, which is that of the draft it was made with; nothing before has one, nor anything after it until
the next request. A request that is cancelled first has none. The history changes by clearings and by the
entries of outcomes only, each in front of as many older ones as it still has room for; errors come from
outcomes; and no run has more entries added than requests made. -/
theorem request_has_one_outcome (p : Parameters) (before : List Event) :
    let s := (new p).run before
    (∀ t, s.isCalculating = false →
      let deadline := Time.after t p.calculationDelay
      let requested := s.press .equals t
      ∀ waits : List Event, (∀ e ∈ waits, e.waits deadline = true) →
        (requested.run waits).draft = s.draft ∧ requested.outcomes waits = [] ∧
        (∀ now later, deadline ≤ now →
          let concluded := (requested.run waits).advance now
          (requested.run waits).Concluded now concluded ∧
          (concluded.Along (fun s e => s.asks e = false) later →
            requested.outcomes (waits ++ .advance now :: later) = [s.draft.calculate])) ∧
        ∀ e later, e.cancels = true →
          ((requested.run waits).step e).Along (fun s e => s.asks e = false) later →
          requested.outcomes (waits ++ e :: later) = []) ∧
    (∀ e, (s.step e).history =
      match s.inserted? e with
      | some entry => { s.history with entries := (entry :: s.history.entries).take s.history.capacity }
      | none => if e = .clearHistory then { s.history with entries := [] } else s.history) ∧
    s.history.capacity = max 1 p.historyCapacity ∧
    (∀ e, s.outcome? e = none →
      s.inserted? e = none ∧ ((s.step e).error = s.error ∨ (s.step e).error = none)) ∧
    (new p).countAlong (fun s e => (s.inserted? e).isSome) before ≤ (new p).countAlong asks before := by
  intro s
  refine ⟨?_, s.history_step, capacity_run p before, fun e => quiet_step, ?_⟩
  · intro t hidle deadline requested waits hwaits
    have hparameters : s.parameters = p := parameters_run (new p) before
    have hrequested : requested = s.asked t := press_equals hidle t
    have hcalculation : requested.calculation = ⟨some deadline⟩ := by
      rw [hrequested, asked, hparameters]
      rfl
    obtain ⟨hrun, hnone⟩ := run_waiting hcalculation (by rw [hrequested]; rfl) hwaits
    have hdraft : (requested.run waits).draft = s.draft := by
      rw [hrun, hrequested]
      rfl
    refine ⟨hdraft, hnone, ?_, ?_⟩
    · intro now later hnow concluded
      have hdue : (requested.run waits).calculation.isDue now = true := by
        rw [hrun, hcalculation]
        exact decide_eq_true hnow
      have hquiet : (requested.run waits).error = none ∧ (requested.run waits).errorExpiry = .idle := by
        rw [hrun, hrequested]
        exact ⟨rfl, rfl⟩
      refine ⟨concluded_advance hdue hquiet.1 hquiet.2, fun hlater => ?_⟩
      rw [outcomes_append, hnone, List.nil_append, outcomes, outcome?_of_due hdue, hdraft]
      exact congrArg ([s.draft.calculate] ++ ·) (outcomes_of_idle (idle_of_due hdue) hlater)
    · intro e later he hlater
      obtain ⟨hidle, hcancelled⟩ := step_of_cancels (s := requested.run waits) he
      rw [outcomes_append, hnone, List.nil_append, outcomes, hcancelled, outcomes_of_idle hidle hlater]
      rfl
  · have hcount := (new p).countAlong_inserted_le before
    exact (Nat.le_add_right _ _).trans hcount

/-- `1 / 8 =`: keys, time that runs backwards and a second request wait for the deadline, and `0.125` is the
only outcome; the key that clears everything leaves none. -/
theorem request_of_one_eighth :
    let typed : List Event := [.digit 1, .op .div, .digit 8].map fun key => .press key 0
    let waits : List Event := [.press (.digit 7) 1, .advance 2, .advance 0, .press .equals 3, .clearHistory]
    let s := (new {}).run typed
    let requested := s.press .equals 0
    s.isCalculating = false ∧ (∀ e ∈ waits, e.waits (Time.ofMillis 50) = true) ∧
      requested.outcomes (waits ++ [.advance (Time.ofMillis 50), .press (.digit 3) (Time.ofMillis 60)]) =
        [.ok (some "0.125".toList)] ∧
      requested.outcomes (waits ++ [.press .clearAll 4, .advance (Time.ofMillis 50)]) = [] := by
  intro typed waits s requested
  have hidle : s.isCalculating = false := by decide
  have hwaits : ∀ e ∈ waits, e.waits (Time.ofMillis 50) = true := by decide
  have hvalue : Expression.value s.draft.toEvaluate.compact = .ok (1 / 8) :=
    eq_ok_of_toOption (by decide +kernel)
  have hshown : Draft.shown (1 / 8) = "0.125".toList := by decide +kernel
  have hcalculate : s.draft.calculate = .ok (some "0.125".toList) := by
    rw [Draft.calculate_of_value hvalue, hshown]
  obtain ⟨-, -, hconcluded, hcancelled⟩ := (request_has_one_outcome {} typed).1 0 hidle waits hwaits
  refine ⟨hidle, hwaits, ?_, hcancelled _ _ rfl (by decide +kernel)⟩
  rw [(hconcluded (Time.ofMillis 50) [.press (.digit 3) (Time.ofMillis 60)] (by decide)).2
    (by decide +kernel)]
  exact congrArg ([·]) hcalculate

end Session
end KeypadCalc
