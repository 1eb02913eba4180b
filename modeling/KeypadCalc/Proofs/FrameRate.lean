import KeypadCalc.Proofs.NextDeadline
import KeypadCalc.Window

/-!
# How often the window is drawn

Each frame first does what is due and then takes in what the user has done. Frames in which the user does
nothing come as often as the display likes, so what a calculation does must not depend on them. It does
not: a due calculation reads the draft and not the clock, and whether a frame without input carries it out
or the next one with input does, it is done before that input. Only an error depends on the clock, since it
is shown from the moment it comes up; with more frames it comes up earlier and goes earlier.

The two runs are related by `AgreesWith`, which every event keeps. Doing what is due at two times one after
the other comes to the same as at the later one alone (`advance_advance`), so a run that has been drawn once
more agrees with the other one from the next frame on.
-/
namespace KeypadCalc

theorem Time.after_le_after {t u : Time} (h : t ≤ u) (delay : Time) :
    Time.after t delay ≤ Time.after u delay :=
  min_le_min_right _ (Nat.add_le_add_right h delay)

theorem Timer.isDue_of_le {timer : Timer} {t u : Time} (h : t ≤ u) (hdue : timer.isDue t = true) :
    timer.isDue u = true := by
  rw [isDue, Option.any_eq_true] at hdue ⊢
  obtain ⟨d, hd, hdt⟩ := hdue
  exact ⟨d, hd, decide_eq_true ((of_decide_eq_true hdt).trans h)⟩

namespace Session

/-- The first session is the second one but for an error, which has gone in it or goes no later. -/
structure AgreesWith (s s' : Session) : Prop where
  parameters_eq : s.parameters = s'.parameters
  draft_eq : s.draft = s'.draft
  history_eq : s.history = s'.history
  calculation_eq : s.calculation = s'.calculation
  error : s.error = none ∨ s.error = s'.error ∧
    ∀ now, s'.errorExpiry.isDue now = true → s.errorExpiry.isDue now = true

theorem agreesWith_refl (s : Session) : s.AgreesWith s :=
  ⟨rfl, rfl, rfl, rfl, .inr ⟨rfl, fun _ => id⟩⟩

theorem AgreesWith.trans {s s' s'' : Session} (h : s.AgreesWith s') (h' : s'.AgreesWith s'') :
    s.AgreesWith s'' where
  parameters_eq := h.parameters_eq.trans h'.parameters_eq
  draft_eq := h.draft_eq.trans h'.draft_eq
  history_eq := h.history_eq.trans h'.history_eq
  calculation_eq := h.calculation_eq.trans h'.calculation_eq
  error := by
    rcases h.error with hgone | ⟨herror, hsooner⟩
    · exact .inl hgone
    · rcases h'.error with hgone | ⟨herror', hsooner'⟩
      · exact .inl (herror.trans hgone)
      · exact .inr ⟨herror.trans herror', fun now hdue => hsooner now (hsooner' now hdue)⟩

theorem agreesWith_expire (s : Session) (now : Time) : (s.expire now).AgreesWith s := by
  unfold expire
  split
  · exact ⟨rfl, rfl, rfl, rfl, .inl rfl⟩
  · exact s.agreesWith_refl

theorem AgreesWith.expire {s s' : Session} (h : s.AgreesWith s') (now : Time) :
    (s.expire now).AgreesWith (s'.expire now) := by
  unfold Session.expire
  by_cases hdue : s.errorExpiry.isDue now = true
  · rw [if_pos hdue]
    split <;> exact ⟨h.parameters_eq, h.draft_eq, h.history_eq, h.calculation_eq, .inl rfl⟩
  · rw [if_neg hdue]
    split
    · rename_i hdue'
      refine ⟨h.parameters_eq, h.draft_eq, h.history_eq, h.calculation_eq, .inl ?_⟩
      rcases h.error with hgone | ⟨-, hsooner⟩
      · exact hgone
      · exact absurd (hsooner now hdue') hdue
    · exact h

/-- The same calculation at two times, or in two sessions that agree: the outcome is the same, and an error
that comes up earlier goes earlier. -/
theorem AgreesWith.complete {s s' : Session} (h : s.AgreesWith s') {t u : Time} (htu : t ≤ u) :
    (s.complete t).AgreesWith (s'.complete u) := by
  unfold Session.complete
  rw [h.draft_eq]
  cases s'.draft.calculate with
  | error e =>
    refine ⟨h.parameters_eq, h.draft_eq, h.history_eq, h.calculation_eq, .inr ⟨rfl, fun now hdue => ?_⟩⟩
    have hdue : Time.after u s'.parameters.errorDuration ≤ now := of_decide_eq_true hdue
    show decide (Time.after t s.parameters.errorDuration ≤ now) = true
    rw [h.parameters_eq]
    exact decide_eq_true ((Time.after_le_after htu _).trans hdue)
  | ok shown =>
    cases shown with
    | none => exact h
    | some shown =>
      exact ⟨h.parameters_eq, rfl, congrArg (fun history : History => history.add _) h.history_eq,
        h.calculation_eq, h.error⟩

theorem AgreesWith.idle {s s' : Session} (h : s.AgreesWith s') :
    { s with calculation := .idle }.AgreesWith { s' with calculation := .idle } :=
  ⟨h.parameters_eq, h.draft_eq, h.history_eq, rfl, h.error⟩

theorem AgreesWith.settle {s s' : Session} (h : s.AgreesWith s') (now : Time) :
    (s.settle now).AgreesWith (s'.settle now) := by
  unfold Session.settle
  rw [h.calculation_eq]
  split
  · exact h.idle.complete (le_refl now)
  · exact h

theorem AgreesWith.advance {s s' : Session} (h : s.AgreesWith s') (now : Time) :
    (s.advance now).AgreesWith (s'.advance now) :=
  (h.settle now).expire now

/-- What is due at two times one after the other is what is due at the later one. -/
theorem advance_advance (s : Session) {t u : Time} (htu : t ≤ u) :
    ((s.advance t).advance u).AgreesWith (s.advance u) := by
  cases hdue : s.calculation.isDue t with
  | false =>
    have hwaited : s.advance t = s.expire t := by
      rw [Session.advance, Session.settle, hdue, if_neg Bool.false_ne_true]
    rw [hwaited]
    exact (s.agreesWith_expire t).advance u
  | true =>
    -- the calculation is over at `t`, so at `u` there is only the error left to see to
    have hidle : (s.advance t).calculation = .idle := calculation_eq_idle (idle_of_due hdue)
    have hsettle : (s.settle t).AgreesWith (s.settle u) := by
      rw [Session.settle, Session.settle, if_pos hdue, if_pos (Timer.isDue_of_le htu hdue)]
      exact (agreesWith_refl _).complete htu
    rw [advance_of_idle hidle]
    exact ((agreesWith_expire (s.settle t) t).trans hsettle).expire u

theorem AgreesWith.press {s s' : Session} (h : s.AgreesWith s') (key : Key) (now : Time) :
    (s.press key now).AgreesWith (s'.press key now) := by
  have hcalculating : s.isCalculating = s'.isCalculating := by
    rw [isCalculating, h.calculation_eq, isCalculating]
  have hdismissed : s.dismissError.AgreesWith s'.dismissError :=
    ⟨h.parameters_eq, h.draft_eq, h.history_eq, h.calculation_eq, .inl rfl⟩
  have hedit {d d' : Option Draft} (hd : d = d') :
      (s.dismissError.edit d).AgreesWith (s'.dismissError.edit d') := by
    subst hd
    exact ⟨h.parameters_eq, congrArg d.getD h.draft_eq, h.history_eq, h.calculation_eq, .inl rfl⟩
  unfold Session.press
  rw [hcalculating]
  split
  · exact h
  · cases key with
    | digit value => exact hedit (congrArg (Draft.typeDigit value) h.draft_eq)
    | point => exact hedit (congrArg Draft.typePoint h.draft_eq)
    | op o => exact hedit (congrArg (Draft.typeOperator o) h.draft_eq)
    | percent => exact hedit (congrArg Draft.typePercent h.draft_eq)
    | backspace => exact hedit (congrArg Draft.backspace h.draft_eq)
    | equals =>
      refine ⟨h.parameters_eq, h.draft_eq, h.history_eq, ?_, .inl rfl⟩
      exact congrArg (fun p : Parameters => Timer.schedule now p.calculationDelay) h.parameters_eq
    | clearEntry => exact ⟨h.parameters_eq, congrArg Draft.clearEntry h.draft_eq, h.history_eq, rfl, .inl rfl⟩
    | clearAll => exact ⟨h.parameters_eq, rfl, h.history_eq, rfl, .inl rfl⟩

theorem AgreesWith.clearHistory {s s' : Session} (h : s.AgreesWith s') :
    s.clearHistory.AgreesWith s'.clearHistory :=
  ⟨h.parameters_eq, h.draft_eq, congrArg History.clear h.history_eq, h.calculation_eq, h.error⟩

end Session

namespace App

/-- The first calculator is the second one but for an error, which has gone in it or goes no later. -/
structure AgreesWith (a a' : App) : Prop where
  session : a.session.AgreesWith a'.session
  activeKey_eq : a.activeKey = a'.activeKey
  highlightEnd_eq : a.highlightEnd = a'.highlightEnd

theorem agreesWith_refl (a : App) : a.AgreesWith a :=
  ⟨a.session.agreesWith_refl, rfl, rfl⟩

theorem AgreesWith.trans {a a' a'' : App} (h : a.AgreesWith a') (h' : a'.AgreesWith a'') :
    a.AgreesWith a'' :=
  ⟨h.session.trans h'.session, h.activeKey_eq.trans h'.activeKey_eq,
    h.highlightEnd_eq.trans h'.highlightEnd_eq⟩

theorem AgreesWith.advance {a a' : App} (h : a.AgreesWith a') (now : Time) :
    (a.advance now).AgreesWith (a'.advance now) where
  session := by
    rw [App.advance, session_fade, App.advance, session_fade]
    exact h.session.advance now
  activeKey_eq := by rw [activeKey_advance, activeKey_advance, h.activeKey_eq, h.highlightEnd_eq]
  highlightEnd_eq := by rw [highlightEnd_advance, highlightEnd_advance, h.highlightEnd_eq]

theorem advance_advance (a : App) {t u : Time} (htu : t ≤ u) :
    ((a.advance t).advance u).AgreesWith (a.advance u) where
  session := by
    rw [App.advance, session_fade, App.advance, session_fade, App.advance, session_fade]
    exact a.session.advance_advance htu
  activeKey_eq := by
    rw [activeKey_advance, activeKey_advance, activeKey_advance, highlightEnd_advance]
    by_cases hover : a.highlightEnd ≤ t
    · rw [if_pos hover, ite_self, if_pos (hover.trans htu)]
    · rw [if_neg hover]
  highlightEnd_eq := by rw [highlightEnd_advance, highlightEnd_advance, highlightEnd_advance]

theorem AgreesWith.step {a a' : App} (h : a.AgreesWith a') (e : Event) :
    (a.step e).AgreesWith (a'.step e) := by
  cases e with
  | press key now => exact ⟨h.session.press key now, rfl, rfl⟩
  | advance now => exact h.advance now
  | clearHistory => exact ⟨h.session.clearHistory, h.activeKey_eq, h.highlightEnd_eq⟩

theorem AgreesWith.run {a a' : App} (h : a.AgreesWith a') (events : List Event) :
    (a.run events).AgreesWith (a'.run events) := by
  induction events generalizing a a' with
  | nil => exact h
  | cons e events ih => exact ih (h.step e)

theorem run_append (a : App) (first second : List Event) :
    a.run (first ++ second) = (a.run first).run second :=
  List.foldl_append

/-- What a frame does to the calculator: what is due at its time, then keys, and then the history may be
cleared. -/
structure Round where
  time : Time
  keys : List Key := []
  clearsHistory : Bool := false
deriving DecidableEq, Repr

/-- What the user does in a round. -/
def Round.input (r : Round) : List Event :=
  r.keys.map (fun key => .press key r.time) ++ if r.clearsHistory then [.clearHistory] else []

/-- The calculator after a round. -/
def round (a : App) (r : Round) : App :=
  (a.advance r.time).run r.input

/-- The calculator after some rounds. -/
def rounds (a : App) (rs : List Round) : App :=
  rs.foldl round a

/-- The second list has rounds without input besides, all of them before the last round of the first. -/
inductive Padded : List Round → List Round → Prop
  | last (r : Round) : Padded [r] [r]
  | kept (r : Round) {rs padded : List Round} (h : Padded rs padded) : Padded (r :: rs) (r :: padded)
  | inserted (t : Time) {rs padded : List Round} (h : Padded rs padded) :
      Padded rs ({ time := t } :: padded)

/-- Two calculators that agree once they have come to any time from `t` on agree after rounds from `t` on.
The induction is on the rounds besides. -/
theorem agreesWith_rounds {rs padded : List Round} (hpadded : Padded rs padded)
    (hordered : padded.Pairwise fun r r' => r.time ≤ r'.time) {a a' : App} {t : Time}
    (hstart : ∀ r ∈ padded, t ≤ r.time)
    (h : ∀ u, t ≤ u → (a'.advance u).AgreesWith (a.advance u)) :
    (a'.rounds padded).AgreesWith (a.rounds rs) := by
  induction hpadded generalizing a a' t with
  | last r => exact (h r.time (hstart r List.mem_cons_self)).run r.input
  | kept r _ ih =>
    obtain ⟨hfirst, hrest⟩ := List.pairwise_cons.mp hordered
    have hround : (a'.round r).AgreesWith (a.round r) :=
      (h r.time (hstart r List.mem_cons_self)).run r.input
    exact ih hrest hfirst fun u _ => hround.advance u
  | inserted w _ ih =>
    obtain ⟨hfirst, hrest⟩ := List.pairwise_cons.mp hordered
    have hw : t ≤ w := hstart _ List.mem_cons_self
    have hlater (u : Time) (hu : w ≤ u) : ((a'.advance w).advance u).AgreesWith (a.advance u) :=
      (a'.advance_advance hu).trans (h u (hw.trans hu))
    exact ih hrest hfirst hlater

/-- Rounds without input, at whatever times they come before the last round, change neither the draft nor
the pending calculation, the history or the highlighted button that there are after it. Only an error can
have gone earlier. -/
theorem rounds_eq_of_padded (a : App) {rs padded : List Round} (hpadded : Padded rs padded)
    (hordered : padded.Pairwise fun r r' => r.time ≤ r'.time) :
    let plain := a.rounds rs
    let drawn := a.rounds padded
    drawn.session.draft = plain.session.draft ∧ drawn.session.calculation = plain.session.calculation ∧
      drawn.session.history = plain.session.history ∧ drawn.activeKey = plain.activeKey ∧
      drawn.highlightEnd = plain.highlightEnd ∧ drawn.session.parameters = plain.session.parameters ∧
      (drawn.session.error = none ∨ drawn.session.error = plain.session.error) := by
  intro plain drawn
  have h : drawn.AgreesWith plain :=
    agreesWith_rounds hpadded hordered (fun r _ => Nat.zero_le r.time) fun u _ => agreesWith_refl _
  exact ⟨h.session.draft_eq, h.session.calculation_eq, h.session.history_eq, h.activeKey_eq,
    h.highlightEnd_eq, h.session.parameters_eq, h.session.error.imp_right And.left⟩

/-- `1 / 0 =` and, four seconds later, `7`: frames between them show the error and take it away again, and
the `7` is typed behind the `0` all the same. -/
theorem rounds_of_one_over_zero :
    let plain : List Round := [{ time := 0, keys := [.digit 1, .op .div, .digit 0, .equals] },
      { time := Time.ofMillis 4000, keys := [.digit 7] }]
    let drawn : List Round := [{ time := 0, keys := [.digit 1, .op .div, .digit 0, .equals] },
      { time := Time.ofMillis 50 }, { time := Time.ofMillis 3050 },
      { time := Time.ofMillis 4000, keys := [.digit 7] }]
    Padded plain drawn ∧ drawn.Pairwise (fun r r' => r.time ≤ r'.time) ∧
      ((new {}).rounds drawn).session.draft = ((new {}).rounds plain).session.draft := by
  intro plain drawn
  have hpadded : Padded plain drawn := .kept _ (.inserted _ (.inserted _ (.last _)))
  have hordered : drawn.Pairwise fun r r' => r.time ≤ r'.time := by decide
  exact ⟨hpadded, hordered, (rounds_eq_of_padded (new {}) hpadded hordered).1⟩

end App

/-- A frame of the window is such a round: its keys are those of the keyboard and then the one that is
clicked. -/
theorem Window.app_frame (w : Window) (f : Frame) :
    (w.frame f).app = w.app.round
      { time := f.time
        keys := f.inputs.filterMap Input.key? ++ (w.clickedKey? f).toList
        clearsHistory := w.isClicked f clearHistoryLabel } := by
  have hprepare : w.prepare f =
      (w.app.advance f.time).run ((f.inputs.filterMap Input.key?).map fun key => .press key f.time) := by
    rw [App.run, List.foldl_map]
    rfl
  show w.click f (w.prepare f) = _
  rw [App.round, App.Round.input, List.map_append, App.run_append, App.run_append, ← hprepare, click]
  cases w.clickedKey? f <;> cases w.isClicked f clearHistoryLabel <;> rfl

end KeypadCalc
