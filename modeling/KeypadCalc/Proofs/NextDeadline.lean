import KeypadCalc.App
import KeypadCalc.Proofs.ErrorLifetime

/-!
# The next deadline

Three deadlines can be pending at a time: that of a calculation, that of an error and that of a highlight.
The next deadline is the earliest of them, and nothing changes before it. When it has come something does
change, and on the screen: the calculation or the highlight comes to its end, or the error goes. What is
left pending then is later, also an error that a calculation has just brought up, since an error whose time
is over at once goes in the same step.
-/
namespace KeypadCalc

/-- The earlier one of two times has come when one of them has. -/
theorem Time.any_earliest? (a b : Option Time) (now : Time) :
    (earliest? a b).any (· ≤ now) = (a.any (· ≤ now) || b.any (· ≤ now)) := by
  cases a with
  | none => rfl
  | some a =>
    cases b with
    | none => simp [earliest?]
    | some b => simp [earliest?]

theorem Timer.isDue_poll (t : Timer) (now : Time) : (t.poll now).isDue now = false := by
  unfold poll
  split
  · rfl
  · rename_i hearly
    simpa using hearly

namespace Session

theorem calculation_expire (s : Session) (now : Time) : (s.expire now).calculation = s.calculation := by
  unfold expire
  split <;> rfl

/-- A calculation that was due has been carried out, whatever has come of it; nothing else happens to its
timer. -/
theorem calculation_advance (s : Session) (now : Time) :
    (s.advance now).calculation = s.calculation.poll now := by
  rw [advance, calculation_expire]
  unfold settle Timer.poll
  split
  · unfold complete
    split <;> rfl
  · rfl

/-- An error whose time was over has gone. -/
theorem errorExpiry_expire (s : Session) (now : Time) :
    (s.expire now).errorExpiry = s.errorExpiry.poll now := by
  unfold expire Timer.poll
  split <;> rfl

theorem advance_of_not_due {s : Session} {now : Time} (hcalculation : s.calculation.isDue now = false)
    (hexpiry : s.errorExpiry.isDue now = false) : s.advance now = s := by
  rw [advance, settle, hcalculation, if_neg Bool.false_ne_true, expire, hexpiry,
    if_neg Bool.false_ne_true]

end Session

namespace App

/-- What an event means for the session. -/
def Event.inSession : Event → Session.Event
  | .press key now => .press key now
  | .advance now => .advance now
  | .clearHistory => .clearHistory

theorem session_fade (a : App) (now : Time) : (a.fade now).session = a.session := by
  unfold fade
  split <;> rfl

theorem session_step (a : App) (e : Event) : (a.step e).session = a.session.step e.inSession := by
  cases e with
  | press => rfl
  | advance now => exact session_fade _ now
  | clearHistory => rfl

theorem session_run_from (a : App) (events : List Event) :
    (a.run events).session = a.session.run (events.map Event.inSession) := by
  induction events generalizing a with
  | nil => rfl
  | cons e events ih =>
    show ((a.step e).run events).session = (a.session.step e.inSession).run _
    rw [ih, session_step]

/-- The session of the calculator on the screen is a session like any other. -/
theorem session_run (p : Parameters) (events : List Event) :
    ((new p).run events).session = (Session.new p).run (events.map Event.inSession) :=
  (new p).session_run_from events

theorem activeKey_advance (a : App) (now : Time) :
    (a.advance now).activeKey = if a.highlightEnd ≤ now then none else a.activeKey := by
  unfold advance fade
  split <;> rfl

theorem highlightEnd_advance (a : App) (now : Time) : (a.advance now).highlightEnd = a.highlightEnd := by
  unfold advance fade
  split <;> rfl

/-- Whether something that is pending is due. -/
def isDue (a : App) (now : Time) : Bool :=
  a.session.calculation.isDue now || a.session.errorExpiry.isDue now
    || (a.activeKey.isSome && decide (a.highlightEnd ≤ now))

theorem any_nextDeadline (a : App) (now : Time) : a.nextDeadline.any (· ≤ now) = a.isDue now := by
  rw [nextDeadline, Time.any_earliest?, Session.nextDeadline, Time.any_earliest?, isDue]
  cases a.activeKey <;> rfl

theorem isDue_iff {a : App} {now : Time} : a.isDue now = true ↔ ∃ d ∈ a.nextDeadline, d ≤ now := by
  simp [← any_nextDeadline, Option.any_eq_true]

theorem isDue_eq_false_iff {a : App} {now : Time} :
    a.isDue now = false ↔ ∀ d ∈ a.nextDeadline, now < d := by
  rw [← Bool.not_eq_true, isDue_iff]
  simp

theorem advance_of_not_due {a : App} {now : Time} (h : a.isDue now = false) : a.advance now = a := by
  simp only [isDue, Bool.or_eq_false_iff, Bool.and_eq_false_iff, decide_eq_false_iff_not] at h
  obtain ⟨⟨hcalculation, hexpiry⟩, hhighlight⟩ := h
  rw [advance, Session.advance_of_not_due hcalculation hexpiry, fade]
  rcases hhighlight with hnone | hlasting
  · have hnone : a.activeKey = none := by simpa using hnone
    rw [← hnone, ite_self]
  · rw [if_neg hlasting]

theorem isDue_advance (a : App) (now : Time) : (a.advance now).isDue now = false := by
  have hsession : (a.advance now).session = a.session.advance now := session_fade _ now
  have hcalculation : (a.session.advance now).calculation.isDue now = false := by
    rw [Session.calculation_advance, Timer.isDue_poll]
  have hexpiry : (a.session.advance now).errorExpiry.isDue now = false := by
    rw [Session.advance, Session.errorExpiry_expire, Timer.isDue_poll]
  rw [isDue, hsession, hcalculation, hexpiry, activeKey_advance, highlightEnd_advance]
  by_cases hover : a.highlightEnd ≤ now
  · rw [if_pos hover]
    rfl
  · simp [hover]

/-- The two differ in what can be seen of them: the highlight, the error, or the sign of a pending
calculation. -/
def ShowsChange (before after : App) : Prop :=
  after.activeKey ≠ before.activeKey ∨ after.session.error ≠ before.session.error ∨
    after.session.isCalculating ≠ before.session.isCalculating

theorem showsChange_of_due {a : App} {now : Time} (hagree : a.session.ErrorsAgree)
    (h : a.isDue now = true) : ShowsChange a (a.advance now) := by
  have hsession : (a.advance now).session = a.session.advance now := session_fade _ now
  rw [ShowsChange, hsession]
  simp only [isDue, Bool.or_eq_true, Bool.and_eq_true, decide_eq_true_eq] at h
  cases hcalculation : a.session.calculation.isDue now with
  | true =>
    right
    right
    rw [Session.idle_of_due hcalculation, Session.isCalculating_of_isDue hcalculation]
    exact Bool.false_ne_true
  | false =>
    rw [hcalculation] at h
    rcases h with (h | hexpiry) | ⟨hactive, hover⟩
    · cases h
    · right
      left
      have hscheduled : a.session.errorExpiry ≠ .idle := by
        intro hidle
        rw [hidle] at hexpiry
        cases hexpiry
      have hgone : (a.session.advance now).error = none := by
        rw [Session.advance, Session.settle, hcalculation, if_neg Bool.false_ne_true, Session.expire,
          if_pos hexpiry]
        rfl
      rw [hgone]
      exact (hagree.expiring hscheduled).symm
    · left
      rw [activeKey_advance, if_pos hover]
      intro hnone
      rw [← hnone] at hactive
      cases hactive

theorem run_advances {a : App} {times : List Time} (h : ∀ t ∈ times, a.isDue t = false) :
    a.run (times.map .advance) = a := by
  induction times with
  | nil => rfl
  | cons t times ih =>
    show (a.advance t).run (times.map .advance) = a
    rw [advance_of_not_due (h t List.mem_cons_self)]
    exact ih fun u hu => h u (List.mem_cons_of_mem t hu)

/-- In every calculator on the screen, time changes nothing before the next deadline, and when it has come
something changes that can be seen. After that the next deadline is later than the time it was, so the same
time again changes nothing more; and looking at the clock any number of times before the deadline is the
same as sleeping until it. -/
theorem changes_at_next_deadline (p : Parameters) (events : List Event) (now : Time) :
    let a := (new p).run events
    (a.advance now = a ↔ ∀ d ∈ a.nextDeadline, now < d) ∧
      ((∃ d ∈ a.nextDeadline, d ≤ now) → ShowsChange a (a.advance now)) ∧
      (∀ d ∈ (a.advance now).nextDeadline, now < d) ∧
      (a.advance now).advance now = a.advance now ∧
      ∀ times : List Time, (∀ t ∈ times, ∀ d ∈ a.nextDeadline, t < d) →
        a.run (times.map .advance) = a := by
  intro a
  have hagree : a.session.ErrorsAgree := by
    rw [session_run p events]
    exact Session.errorsAgree_run p _
  have hchange (h : ∃ d ∈ a.nextDeadline, d ≤ now) : ShowsChange a (a.advance now) :=
    showsChange_of_due hagree (isDue_iff.mpr h)
  have hlater := isDue_advance a now
  refine ⟨⟨fun hkept => ?_, fun hearly => ?_⟩, hchange, isDue_eq_false_iff.mp hlater,
    advance_of_not_due hlater, fun times htimes => ?_⟩
  · by_contra hdue
    push Not at hdue
    have hshown := hchange hdue
    rw [hkept] at hshown
    rcases hshown with h | h | h <;> exact h rfl
  · exact advance_of_not_due (isDue_eq_false_iff.mpr hearly)
  · exact run_advances fun t ht => isDue_eq_false_iff.mpr (htimes t ht)

/-- `1 / 0 =`: at 50 ms the error comes up, the highlight ends at 150 ms and the error at 3050 ms, and then
nothing is pending. -/
theorem deadlines_of_one_over_zero :
    let a := (new {}).run ([.digit 1, .op .div, .digit 0, .equals].map fun key => .press key 0)
    let failed := a.advance (Time.ofMillis 50)
    (∃ d ∈ a.nextDeadline, d ≤ Time.ofMillis 50) ∧ ShowsChange a failed ∧
      failed.nextDeadline = some (Time.ofMillis 150) ∧
      a.run ([Time.ofMillis 10, 0, Time.ofMillis 49].map .advance) = a := by
  intro a failed
  have hdeadline : a.nextDeadline = some (Time.ofMillis 50) := by decide
  have hdue : ∃ d ∈ a.nextDeadline, d ≤ Time.ofMillis 50 := ⟨_, hdeadline, le_refl _⟩
  obtain ⟨-, hchange, -, -, hsleep⟩ := changes_at_next_deadline {}
    ([.digit 1, .op .div, .digit 0, .equals].map fun key => .press key 0) (Time.ofMillis 50)
  refine ⟨hdue, hchange hdue, by decide +kernel, hsleep _ ?_⟩
  change ∀ t ∈ [Time.ofMillis 10, 0, Time.ofMillis 49], ∀ d ∈ a.nextDeadline, t < d
  rw [hdeadline]
  decide

end App
end KeypadCalc
