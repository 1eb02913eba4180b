import KeypadCalc.Settings
import KeypadCalc.Proofs.NextDeadline
import KeypadCalc.Proofs.RecordedHistory

/-!
# What the settings bound

Whatever numbers a settings text has, the settings that are read from it are within fixed bounds. The bounds
carry over to every run. The capacity of the history never changes. Both timers are set by one event each,
to a deadline that lies the time of the settings behind it, and until that event comes again the deadline is
kept or taken away; so the first time that has reached the upper bound finds the calculation carried out, and
the error gone.
-/
namespace KeypadCalc

namespace Time

theorem ofMillis_le {m n : Nat} (h : m ≤ n) : ofMillis m ≤ ofMillis n :=
  Nat.mul_le_mul_right millisecond h

/-- A deadline is as far away as its delay, as long as there are such times. -/
theorem after_bounds {least delay most : Nat} {t : Time} (hleast : least ≤ delay) (hmost : delay ≤ most)
    (hfits : t + ofMillis least ≤ last) :
    t + ofMillis least ≤ after t (ofMillis delay) ∧ after t (ofMillis delay) ≤ t + ofMillis most := by
  constructor
  · exact le_min (Nat.add_le_add_left (ofMillis_le hleast) t) hfits
  · exact (min_le_left _ _).trans (Nat.add_le_add_left (ofMillis_le hmost) t)

end Time

namespace Settings

theorem toNat_clamp (s : Settings) :
    s.clamp.calculationDelay.toNat = min s.calculationDelay.toNat 1000 ∧
      s.clamp.errorDuration.toNat = max 500 (min s.errorDuration.toNat 30000) ∧
      s.clamp.historyCapacity.toNat = max 1 (min s.historyCapacity.toNat 200) := by
  simp only [clamp, UInt64.toNat_min, UInt64.toNat_max]
  exact ⟨rfl, rfl, rfl⟩

theorem clamp_clamp (s : Settings) : s.clamp.clamp = s.clamp := by
  obtain ⟨hdelay, hduration, hcapacity⟩ := s.toNat_clamp
  obtain ⟨hdelay', hduration', hcapacity'⟩ := s.clamp.toNat_clamp
  rw [Settings.mk.injEq, ← UInt64.toNat_inj, ← UInt64.toNat_inj, ← UInt64.toNat_inj]
  omega

theorem bounds_of_clamp {s : Settings} (h : s.clamp = s) :
    s.calculationDelay.toNat ≤ 1000 ∧
      (500 ≤ s.errorDuration.toNat ∧ s.errorDuration.toNat ≤ 30000) ∧
      1 ≤ s.historyCapacity.toNat ∧ s.historyCapacity.toNat ≤ 200 := by
  obtain ⟨hdelay, hduration, hcapacity⟩ := s.toNat_clamp
  rw [h] at hdelay hduration hcapacity
  omega

section
variable {read : Text → Option Settings}

/-- A text has settings when the reader delivers numbers for it, and then these are brought into their
bounds. -/
theorem ofText_eq_ok_iff {text : Text} {s : Settings} :
    ofText read text = .ok s ↔ ∃ delivered, read text = some delivered ∧ delivered.clamp = s := by
  unfold ofText
  cases read text with
  | none => simp
  | some delivered => simp

/-- The settings that are read from a text are within their bounds. -/
theorem clamp_eq_of_ofText {text : Text} {s : Settings} (h : ofText read text = .ok s) : s.clamp = s := by
  obtain ⟨delivered, -, rfl⟩ := ofText_eq_ok_iff.mp h
  exact delivered.clamp_clamp

/-- Whatever the files contain, the calculator starts with settings within their bounds. -/
theorem clamp_load (directory : Option Text) (files : Text → Option ByteArray) :
    (load read directory files).clamp = load read directory files := by
  unfold load
  split
  · rfl
  · rename_i directory
    unfold ofFile
    cases (files (filePath directory)).bind String.fromUTF8? with
    | none => rfl
    | some text =>
      cases hread : ofText read text.toList with
      | error e =>
        simp only [hread]
        rfl
      | ok s =>
        simp only [hread]
        exact clamp_eq_of_ofText hread

/-- Without settings that can be read the calculator is as it is without any settings. -/
theorem toParameters_load_of_error {directory : Text} {files : Text → Option ByteArray} {e : SettingsError}
    (h : ofFile read (files (filePath directory)) = .error e) :
    (load read (some directory) files).toParameters = {} := by
  rw [load, h]
  rfl

end

end Settings

namespace Session

/-- Whether the event carries out a calculation that fails. -/
def fails (s : Session) (e : Event) : Bool :=
  match s.outcome? e with
  | some (.error _) => true
  | _ => false

/-- Without a request the deadline of a calculation is kept or taken away. -/
theorem calculation_step {s : Session} {e : Event} (h : s.asks e = false) :
    (s.step e).calculation = s.calculation ∨ (s.step e).calculation = .idle := by
  have htransition := s.transition_step e
  generalize s.step e = s' at htransition ⊢
  cases htransition with
  | asked now hidle =>
    rw [asks, hidle] at h
    cases h
  | entryCleared => exact .inr rfl
  | allCleared => exact .inr rfl
  | closed => exact .inr rfl
  | waited now => exact .inl (s.calculation_expire now)
  | blank now => exact .inr (calculation_expire _ now)
  | committed now => exact .inr (calculation_expire _ now)
  | failed now => exact .inr (calculation_expire _ now)
  | _ => exact .inl rfl

/-- No calculation is pending, or it has this deadline. -/
def DueBy (deadline : Time) (s : Session) : Prop :=
  s.calculation = .idle ∨ s.calculation = ⟨some deadline⟩

theorem dueBy_run {s : Session} {deadline : Time} (hs : s.DueBy deadline) {events : List Event}
    (hevents : s.Along (fun s e => s.asks e = false) events) : (s.run events).DueBy deadline := by
  refine run_of_step_along (P := DueBy deadline) (fun s e _ hs hasks => ?_) hs hevents
  rcases calculation_step hasks with hkept | hidle
  · rwa [DueBy, hkept]
  · exact .inl hidle

theorem DueBy.advance {s : Session} {deadline now : Time} (hs : s.DueBy deadline) (hnow : deadline ≤ now) :
    (s.advance now).isCalculating = false := by
  rcases hs with hidle | hpending
  · have hnone : s.isCalculating = false := by
      rw [isCalculating, hidle]
      rfl
    exact (step_of_idle (e := .advance now) hnone rfl).1
  · refine idle_of_due ?_
    rw [hpending]
    exact decide_eq_true hnow

/-- No error is visible, or its time ends with this deadline. -/
def GoneBy (deadline : Time) (s : Session) : Prop :=
  s.error = none ∨ s.errorExpiry = ⟨some deadline⟩

theorem GoneBy.expire {s : Session} {deadline : Time} (h : s.GoneBy deadline) (now : Time) :
    (s.expire now).GoneBy deadline := by
  unfold Session.expire
  split
  · exact .inl rfl
  · exact h

theorem GoneBy.error_expire {s : Session} {deadline now : Time} (h : s.GoneBy deadline)
    (hnow : deadline ≤ now) : (s.expire now).error = none := by
  unfold Session.expire
  split
  · rfl
  · rename_i hlasting
    refine h.resolve_right fun hexpiry => hlasting ?_
    rw [hexpiry]
    exact decide_eq_true hnow

/-- Unless a calculation fails, the deadline of an error is kept or the error goes. -/
theorem GoneBy.step {s : Session} {deadline : Time} (h : s.GoneBy deadline) {e : Event} (he : e ≠ .close)
    (hfails : s.fails e = false) : (s.step e).GoneBy deadline := by
  have htransition := s.transition_step e
  generalize s.step e = s' at htransition ⊢
  cases htransition with
  | ignored => exact h
  | waited now => exact h.expire now
  | blank now =>
    refine GoneBy.expire ?_ now
    exact h
  | committed now =>
    refine GoneBy.expire ?_ now
    exact h
  | failed now hdue htext hcause =>
    rw [fails, outcome?_of_due hdue, Draft.calculate_of_error htext hcause] at hfails
    cases hfails
  | historyCleared => exact h
  | closed => exact absurd rfl he
  | _ => exact .inl rfl

theorem GoneBy.advance {s : Session} {deadline now : Time} (h : s.GoneBy deadline)
    (hfails : s.fails (.advance now) = false) (hnow : deadline ≤ now) : (s.advance now).error = none := by
  have htransition := s.transition_advance now
  generalize s.advance now = s' at htransition ⊢
  cases htransition with
  | waited => exact h.error_expire hnow
  | blank =>
    refine GoneBy.error_expire ?_ hnow
    exact h
  | committed =>
    refine GoneBy.error_expire ?_ hnow
    exact h
  | failed _ hdue htext hcause =>
    rw [fails, outcome?_of_due hdue, Draft.calculate_of_error htext hcause] at hfails
    cases hfails

theorem goneBy_run {s : Session} {deadline : Time} (hs : s.GoneBy deadline) {events : List Event}
    (hopen : .close ∉ events) (hevents : s.Along (fun s e => s.fails e = false) events) :
    (s.run events).GoneBy deadline :=
  run_of_step_along (P := GoneBy deadline)
    (fun _ _ he h hfails => h.step (ne_of_mem_of_not_mem he hopen) hfails) hs hevents

/-- A calculation that fails puts up an error, if its time is not over at once. -/
theorem advance_of_outcome {s : Session} {now : Time} {cause : CalculationError}
    (h : s.outcome? (.advance now) = some (.error cause))
    (hlasting : 0 < s.parameters.errorDuration ∧ now < Time.last) :
    (s.advance now).error ≠ none ∧
      (s.advance now).errorExpiry = .schedule now s.parameters.errorDuration := by
  have hdue : s.calculation.isDue now = true := by
    by_contra hearly
    rw [outcome?, if_neg hearly] at h
    cases h
  rw [outcome?_of_due hdue] at h
  rw [advance_failed hdue (Option.some.inj h), if_pos (Time.lt_after_iff.mpr hlasting)]
  exact ⟨Option.some_ne_none _, rfl⟩

end Session

namespace App

theorem close_not_mem (events : List Event) : Session.Event.close ∉ events.map Event.inSession := by
  intro h
  obtain ⟨e, -, he⟩ := List.mem_map.mp h
  cases e <;> cases he

theorem length_entries_run {settings : Settings} (h : settings.clamp = settings) (events : List Event) :
    ((new settings.toParameters).run events).session.history.entries.length ≤ 200 := by
  obtain ⟨-, -, -, hcapacity⟩ := Settings.bounds_of_clamp h
  rw [session_run, Session.entries_run (Nat.zero_le _)]
  refine (List.length_take_le _ _).trans ?_
  exact max_le hcapacity (by decide)

/-- The calculator as it is started, in whatever directory and with whatever files. -/
theorem length_entries_run_load (read : Text → Option Settings) (directory : Option Text)
    (files : Text → Option ByteArray) (events : List Event) :
    ((new (Settings.load read directory files).toParameters).run events).session.history.entries.length ≤ 200 :=
  length_entries_run (Settings.clamp_load directory files) events

/-- With settings read from a text, whatever reader delivers their numbers, another clamping changes nothing,
and the history never has more than 200 entries. A calculation is due within a second of the key for equals,
and from then on none is pending until the key is accepted again. An error is shown for half a second at least
and half a minute at most, and from then on none is visible until another calculation fails. -/
theorem settings_bound_runs {read : Text → Option Settings} {text : Text} {settings : Settings}
    (h : Settings.ofText read text = .ok settings) (events : List Event) :
    let a := (new settings.toParameters).run events
    settings.clamp = settings ∧ a.session.history.entries.length ≤ 200 ∧
      (∀ t, a.session.isCalculating = false → t ≤ Time.last →
        let asked := a.press .equals t
        (∃ deadline, asked.session.calculation = ⟨some deadline⟩ ∧ t ≤ deadline ∧
          deadline ≤ t + Time.ofMillis 1000) ∧
        ∀ later now, asked.session.Along (fun s e => s.asks e = false) (later.map Event.inSession) →
          t + Time.ofMillis 1000 ≤ now → ((asked.run later).advance now).session.isCalculating = false) ∧
      ∀ t cause, a.session.outcome? (.advance t) = some (.error cause) →
        t + Time.ofMillis 500 ≤ Time.last →
        let failed := a.advance t
        failed.session.error ≠ none ∧
        (∃ deadline, failed.session.errorExpiry = ⟨some deadline⟩ ∧ t + Time.ofMillis 500 ≤ deadline ∧
          deadline ≤ t + Time.ofMillis 30000) ∧
        ∀ later now,
          failed.session.Along (fun s e => s.fails e = false)
            ((later ++ [.advance now]).map Event.inSession) →
          t + Time.ofMillis 30000 ≤ now → ((failed.run later).advance now).session.error = none := by
  intro a
  have hclamp := Settings.clamp_eq_of_ofText h
  obtain ⟨hdelay, ⟨hshort, hlong⟩, -⟩ := Settings.bounds_of_clamp hclamp
  have hsession : a.session = (Session.new settings.toParameters).run (events.map Event.inSession) :=
    session_run _ events
  have hparameters : a.session.parameters = settings.toParameters := by
    rw [hsession]
    exact Session.parameters_run _ _
  refine ⟨hclamp, length_entries_run hclamp events, ?_, ?_⟩
  · intro t hidle hlast asked
    have hpending : asked.session.calculation =
        ⟨some (Time.after t (Time.ofMillis settings.calculationDelay.toNat))⟩ := by
      show (a.session.press .equals t).calculation = _
      rw [Session.press_equals hidle, Session.asked, hparameters]
      rfl
    obtain ⟨hnever, hwithin⟩ := Time.after_bounds (t := t) (Nat.zero_le _) hdelay (by simpa [Time.ofMillis])
    rw [Time.ofMillis, Nat.zero_mul, Nat.add_zero] at hnever
    refine ⟨⟨_, hpending, hnever, hwithin⟩, fun later now hasks hnow => ?_⟩
    have hdue := Session.dueBy_run (.inr hpending) hasks
    rw [advance, session_fade, session_run_from]
    exact hdue.advance (hwithin.trans hnow)
  · intro t cause hfailed hfits failed
    have hlasting : 0 < a.session.parameters.errorDuration ∧ t < Time.last := by
      have hpositive : 0 < Time.ofMillis 500 := by decide
      rw [hparameters]
      exact ⟨hpositive.trans_le (Time.ofMillis_le hshort),
        (Nat.lt_add_of_pos_right hpositive).trans_le hfits⟩
    obtain ⟨hvisible, hexpiry⟩ := Session.advance_of_outcome hfailed hlasting
    have hraised : failed.session = a.session.advance t := session_fade _ t
    rw [hparameters] at hexpiry
    have hwithin := Time.after_bounds hshort hlong hfits
    refine ⟨hraised ▸ hvisible, ⟨_, hraised ▸ hexpiry, hwithin⟩, fun later now hfails hnow => ?_⟩
    rw [List.map_append, Session.along_append] at hfails
    have hgone := Session.goneBy_run (.inr (hraised ▸ hexpiry)) (close_not_mem later) hfails.1
    rw [advance, session_fade, session_run_from]
    exact hgone.advance hfails.2.1 (hwithin.2.trans hnow)

/-- A reader that knows one text. Its numbers are far out of bounds: the calculation `1 / 0` is due after one
second, and its error goes after half a second. -/
theorem settings_out_of_bounds :
    let text := "delai_calcul_ms = 60000\nduree_erreur_ms = 1\ncapacite_historique = 0\n".toList
    let delivered : Settings := { calculationDelay := 60000, errorDuration := 1, historyCapacity := 0 }
    let read : Text → Option Settings := fun s => if s = text then some delivered else none
    let settings : Settings := { calculationDelay := 1000, errorDuration := 500, historyCapacity := 1 }
    let typed : List Event := [.digit 1, .op .div, .digit 0].map fun key => .press key 0
    let a := (new settings.toParameters).run typed
    let asked := a.press .equals 0
    let failed := asked.advance (Time.ofMillis 1000)
    Settings.ofText read text = .ok settings ∧ a.session.isCalculating = false ∧
      (asked.advance (Time.ofMillis 1000)).session.isCalculating = false ∧
      failed.session.error ≠ none ∧ (failed.advance (Time.ofMillis 31000)).session.error = none := by
  intro text delivered read settings typed a asked failed
  have hread : Settings.ofText read text = .ok settings :=
    Settings.ofText_eq_ok_iff.mpr ⟨delivered, if_pos rfl, by decide⟩
  have hidle : a.session.isCalculating = false := by decide
  obtain ⟨-, -, hasked, -⟩ := settings_bound_runs hread typed
  obtain ⟨-, -, -, hfailed⟩ := settings_bound_runs hread (typed ++ [.press .equals 0])
  have hcalculated := (hasked 0 hidle (Nat.zero_le _)).2 [] (Time.ofMillis 1000) trivial (by decide)
  obtain ⟨hvisible, -, hgone⟩ := hfailed (Time.ofMillis 1000) .invalidExpression (by decide +kernel) (by decide)
  exact ⟨hread, hidle, hcalculated, hvisible,
    hgone [] (Time.ofMillis 31000) (by decide +kernel) (by decide)⟩

end App
end KeypadCalc
