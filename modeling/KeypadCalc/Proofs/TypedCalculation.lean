import KeypadCalc.Proofs.PendingCalculation
import KeypadCalc.Proofs.ReachedDraft

/-!
# Typing and calculating a chain

Whole runs of a session: the keys of a chain are pressed at any times, the key for equals schedules the
calculation, and the first time that reaches its deadline carries it out. Time that passes in between
changes nothing but an error that is still shown. A chain with a value ends in its result and one new
entry of the history; a chain that divides by zero ends in an error, and what was typed stays.
-/
namespace KeypadCalc

namespace Session

/-- Keys pressed one by one, while time passes in between. -/
inductive Presses : List Key → List Event → Prop
  | done : Presses [] []
  | press (key : Key) (now : Time) {keys : List Key} {events : List Event} (h : Presses keys events) :
      Presses (key :: keys) (.press key now :: events)
  | wait (now : Time) {keys : List Key} {events : List Event} (h : Presses keys events) :
      Presses keys (.advance now :: events)

/-- Keys that are accepted one after the other change the draft and nothing else that lasts. -/
theorem run_presses {keys : List Key} {events : List Event} (hpresses : Presses keys events)
    {s : Session} {d : Draft} (hidle : s.calculation = .idle) (hkeys : s.draft.typeKeys keys = some d) :
    (s.run events).draft = d ∧ (s.run events).parameters = s.parameters ∧
      (s.run events).history = s.history ∧ (s.run events).calculation = .idle := by
  induction hpresses generalizing s with
  | done => exact ⟨Option.some.inj hkeys, rfl, rfl, hidle⟩
  | press key now _ ih =>
    cases hkey : s.draft.typeKey key with
    | none =>
      rw [Draft.typeKeys, hkey] at hkeys
      cases hkeys
    | some d₁ =>
      rw [Draft.typeKeys_cons hkey] at hkeys
      have hpress := press_of_typeKey hidle hkey now
      rw [run, List.foldl_cons, step, hpress]
      exact ih (s := { s.dismissError with draft := d₁ }) hidle hkeys
  | wait now _ ih =>
    have hadvance := advance_of_idle hidle now
    rw [run, List.foldl_cons, step, hadvance, expire]
    split
    · exact ih (s := s.dismissError) hidle hkeys
    · exact ih hidle hkeys

/-- The key for equals, times at which the calculation is not due, and one at which it is. -/
def equalsEvents (t : Time) (waits : List Time) (now : Time) : List Event :=
  .press .equals t :: (waits.map .advance ++ [.advance now])

theorem run_waits {s : Session} {deadline : Time} (hcalculation : s.calculation = ⟨some deadline⟩)
    (herror : s.errorExpiry = .idle) {waits : List Time} (hwaits : ∀ w ∈ waits, w < deadline) :
    s.run (waits.map .advance) = s := by
  have hevents : ∀ e ∈ waits.map Event.advance, e.waits deadline = true := by
    simpa [Event.waits] using hwaits
  have hkept : .clearHistory ∉ waits.map Event.advance := by simp
  rw [(run_waiting hcalculation herror hevents).1, if_neg hkept]

theorem run_equalsEvents {s : Session} (hidle : s.calculation = .idle) {t : Time} {waits : List Time}
    (hwaits : ∀ w ∈ waits, w < Time.after t s.parameters.calculationDelay) (now : Time) :
    s.run (equalsEvents t waits now) = (s.asked t).advance now := by
  have hcalculating : s.isCalculating = false := by
    rw [isCalculating, hidle]
    rfl
  have hrest := run_waits (s := s.asked t) rfl rfl hwaits
  unfold run at hrest
  rw [equalsEvents, run, List.foldl_cons, step, press_equals hcalculating, List.foldl_append, hrest]
  rfl

/-- Keys that are accepted, the key for equals, and time until the calculation is due: what happens then
happens to the draft that the keys have left. -/
theorem exists_due {keys : List Key} {typing : List Event} (htyping : Presses keys typing) {s : Session}
    {d : Draft} (hidle : s.calculation = .idle) (hkeys : s.draft.typeKeys keys = some d) {t now : Time}
    {waits : List Time} (hwaits : ∀ w ∈ waits, w < Time.after t s.parameters.calculationDelay)
    (hnow : Time.after t s.parameters.calculationDelay ≤ now) :
    ∃ due : Session, s.run (typing ++ equalsEvents t waits now) = due.advance now ∧
      due.calculation.isDue now = true ∧ due.draft = d ∧ due.history = s.history ∧
      due.parameters = s.parameters ∧ due.error = none := by
  obtain ⟨hdraft, hparameters, hhistory, htyped⟩ := run_presses htyping hidle hkeys
  rw [← hparameters] at hwaits hnow
  refine ⟨(s.run typing).asked t, ?_, decide_eq_true hnow, hdraft, hhistory, hparameters, rfl⟩
  rw [run_append, run_equalsEvents htyped hwaits]

/-- The chain has been calculated: its result is shown, and the history has one more entry, in front of as many
older ones as there is room for. -/
structure Calculated (before after : Session) (c : Chain) : Prop where
  display_eq : ∃ x, Double.ofText? (resultText c.value) = some x ∧ after.draft.display = x.displayText
  expression_eq : after.draft.expression = []
  computed : after.draft.justComputed = true
  history_eq : after.history =
    { before.history with
      entries :=
        ({ expression := Text.forStorage History.expressionLimit (Text.normalizeBlanks c.typedText)
           result := Text.forStorage History.resultLimit after.draft.display } ::
          before.history.entries).take (max 1 before.parameters.historyCapacity) }
  no_error : after.error = none

/-- The chain has been refused: an error is shown, and nothing that was typed is lost. Deadlines stop at
the last time there is, so only then is the time of the error over as soon as it begins. -/
structure Refused (before after : Session) (c : Chain) (now : Time) : Prop where
  error_eq : after.error = if now < Time.last then some "Invalid expression".toList else none
  history_eq : after.history = before.history
  expression_eq : after.draft.expression = c.typedText
  display_eq : after.draft.display = c.last.numeral.text
  not_computed : after.draft.justComputed = false

/-- What the calculation of a typed chain comes to. -/
def Concludes (before after : Session) (c : Chain) (now : Time) : Prop :=
  if c.dividesByZero then Refused before after c now else Calculated before after c

/-- A calculation that is carried out leaves its result, with one more entry in the history. -/
theorem advance_of_shown {s : Session} {now : Time} {shown : Text}
    (hdue : s.calculation.isDue now = true) (h : s.draft.calculate = .ok (some shown)) :
    (s.advance now).draft = Draft.afterResult shown ∧
      (s.advance now).history =
        { s.history with
          entries := (Draft.entry s.draft.toEvaluate shown :: s.history.entries).take s.history.capacity } ∧
      (s.error = none → (s.advance now).error = none) := by
  have hsettle := settle_of_shown hdue h
  refine ⟨by rw [advance, draft_expire, hsettle], ?_, fun hnone => ?_⟩
  · rw [advance, history_expire, hsettle]
    rfl
  · rw [advance, hsettle, expire]
    split
    · rfl
    · exact hnone

/-- What a due calculation leaves, compared with the session before the keys were pressed, whose history it
still has. -/
theorem calculated_of_value {before s : Session} {now : Time} {c : Chain}
    (hcapacity : before.history.capacity = max 1 before.parameters.historyCapacity)
    (hkept : s.history = before.history) (hdue : s.calculation.isDue now = true)
    (htext : s.draft.toEvaluate = c.typedText) (hlength : c.typedText.length ≤ evaluationLimit)
    (hzero : c.dividesByZero = false) (hnone : s.error = none) : Calculated before (s.advance now) c := by
  obtain ⟨hshort, hdense⟩ := Chain.admitted_typedText hlength
  have hvalue : Expression.value s.draft.toEvaluate.compact = .ok c.value := by
    rw [htext, Expression.value_of_chain hshort hdense, hzero]
    rfl
  obtain ⟨hdraft, hhistory, herror⟩ := advance_of_shown hdue (Draft.calculate_of_value hvalue)
  constructor
  · exact ⟨_, Expression.ofText?_of_value hvalue, by rw [hdraft]; rfl⟩
  · rw [hdraft]
    rfl
  · rw [hdraft]
    rfl
  · rw [hdraft, hhistory, htext, hkept, ← hcapacity]
    rfl
  · exact herror hnone

/-- A calculation that fails changes neither draft nor history. The error is shown unless it would be
over as soon as it begins. -/
theorem advance_of_error {s : Session} {now : Time} {e : CalculationError}
    (hdue : s.calculation.isDue now = true) (h : s.draft.calculate = .error e) :
    (s.advance now).draft = s.draft ∧ (s.advance now).history = s.history ∧
      (s.advance now).error =
        if now < Time.after now s.parameters.errorDuration then
          some (Text.forStorage Text.storageLimit e.message)
        else none := by
  rw [advance_failed hdue h]
  split
  · exact ⟨rfl, rfl, rfl⟩
  · exact ⟨rfl, rfl, rfl⟩

theorem refused_of_error {s : Session} {now : Time} {c : Chain}
    (herror : 0 < s.parameters.errorDuration) (hdue : s.calculation.isDue now = true)
    (hshows : s.draft.Shows c.typedText c.last.numeral.text)
    (hlength : c.typedText.length ≤ expressionLimit) (hzero : c.dividesByZero = true) :
    Refused s (s.advance now) c now := by
  obtain ⟨hshort, hdense⟩ := Chain.admitted_typedText (hlength.trans (by decide))
  have htext := Draft.toEvaluate_of_shows hshows
  have hresult : Expression.result s.draft.toEvaluate.compact = .error .divisionByZero := by
    rw [htext, Expression.result_of_chain hshort hdense, hzero]
    rfl
  have hne : s.draft.toEvaluate.trim ≠ [] := by
    rw [htext]
    exact c.trim_typedText_ne_nil
  obtain ⟨hdraft, hhistory, hshown⟩ := advance_of_error hdue (Draft.calculate_of_error hne hresult)
  have hover : now < Time.after now s.parameters.errorDuration ↔ now < Time.last :=
    Time.lt_after_iff.trans (and_iff_right herror)
  constructor
  · rw [hshown, if_congr hover rfl rfl]
    congr 1
  · exact hhistory
  · rw [hdraft, hshows.expression_eq]
  · rw [hdraft, hshows.display_eq]
  · rw [hdraft, hshows.not_computed]

theorem concludes_of_typeKeys {s : Session} (herror : 0 < s.parameters.errorDuration)
    (hcapacity : s.history.capacity = max 1 s.parameters.historyCapacity) (hidle : s.calculation = .idle)
    {c : Chain} {keys : List Key} {d : Draft} (hkeys : s.draft.typeKeys keys = some d)
    (hshows : d.Shows c.typedText c.last.numeral.text) (hlength : c.typedText.length ≤ expressionLimit)
    {typing : List Event} (htyping : Presses keys typing) {t now : Time} {waits : List Time}
    (hwaits : ∀ w ∈ waits, w < Time.after t s.parameters.calculationDelay)
    (hnow : Time.after t s.parameters.calculationDelay ≤ now) :
    Concludes s (s.run (typing ++ equalsEvents t waits now)) c now := by
  obtain ⟨due, hrun, hdue, hdraft, hhistory, hparameters, hnone⟩ :=
    exists_due htyping hidle hkeys hwaits hnow
  rw [← hdraft] at hshows
  rw [hrun]
  unfold Concludes
  cases hzero : c.dividesByZero with
  | true =>
    have h := refused_of_error (hparameters ▸ herror) hdue hshows hlength hzero
    exact ⟨h.error_eq, h.history_eq.trans hhistory, h.expression_eq, h.display_eq, h.not_computed⟩
  | false =>
    exact calculated_of_value hcapacity hhistory hdue (Draft.toEvaluate_of_shows hshows)
      (hlength.trans (by decide)) hzero hnone

/-- A result that is not infinite is the first operand of a chain, possibly with a minus. -/
theorem exists_leadText {s : Session} (h : s.ShowsResult) (hcomputed : s.draft.justComputed = true)
    (hfinite : s.draft.display ≠ ['∞']) (rest : List (BinaryOp × Operand)) :
    ∃ c : Chain, c.leadText = s.draft.display ∧ c.rest = rest ∧
      s.draft = Draft.afterResult c.leadText := by
  obtain ⟨v, hv⟩ := h hcomputed
  have hdisplay : s.draft.display = Draft.shown v := by
    rw [hv]
    rfl
  rw [hdisplay] at hfinite ⊢
  obtain ⟨d, hd⟩ := Draft.exists_render_of_shown hfinite
  have hlead : (d.beginning rest).leadText = Draft.shown v := by rw [hd, d.leadText_beginning]
  exact ⟨_, hlead, rfl, by rw [hlead, hv]⟩

/-- Typing a chain and calculating it, from the beginning of a session or from a result that becomes
the first operand: the display shows the double nearest to the text of the exact value, and the history
has one more entry; or something is divided by zero, and the expression is refused. -/
theorem concludes_typed_chain (p : Parameters) (herror : p.errorDuration ≠ 0) :
    (∀ c : Chain, c.negated = false → FitsDisplay c.operands → c.typedText.length ≤ expressionLimit →
      ∀ (typing : List Event) (t : Time) (waits : List Time) (now : Time), Presses c.keys typing →
        (∀ w ∈ waits, w < Time.after t p.calculationDelay) → Time.after t p.calculationDelay ≤ now →
        Concludes (new p) ((new p).run (typing ++ equalsEvents t waits now)) c now) ∧
    ∀ (before : List Event) (rest : List (BinaryOp × Operand)),
      let s := (new p).run before
      s.draft.justComputed = true → s.isCalculating = false → s.draft.display ≠ ['∞'] →
      s.draft.display.length < displayLimit → rest ≠ [] → FitsDisplay (rest.map Prod.snd) →
      (s.draft.display ++ Chain.typedRest rest).length ≤ expressionLimit →
      ∃ c : Chain, c.leadText = s.draft.display ∧ c.rest = rest ∧
        ∀ (typing : List Event) (t : Time) (waits : List Time) (now : Time),
          Presses (Chain.restKeys rest) typing →
          (∀ w ∈ waits, w < Time.after t p.calculationDelay) → Time.after t p.calculationDelay ≤ now →
          Concludes s (s.run (typing ++ equalsEvents t waits now)) c now := by
  constructor
  · intro c hsign hroom hlength typing t waits now htyping hwaits hnow
    obtain ⟨d, hkeys, hshows⟩ := Draft.typeKeys_new hsign hroom hlength
    exact concludes_of_typeKeys (Nat.pos_of_ne_zero herror) (capacity_run p []) rfl hkeys hshows hlength htyping
      hwaits hnow
  · intro before rest s hcomputed hcalculating hfinite hshort hrest hroom hlength
    obtain ⟨c, hlead, rfl, hdraft⟩ := exists_leadText (showsResult_run p before) hcomputed hfinite rest
    refine ⟨c, hlead, rfl, ?_⟩
    intro typing t waits now htyping hwaits hnow
    have hparameters : s.parameters = p := parameters_run (new p) before
    have hidle : s.calculation = .idle := calculation_eq_idle hcalculating
    rw [← hlead] at hshort hlength
    have hcapacity : s.history.capacity = max 1 p.historyCapacity := capacity_run p before
    obtain ⟨d, hkeys, hshows⟩ := Draft.typeKeys_afterResult hrest hroom hshort hlength
    rw [← hdraft] at hkeys
    rw [← hparameters] at herror hcapacity hwaits hnow
    exact concludes_of_typeKeys (Nat.pos_of_ne_zero herror) hcapacity hidle hkeys hshows hlength htyping hwaits
      hnow

/-- Typing `1 / 8` in a new session, and `x 2` behind the result. -/
theorem concludes_one_eighth_twice :
    let eighth : List Event := [.press (.digit 1) 0, .press (.op .div) 0, .press (.digit 8) 0] ++
      equalsEvents 0 [] (Time.ofMillis 50)
    (({} : Parameters).errorDuration ≠ 0 ∧ ∃ c : Chain, c.typedText = "1 / 8".toList ∧
      Concludes (new {}) ((new {}).run eighth) c (Time.ofMillis 50)) ∧
    ∃ c : Chain, c.typedText = "0.125 x 2".toList ∧
      Concludes ((new {}).run eighth)
        (((new {}).run eighth).run ([.press (.op .mul) (Time.ofMillis 60),
          .press (.digit 2) (Time.ofMillis 60)] ++
          equalsEvents (Time.ofMillis 60) [] (Time.ofMillis 110))) c (Time.ofMillis 110) := by
  intro eighth
  have herror : ({} : Parameters).errorDuration ≠ 0 := by decide
  have hone := Operand.fitsDisplay_ofDigit (c := '1') rfl
  have htwo := Operand.fitsDisplay_ofDigit (c := '2') rfl
  have height := Operand.fitsDisplay_ofDigit (c := '8') rfl
  obtain ⟨hnew, hresult⟩ := concludes_typed_chain {} herror
  constructor
  · have hfits : FitsDisplay [.ofDigit '1' rfl, .ofDigit '8' rfl] := by
      simp [FitsDisplay, hone, height, hone.2.le, height.2.le]
    have hpresses : Presses [.digit 1, .op .div, .digit 8]
        [.press (.digit 1) 0, .press (.op .div) 0, .press (.digit 8) 0] :=
      .press _ _ (.press _ _ (.press _ _ .done))
    refine ⟨herror, ⟨false, .ofDigit '1' rfl, [(.div, .ofDigit '8' rfl)]⟩, by decide, ?_⟩
    exact hnew ⟨false, .ofDigit '1' rfl, [(.div, .ofDigit '8' rfl)]⟩ rfl hfits (by decide) _ 0 [] _
      hpresses (by simp) (by decide)
  · have hfits : FitsDisplay [.ofDigit '2' rfl] := by
      simp [FitsDisplay, htwo, htwo.2.le]
    have hpresses : Presses [.op .mul, .digit 2] [.press (.op .mul) (Time.ofMillis 60),
        .press (.digit 2) (Time.ofMillis 60)] := .press _ _ (.press _ _ .done)
    have hdisplay : ((new {}).run eighth).draft.display = "0.125".toList := by decide +kernel
    obtain ⟨c, hlead, hrest, hconcludes⟩ := hresult eighth [(.mul, .ofDigit '2' rfl)] (by decide +kernel)
      (by decide +kernel) (by rw [hdisplay]; decide) (by rw [hdisplay]; decide) (List.cons_ne_nil _ _) hfits
      (by rw [hdisplay]; decide)
    refine ⟨c, ?_, hconcludes _ _ [] _ hpresses (by simp) (by decide)⟩
    rw [Chain.typedText, hlead, hrest, hdisplay]
    decide

end Session
end KeypadCalc
