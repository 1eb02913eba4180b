import KeypadCalc.Proofs.Transitions

/-!
# What changes the draft of a session

A key that is accepted makes one of a few edits, and an edit says everything that the key does. Besides
the edits a draft changes only when it is cleared, or when a calculation leaves its result in it. An
invariant of drafts is therefore a matter of the edits, and it holds in every session that began as a
new one as soon as each of them keeps it.
-/
namespace KeypadCalc

namespace Draft

theorem eq_of_accept {old new d : Draft} (h : accept old new = some d) : new = d := by
  unfold accept at h
  split at h
  · exact Option.some.inj h
  · cases h

theorem accept_self {old new d : Draft} (h : accept old new = some d) : accept old d = some d := by
  obtain rfl := eq_of_accept h
  exact h

/-- What a key does to a draft that accepts it. -/
inductive Edit (d : Draft) : Key → Draft → Prop
  | digitBehindOperator {value : Nat} (hvalue : value < 10) (hawaiting : d.awaitingOperand = true) :
      Edit d (.digit value)
        { display := [value.digitChar]
          expression := d.expression ++ [value.digitChar]
          lastKey := some (.digit value) }
  | digitForResult {value : Nat} (hvalue : value < 10) (hawaiting : d.awaitingOperand = false)
      (hresult : d.justComputed = true ∨ d.lastKey = some .equals) :
      Edit d (.digit value)
        { display := [value.digitChar]
          expression := [value.digitChar]
          lastKey := some (.digit value) }
  | digitForZero {value : Nat} (hvalue : value < 10) (hawaiting : d.awaitingOperand = false)
      (hcomputed : d.justComputed = false) (hzero : d.display = ['0']) :
      Edit d (.digit value)
        { display := [value.digitChar]
          expression := dropZero d.expression ++ [value.digitChar]
          lastKey := some (.digit value) }
  | digit {value : Nat} (hvalue : value < 10) (hbegins : d.beginsOperand = false) :
      Edit d (.digit value)
        { display := d.display ++ [value.digitChar]
          expression := d.expression ++ [value.digitChar]
          lastKey := some (.digit value) }
  | pointFirst (hfresh : d.justComputed = true ∨ d.awaitingOperand = true) :
      Edit d .point
        { display := ['0', '.']
          expression := d.expression ++ ['0', '.']
          lastKey := some .point }
  | pointApart (hfresh : d.justComputed = true ∨ d.awaitingOperand = true)
      (hempty : d.expression ≠ []) (hblank : d.expression.getLast?.any isBlank = false) :
      Edit d .point
        { display := ['0', '.']
          expression := d.expression ++ [' ', '0', '.']
          lastKey := some .point }
  | point (hawaiting : d.awaitingOperand = false) (hcomputed : d.justComputed = false)
      (hpoint : '.' ∉ d.display) :
      Edit d .point
        { display := d.display ++ ['.']
          expression := d.expression ++ ['.']
          lastKey := some .point }
  | operatorForOperator (o : BinaryOp) (hoperator : d.expression.endsWithOperator = true) :
      Edit d (.op o)
        { d with
          expression := Text.trimEnd d.expression.trimEnd.dropLast ++ [' ', o.glyph, ' ']
          lastKey := some (.op o)
          justComputed := false
          awaitingOperand := true }
  | operatorBehindDisplay (o : BinaryOp) (hempty : d.expression = []) :
      Edit d (.op o)
        { d with
          expression := d.display ++ [' ', o.glyph, ' ']
          lastKey := some (.op o)
          justComputed := false
          awaitingOperand := true }
  | operator (o : BinaryOp) (hempty : d.expression ≠ [])
      (hoperator : d.expression.endsWithOperator = false) :
      Edit d (.op o)
        { d with
          expression := d.expression ++ [' ', o.glyph, ' ']
          lastKey := some (.op o)
          justComputed := false
          awaitingOperand := true }
  | percentOfDisplay (hmissing : d.expression = [] ∨ d.expression.endsWithOperator = true) :
      Edit d .percent
        { d with
          expression := d.expression ++ (if d.display.isEmpty then ['0'] else d.display) ++ ['%']
          lastKey := some .percent
          justComputed := false
          awaitingOperand := false }
  | percent (hempty : d.expression ≠ []) (hoperator : d.expression.endsWithOperator = false) :
      Edit d .percent
        { d with
          expression := d.expression ++ ['%']
          lastKey := some .percent
          justComputed := false
          awaitingOperand := false }
  | backspaceBehindOperator (hdisplay : d.display ≠ []) (hawaiting : d.awaitingOperand = true) :
      Edit d .backspace
        { display := d.display.dropLast
          expression :=
            if endsWithNumeral d.expression.trimEnd then dropNumeral d.expression.trimEnd
            else d.expression
          lastKey := some .backspace }
  | backspace (hdisplay : d.display ≠ []) (hawaiting : d.awaitingOperand = false) :
      Edit d .backspace
        { display := d.display.dropLast
          expression := d.expression.dropLast
          lastKey := some .backspace }

theorem edit_of_typeDigit {d d' : Draft} {value : Nat} (h : d.typeDigit value = some d') :
    d.Edit (.digit value) d' := by
  rw [typeDigit] at h
  split at h
  · cases h
  rename_i hvalue
  split at h
  · cases h
  rw [← eq_of_accept h]
  have hvalue : value < 10 := by omega
  cases hawaiting : d.awaitingOperand with
  | true => simpa [beginsOperand, hawaiting] using Edit.digitBehindOperator hvalue hawaiting
  | false =>
    by_cases hresult : d.justComputed = true ∨ d.lastKey = some .equals
    · have hbegins : d.beginsOperand = true := by
        rcases hresult with hresult | hresult <;> simp [beginsOperand, hresult]
      simpa [hbegins, hresult] using Edit.digitForResult hvalue hawaiting hresult
    · have hcomputed : d.justComputed = false := by simpa using (not_or.mp hresult).1
      by_cases hzero : d.display = ['0']
      · simpa [beginsOperand, hzero, hresult] using Edit.digitForZero hvalue hawaiting hcomputed hzero
      · have hbegins : d.beginsOperand = false := by
          simp [beginsOperand, hawaiting, hzero, hcomputed, (not_or.mp hresult).2]
        simpa [hbegins, hzero, hresult] using Edit.digit hvalue hbegins

theorem edit_of_typePoint {d d' : Draft} (h : d.typePoint = some d') : d.Edit .point d' := by
  rw [typePoint] at h
  split at h
  · rename_i hfresh
    have hfresh : d.justComputed = true ∨ d.awaitingOperand = true := by simpa using hfresh
    rw [← eq_of_accept h]
    by_cases hglued : d.expression.isEmpty || d.lastKey = some .equals
        || d.expression.getLast?.any isBlank
    · simpa only [hglued, if_true] using Edit.pointFirst hfresh
    · have happart : d.expression ≠ [] ∧ d.expression.getLast?.any isBlank = false := by
        simp only [Bool.or_eq_true, not_or, Bool.not_eq_true, List.isEmpty_eq_false_iff] at hglued
        exact ⟨hglued.1.1, hglued.2⟩
      simpa only [hglued, Bool.false_eq_true, if_false] using Edit.pointApart hfresh happart.1 happart.2
  · rename_i hfresh
    have hfresh : d.justComputed = false ∧ d.awaitingOperand = false := by simpa using hfresh
    split at h
    · cases h
    · rename_i hpoint
      rw [← eq_of_accept h]
      exact .point hfresh.2 hfresh.1 hpoint

theorem edit_of_typeOperator {d d' : Draft} {o : BinaryOp} (h : d.typeOperator o = some d') :
    d.Edit (.op o) d' := by
  rw [← eq_of_accept h]
  cases hoperator : d.expression.endsWithOperator with
  | true => simpa [hoperator] using Edit.operatorForOperator o hoperator
  | false =>
    by_cases hempty : d.expression = []
    · simpa [hoperator, hempty] using Edit.operatorBehindDisplay o hempty
    · simpa [hoperator, hempty] using Edit.operator o hempty hoperator

theorem edit_of_typePercent {d d' : Draft} (h : d.typePercent = some d') : d.Edit .percent d' := by
  rw [← eq_of_accept h]
  by_cases hmissing : d.expression = [] ∨ d.expression.endsWithOperator = true
  · have hoperand : (d.expression.isEmpty || d.expression.endsWithOperator) = true := by
      simpa using hmissing
    simpa only [hoperand, if_true] using Edit.percentOfDisplay hmissing
  · have hoperand : (d.expression.isEmpty || d.expression.endsWithOperator) = false := by
      simpa using hmissing
    obtain ⟨hempty, hoperator⟩ := not_or.mp hmissing
    simpa [hoperand] using Edit.percent hempty (by simpa using hoperator)

theorem edit_of_backspace {d d' : Draft} (h : d.backspace = some d') : d.Edit .backspace d' := by
  rw [backspace] at h
  split at h
  · cases h
  rename_i hdisplay
  have hdisplay : d.display ≠ [] := by simpa using hdisplay
  rw [← eq_of_accept h]
  cases hawaiting : d.awaitingOperand with
  | true => exact .backspaceBehindOperator hdisplay hawaiting
  | false => exact .backspace hdisplay hawaiting

theorem edit_of_typeKey {d d' : Draft} {key : Key} (h : d.typeKey key = some d') : d.Edit key d' := by
  cases key with
  | digit value => exact edit_of_typeDigit h
  | point => exact edit_of_typePoint h
  | op o => exact edit_of_typeOperator h
  | percent => exact edit_of_typePercent h
  | backspace => exact edit_of_backspace h
  | equals => cases h
  | clearEntry => cases h
  | clearAll => cases h

theorem accept_of_typeKey {d d' : Draft} {key : Key} (h : d.typeKey key = some d') :
    d.accept d' = some d' := by
  cases key with
  | digit value =>
    rw [typeKey, typeDigit] at h
    split at h
    · cases h
    · split at h
      · cases h
      · exact accept_self h
  | point =>
    rw [typeKey, typePoint] at h
    split at h
    · exact accept_self h
    · split at h
      · cases h
      · exact accept_self h
  | op o => exact accept_self h
  | percent => exact accept_self h
  | backspace =>
    rw [typeKey, backspace] at h
    split at h
    · cases h
    · exact accept_self h
  | equals => cases h
  | clearEntry => cases h
  | clearAll => cases h

/-- The display and the expression are asked for the same, but each has a limit of its own. -/
theorem mayReplace_iff {limit : Nat} {old new : Text} :
    mayReplace (fun s => decide (s.length ≤ limit) && !s.hasForbidden) old new = true ↔
      new.length ≤ max limit old.length ∧ new.IsHarmless := by
  rw [← Text.hasForbidden_eq_false_iff]
  simp only [mayReplace, Bool.or_eq_true, Bool.and_eq_true, decide_eq_true_eq, Bool.not_eq_true', le_max_iff]
  tauto

/-- A text that an accepted key has made longer is within its limit, and none has a forbidden word. -/
theorem limits_of_typeKey {d d' : Draft} {key : Key} (h : d.typeKey key = some d') :
    (d'.display.length ≤ max displayLimit d.display.length ∧ d'.display.IsHarmless) ∧
      d'.expression.length ≤ max expressionLimit d.expression.length ∧ d'.expression.IsHarmless := by
  have haccept := accept_of_typeKey h
  unfold accept at haccept
  split at haccept
  · rename_i hboth
    obtain ⟨hdisplay, hexpression⟩ := Bool.and_eq_true_iff.mp hboth
    exact ⟨mayReplace_iff.mp hdisplay, mayReplace_iff.mp hexpression⟩
  · cases haccept

end Draft

namespace Session

/-- What an event can do to the draft: nothing, an edit by a key, a clearing, or the result of a
calculation. -/
inductive Change (s : Session) : Event → Draft → Prop
  | kept (e : Event) : Change s e s.draft
  | typed {key : Key} {d : Draft} (now : Time) (hcalculating : s.isCalculating = false)
      (h : s.draft.typeKey key = some d) : Change s (.press key now) d
  | entryCleared (now : Time) : Change s (.press .clearEntry now) s.draft.clearEntry
  | allCleared (now : Time) : Change s (.press .clearAll now) {}
  | computed (now : Time) {v : Rat} (h : s.draft.calculate = .ok (some (Draft.shown v))) :
      Change s (.advance now) (Draft.afterResult (Draft.shown v))

theorem calculation_eq_idle {s : Session} (h : s.isCalculating = false) : s.calculation = .idle := by
  rw [isCalculating, Timer.isScheduled, Option.isSome_eq_false_iff, Option.isNone_iff_eq_none] at h
  exact congrArg Timer.mk h

/-- A key that neither clears nor asks for a calculation edits the draft, if nothing is pending. -/
theorem press_eq_edit {s : Session} {key : Key} (hidle : s.isCalculating = false)
    (hclearing : key.isClearing = false) (hequals : key ≠ .equals) (now : Time) :
    s.press key now = s.dismissError.edit (s.draft.typeKey key) := by
  have htransition := s.transition_press key now
  generalize s.press key now = s' at htransition ⊢
  cases htransition with
  | ignored _ _ hpending =>
    rw [hidle] at hpending
    cases hpending
  | edited => rfl
  | entryCleared => cases hclearing
  | allCleared => cases hclearing
  | asked => exact absurd rfl hequals

theorem press_of_typeKey {s : Session} (hidle : s.calculation = .idle) {key : Key} {d : Draft}
    (h : s.draft.typeKey key = some d) (now : Time) :
    s.press key now = { s.dismissError with draft := d } := by
  have hcalculating : s.isCalculating = false := by
    rw [isCalculating, hidle]
    rfl
  obtain ⟨hclearing, hequals⟩ : key.isClearing = false ∧ key ≠ .equals := by
    cases key with
    | equals => cases h
    | clearEntry => cases h
    | clearAll => cases h
    | _ => exact ⟨rfl, nofun⟩
  rw [press_eq_edit hcalculating hclearing hequals, h]
  rfl

theorem change_step (s : Session) (e : Event) : s.Change e (s.step e).draft := by
  have htransition := s.transition_step e
  generalize s.step e = s' at htransition ⊢
  cases htransition with
  | edited key now hidle =>
    cases hkey : s.draft.typeKey key with
    | none => exact .kept _
    | some d => exact .typed now hidle hkey
  | entryCleared now => exact .entryCleared now
  | allCleared now => exact .allCleared now
  | waited now =>
    rw [draft_expire]
    exact .kept _
  | blank now =>
    rw [draft_expire]
    exact .kept _
  | committed now _ hvalue =>
    rw [draft_expire]
    exact .computed now (Draft.calculate_of_value hvalue)
  | failed now =>
    rw [draft_expire]
    exact .kept _
  | _ => exact .kept _

/-- `Q` holds of every event of the run, in the session that the event meets. -/
def Along (Q : Session → Event → Prop) (s : Session) : List Event → Prop
  | [] => True
  | e :: events => Q s e ∧ (s.step e).Along Q events

instance decidableAlong (Q : Session → Event → Prop) [∀ s e, Decidable (Q s e)] (s : Session) :
    (events : List Event) → Decidable (s.Along Q events)
  | [] => .isTrue trivial
  | e :: events =>
    have := decidableAlong Q (s.step e) events
    inferInstanceAs (Decidable (Q s e ∧ (s.step e).Along Q events))

theorem along_append {Q : Session → Event → Prop} {s : Session} {first second : List Event} :
    s.Along Q (first ++ second) ↔ s.Along Q first ∧ (s.run first).Along Q second := by
  induction first generalizing s with
  | nil => exact (and_iff_right trivial).symm
  | cons e first ih =>
    rw [List.cons_append, Along, Along, ih, and_assoc]
    rfl

/-- What every step keeps that meets `Q` is kept by a run all of whose steps meet `Q`. -/
theorem run_of_step_along {Q : Session → Event → Prop} {P : Session → Prop} {events : List Event}
    (hstep : ∀ s, ∀ e ∈ events, P s → Q s e → P (s.step e)) {s : Session} (hs : P s)
    (hevents : s.Along Q events) : P (s.run events) := by
  induction events generalizing s with
  | nil => exact hs
  | cons e events ih =>
    exact ih (fun s a ha => hstep s a (List.mem_cons_of_mem _ ha))
      (hstep s e List.mem_cons_self hs hevents.1) hevents.2

/-- What every step keeps that meets `Q`, in whatever session a run has reached, is kept by a run all of
whose steps meet `Q`. -/
theorem run_of_along {Q : Session → Event → Prop} {P : Session → Prop} {p : Parameters}
    {events : List Event} (hnew : P (new p))
    (hstep : ∀ before, ∀ e ∈ events, P ((new p).run before) → Q ((new p).run before) e →
      P (((new p).run before).step e))
    (hevents : (new p).Along Q events) : P ((new p).run events) := by
  refine (run_of_step_along (P := fun s => (∃ before, s = (new p).run before) ∧ P s) ?_
    ⟨⟨[], rfl⟩, hnew⟩ hevents).2
  rintro _ e he ⟨⟨before, rfl⟩, hbefore⟩ hkept
  refine ⟨⟨before ++ [e], ?_⟩, hstep before e he hbefore hkept⟩
  rw [run_append]
  rfl

/-- A property of drafts that the edits, the clearing of an entry and every result keep holds in each
session that began as a new one. -/
theorem draft_run {P : Draft → Prop} (hnew : P {})
    (hedit : ∀ {d d' key}, P d → d.typeKey key = some d' → P d')
    (hclear : ∀ {d}, P d → P d.clearEntry) (hresult : ∀ v, P (Draft.afterResult (Draft.shown v)))
    (p : Parameters) (events : List Event) : P ((new p).run events).draft := by
  have hstep (s : Session) (e : Event) (hs : P s.draft) : P (s.step e).draft := by
    have hchange := s.change_step e
    generalize (s.step e).draft = d at hchange
    cases hchange with
    | kept => exact hs
    | typed now hcalculating h => exact hedit hs h
    | entryCleared now => exact hclear hs
    | allCleared now => exact hnew
    | computed now h => exact hresult _
  exact run_of_step (P := fun s => P s.draft) (fun s e _ => hstep s e) hnew

end Session
end KeypadCalc
