import KeypadCalc.Proofs.ReachedDraft

/-!
# The operand on the display

While an operand is typed, the display and the end of the expression are the same number. Every key but
the percent sign keeps them so, with one exception: backspace also shortens a display that is not
the operand being typed, the left operand of the operator just typed or a result. What remains of it is
then taken for the beginning of an operand that the expression does not have.
-/
namespace KeypadCalc

namespace Draft

/-- The longest suffix made of digits and points. -/
def lastNumeral (s : Text) : Text :=
  s.rtakeWhile Token.isNumeral

theorem lastNumeral_append (s : Text) {run : Text} (h : ∀ c ∈ run, Token.isNumeral c = true) :
    lastNumeral (s ++ run) = lastNumeral s ++ run := by
  induction run using List.reverseRecOn with
  | nil => simp
  | append_singleton run c ih =>
    have hc : Token.isNumeral c = true := h c (by simp)
    rw [← List.append_assoc, lastNumeral, List.rtakeWhile_concat_pos _ _ _ hc, ← List.append_assoc]
    exact congrArg (· ++ [c]) (ih fun a ha => h a (List.mem_append_left _ ha))

theorem lastNumeral_concat (front : Text) {c : Char} (hc : Token.isNumeral c = false) :
    lastNumeral (front ++ [c]) = [] :=
  List.rtakeWhile_concat_neg _ _ _ (by simp [hc])

theorem lastNumeral_dropNumeral (s : Text) : lastNumeral (dropNumeral s) = [] :=
  List.rtakeWhile_eq_nil_iff.mpr fun hne => List.rdropWhile_last_not Token.isNumeral s hne

theorem lastNumeral_dropLast {s : Text} (h : lastNumeral s ≠ []) :
    lastNumeral s.dropLast = (lastNumeral s).dropLast := by
  rcases List.eq_nil_or_concat' s with rfl | ⟨front, c, rfl⟩
  · rfl
  · cases hc : Token.isNumeral c with
    | false => exact absurd (lastNumeral_concat front hc) h
    | true =>
      have hrun : ∀ a ∈ [c], Token.isNumeral a = true := by simpa using hc
      rw [lastNumeral_append front hrun, List.dropLast_concat, List.dropLast_concat]

/-- A zero that is the whole last number is taken away with nothing of a number left. -/
theorem lastNumeral_dropZero {s : Text} (h : lastNumeral s = ['0']) : lastNumeral (dropZero s) = [] := by
  have hlast : s.getLast? = some '0' := by
    obtain ⟨front, hfront⟩ := List.rtakeWhile_suffix Token.isNumeral s
    rw [← hfront, show s.rtakeWhile Token.isNumeral = ['0'] from h, List.getLast?_concat]
  rw [dropZero, if_pos hlast, lastNumeral_dropLast (by simp [h]), h]
  rfl

theorem dropLast_eq_nil {s : Text} (h : s.length ≤ 1) : s.dropLast = [] := by
  apply List.eq_nil_of_length_eq_zero
  rw [List.length_dropLast]
  omega

/-- The display shows the operand at the end of the expression, once it has begun. -/
def InStep (d : Draft) : Prop :=
  d.awaitingOperand = false → d.justComputed = false → d.display = lastNumeral d.expression

/-- Before an operand has begun the expression does not end with a number. -/
theorem Coherent.lastNumeral_eq_nil {d : Draft} (h : d.Coherent)
    (hfresh : d.awaitingOperand = true ∨ d.justComputed = true) : lastNumeral d.expression = [] := by
  rcases hfresh with hawaiting | hcomputed
  · obtain ⟨-, front, o, hexpression, -⟩ := h.awaiting hawaiting
    have hend : front ++ [' ', o.glyph, ' '] = front ++ [' ', o.glyph] ++ [' '] := by simp
    rw [hexpression, hend]
    exact lastNumeral_concat _ (by decide)
  · rw [h.equals (h.computed hcomputed).2]
    rfl

/-- Backspace before an operand has begun shortens the display, and the expression still does not end
with a number. -/
theorem Edit.backspace_of_fresh {d d' : Draft} (h : d.Edit .backspace d') (hd : d.Coherent)
    (hfresh : d.awaitingOperand = true ∨ d.justComputed = true) :
    d'.display = d.display.dropLast ∧ lastNumeral d'.expression = [] ∧ d'.awaitingOperand = false ∧
      d'.justComputed = false ∧ d'.lastKey = some .backspace := by
  have hnone := hd.lastNumeral_eq_nil hfresh
  cases h with
  | backspaceBehindOperator =>
    refine ⟨rfl, ?_, rfl, rfl, rfl⟩
    dsimp only
    split
    · exact lastNumeral_dropNumeral _
    · exact hnone
  | backspace _ hawaiting =>
    have hcomputed : d.justComputed = true := by simpa [hawaiting] using hfresh
    refine ⟨rfl, ?_, rfl, rfl, rfl⟩
    dsimp only
    rw [hd.equals (hd.computed hcomputed).2]
    rfl

theorem Edit.inStep {d d' : Draft} {key : Key} (h : d.Edit key d') (hd : d.Coherent) (hstep : d.InStep)
    (hpercent : key ≠ .percent)
    (hattached : key = .backspace → d.awaitingOperand = true ∨ d.justComputed = true →
      d.display.length ≤ 1) : d'.InStep := by
  have hdigit {value : Nat} (hvalue : value < 10) : ∀ c ∈ [value.digitChar], Token.isNumeral c = true :=
    fun c hc => List.mem_singleton.mp hc ▸ isNumeral_digitChar hvalue
  have hzero : ∀ c ∈ ['0', '.'], Token.isNumeral c = true := List.all_eq_true.mp rfl
  have hpoint : ∀ c ∈ ['.'], Token.isNumeral c = true := List.all_eq_true.mp rfl
  cases h with
  | digitBehindOperator hvalue hawaiting =>
    intro _ _
    dsimp only
    rw [lastNumeral_append _ (hdigit hvalue), hd.lastNumeral_eq_nil (.inl hawaiting), List.nil_append]
  | digitForResult hvalue =>
    intro _ _
    exact (lastNumeral_append [] (hdigit hvalue)).symm
  | digitForZero hvalue hawaiting hcomputed hdisplay =>
    intro _ _
    have hlast : lastNumeral d.expression = ['0'] := by rw [← hstep hawaiting hcomputed, hdisplay]
    dsimp only
    rw [lastNumeral_append _ (hdigit hvalue), lastNumeral_dropZero hlast, List.nil_append]
  | digit hvalue hbegins =>
    intro _ _
    simp only [beginsOperand, Bool.or_eq_false_iff] at hbegins
    dsimp only
    rw [lastNumeral_append _ (hdigit hvalue), hstep hbegins.2 hbegins.1.2]
  | pointFirst hfresh =>
    intro _ _
    dsimp only
    rw [lastNumeral_append _ hzero, hd.lastNumeral_eq_nil hfresh.symm, List.nil_append]
  | pointApart =>
    intro _ _
    have hgap : lastNumeral (d.expression ++ [' ']) = [] := lastNumeral_concat _ (by decide)
    have happart : d.expression ++ [' ', '0', '.'] = d.expression ++ [' '] ++ ['0', '.'] := by simp
    dsimp only
    rw [happart, lastNumeral_append _ hzero, hgap, List.nil_append]
  | point hawaiting hcomputed =>
    intro _ _
    dsimp only
    rw [lastNumeral_append _ hpoint, hstep hawaiting hcomputed]
  | operatorForOperator =>
    intro hawaiting
    cases hawaiting
  | operatorBehindDisplay =>
    intro hawaiting
    cases hawaiting
  | operator =>
    intro hawaiting
    cases hawaiting
  | percentOfDisplay => exact absurd rfl hpercent
  | percent => exact absurd rfl hpercent
  | backspaceBehindOperator hdisplay hawaiting =>
    intro _ _
    have hedit := Edit.backspaceBehindOperator hdisplay hawaiting
    obtain ⟨hshort, hnone, -⟩ := hedit.backspace_of_fresh hd (.inl hawaiting)
    rw [hnone, hshort]
    exact dropLast_eq_nil (hattached rfl (.inl hawaiting))
  | backspace hdisplay hawaiting =>
    intro _ _
    have hedit := Edit.backspace hdisplay hawaiting
    cases hcomputed : d.justComputed with
    | true =>
      obtain ⟨hshort, hnone, -⟩ := hedit.backspace_of_fresh hd (.inr hcomputed)
      rw [hnone, hshort]
      exact dropLast_eq_nil (hattached rfl (.inr hcomputed))
    | false =>
      have hshown := hstep hawaiting hcomputed
      have hne : lastNumeral d.expression ≠ [] := hshown ▸ hdisplay
      dsimp only
      rw [lastNumeral_dropLast hne, hshown]

/-- Behind what backspace has left of a display that was no operand, a digit or a point makes the display
longer than the operand; only a zero that is left alone is replaced by a digit. -/
theorem Edit.display_ne_lastNumeral {d d' : Draft} {key : Key} (h : d.Edit key d')
    (hkey : key.writesNumeral = true) (hzero : d.display ≠ ['0'] ∨ key = .point) (hne : d.display ≠ [])
    (hnone : lastNumeral d.expression = []) (hawaiting : d.awaitingOperand = false)
    (hcomputed : d.justComputed = false) (hequals : d.lastKey ≠ some .equals) :
    d'.display ≠ lastNumeral d'.expression := by
  have hlonger {c : Char} (hc : Token.isNumeral c = true) :
      d.display ++ [c] ≠ lastNumeral (d.expression ++ [c]) := by
    have hrun : ∀ a ∈ [c], Token.isNumeral a = true := by simpa using hc
    rw [lastNumeral_append _ hrun, hnone]
    simpa using hne
  cases h with
  | digitBehindOperator _ h =>
    rw [hawaiting] at h
    cases h
  | digitForResult _ _ h =>
    rw [hcomputed] at h
    exact absurd (h.resolve_left nofun) hequals
  | digitForZero _ _ _ h => exact absurd h (hzero.resolve_right nofun)
  | digit hvalue => exact hlonger (isNumeral_digitChar hvalue)
  | pointFirst h => simp [hawaiting, hcomputed] at h
  | pointApart h => simp [hawaiting, hcomputed] at h
  | point => exact hlonger rfl
  | _ => cases hkey

end Draft

namespace Session

/-- Whether the event shortens a display of several characters that is not the operand being typed: a
result, or the left operand of the operator just typed. -/
def detaches (s : Session) : Event → Bool
  | .press .backspace _ =>
    !s.isCalculating && (s.draft.awaitingOperand || s.draft.justComputed)
      && decide (1 < s.draft.display.length)
  | _ => false

theorem inStep_step {s : Session} {e : Event} (hcoherent : s.draft.Coherent) (hstep : s.draft.InStep)
    (hpercent : ∀ now, e ≠ .press .percent now) (hattached : s.detaches e = false) :
    (s.step e).draft.InStep := by
  have hchange := s.change_step e
  generalize (s.step e).draft = d at hchange ⊢
  cases hchange with
  | kept => exact hstep
  | typed now hcalculating hkey =>
    refine (Draft.edit_of_typeKey hkey).inStep hcoherent hstep (fun hp => hpercent now (by rw [hp])) ?_
    rintro rfl hfresh
    have hboth : (s.draft.awaitingOperand || s.draft.justComputed) = true := by simpa using hfresh
    simpa [detaches, hcalculating, hboth] using hattached
  | entryCleared => exact fun _ _ => (Draft.lastNumeral_dropNumeral _).symm
  | allCleared => exact fun _ _ => rfl
  | computed => exact nofun

/-- As long as backspace is kept to the operand being typed, and without percent signs, the display shows
the longest suffix of the expression that is made of digits and points whenever a digit or a point was
typed last. The first backspace that is not leaves a display that the next digit or point continues, and
the expression does not have that operand. -/
theorem display_eq_lastNumeral (p : Parameters) (events : List Event)
    (hpercent : ∀ e ∈ events, ∀ now, e ≠ .press .percent now)
    (hattached : (new p).Along (fun s e => s.detaches e = false) events) :
    let s := (new p).run events
    (s.draft.lastKey.any Key.writesNumeral = true →
        s.draft.display = Draft.lastNumeral s.draft.expression) ∧
      ∀ (key : Key) (t u : Time), s.detaches (.press .backspace t) = true →
        key.writesNumeral = true → s.draft.display.dropLast ≠ ['0'] ∨ key = .point →
        let s' := (s.press .backspace t).press key u
        s'.draft.lastKey = some key → s'.draft.display ≠ Draft.lastNumeral s'.draft.expression := by
  intro s
  have hcoherent : s.draft.Coherent := coherent_run p events
  have hstep : s.draft.InStep := by
    refine run_of_along (P := fun s => s.draft.InStep) (fun _ _ => rfl) ?_ hattached
    exact fun before e he h hdetaches => inStep_step (coherent_run p before) h (hpercent e he) hdetaches
  constructor
  · intro hkey
    apply hstep
    · by_contra hawaiting
      obtain ⟨-, _, o, -, hlast⟩ := hcoherent.awaiting (by simpa using hawaiting)
      rw [hlast] at hkey
      cases hkey
    · by_contra hcomputed
      rw [(hcoherent.computed (by simpa using hcomputed)).2] at hkey
      cases hkey
  · intro key t u hdetaches hkey hzero s' hlast
    simp only [detaches, Bool.and_eq_true, Bool.not_eq_true', Bool.or_eq_true, decide_eq_true_eq]
      at hdetaches
    obtain ⟨⟨hcalculating, hfresh⟩, hlong⟩ := hdetaches
    obtain ⟨hdisplay, hexpression⟩ : s.draft.display.IsSpelled ∧ s.draft.expression.IsSpelled :=
      isSpelled_run p events
    have hshown : s.draft.display ≠ [] := List.length_pos_iff.mp (Nat.lt_trans Nat.one_pos hlong)
    obtain ⟨d, hbackspace, hedit⟩ :=
      exists_edit_backspace hdisplay hexpression hshown hcalculating hkey hlast
    obtain ⟨hshort, hnone, hawaiting, hcomputed, hlastKey⟩ :=
      hbackspace.backspace_of_fresh hcoherent hfresh
    have hne : d.display ≠ [] := by
      rw [← List.length_pos_iff, hshort, List.length_dropLast]
      omega
    exact hedit.display_ne_lastNumeral hkey (by rwa [hshort]) hne hnone hawaiting hcomputed
      (by simp [hlastKey])

/-- After `12 + 34` the display shows `34`; after `12 +` a backspace and a `3` leave `13` on the display,
while the expression ends with `3`. -/
theorem display_of_twelve_plus :
    let typed : List Event := [.digit 1, .digit 2, .op .add].map fun key => .press key 0
    let operand : List Event := [.digit 3, .digit 4].map fun key => .press key 0
    (∀ e ∈ typed ++ operand, ∀ now, e ≠ .press .percent now) ∧
      (new {}).Along (fun s e => s.detaches e = false) (typed ++ operand) ∧
      ((new {}).run (typed ++ operand)).draft.display =
        Draft.lastNumeral ((new {}).run (typed ++ operand)).draft.expression ∧
      (((((new {}).run typed).press .backspace 0).press (.digit 3) 0).draft.display ≠
        Draft.lastNumeral
          ((((new {}).run typed).press .backspace 0).press (.digit 3) 0).draft.expression) := by
  intro typed operand
  have hpercent : ∀ e ∈ typed ++ operand, ∀ now, e ≠ .press .percent now := by
    simp [typed, operand]
  have hattached : (new {}).Along (fun s e => s.detaches e = false) (typed ++ operand) := by decide
  have htyped : (new {}).Along (fun s e => s.detaches e = false) typed := by decide
  refine ⟨hpercent, hattached, ?_, ?_⟩
  · exact (display_eq_lastNumeral {} _ hpercent hattached).1 (by decide)
  · exact (display_eq_lastNumeral {} typed (fun e he => hpercent e (List.mem_append_left _ he)) htyped).2
      (.digit 3) 0 0 (by decide) rfl (.inl (by decide)) (by decide)

/-- The display is not always the operand: a backspace shortens the result `12` to `1`, and a `3` behind
it is the whole expression, while the display shows `13`. -/
theorem not_display_eq_lastNumeral :
    ¬ ∀ (p : Parameters) (events : List Event), (∀ e ∈ events, ∀ now, e ≠ .press .percent now) →
      ((new p).run events).draft.lastKey.any Key.writesNumeral = true →
      ((new p).run events).draft.display =
        Draft.lastNumeral ((new p).run events).draft.expression := by
  intro h
  have hdisplay := h {} [.press (.digit 1) 0, .press (.digit 2) 0, .press .equals 0,
    .advance (Time.ofMillis 50), .press .backspace (Time.ofMillis 60),
    .press (.digit 3) (Time.ofMillis 60)] (by simp) (by decide +kernel)
  exact absurd hdisplay (by decide +kernel)

end Session
end KeypadCalc
