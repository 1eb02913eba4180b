import KeypadCalc.Proofs.ReachedDraft

/-!
# A key is accepted or refused as a whole

The keys that type compute both texts of the draft before they are checked, and each of them sets marks of
its own. Whatever was in the draft before, a refused key leaves all of it as it is, and an accepted one
leaves the marks of that key and two texts within their limits. Of the rest of the session only the error
changes: it is dismissed either way.
-/
namespace KeypadCalc

namespace Draft

/-- What an accepted key leaves: its own marks, and two texts that are within their limits or have not
become longer, without markup or a forbidden word. -/
structure Accepts (d : Draft) (key : Key) (d' : Draft) : Prop where
  lastKey_eq : d'.lastKey = some key
  not_computed : d'.justComputed = false
  awaiting_iff : d'.awaitingOperand = true ↔ ∃ o, key = .op o
  expression_length : d'.expression.length ≤ 50 ∨ d'.expression.length ≤ d.expression.length
  display_length : d'.display.length ≤ 15 ∨ d'.display.length ≤ d.display.length
  expression_harmless : d'.expression.IsHarmless
  display_harmless : d'.display.IsHarmless

theorem Edit.lastKey_eq {d d' : Draft} {key : Key} (h : d.Edit key d') : d'.lastKey = some key := by
  cases h <;> rfl

theorem Edit.awaiting_iff {d d' : Draft} {key : Key} (h : d.Edit key d') :
    d'.awaitingOperand = true ↔ ∃ o, key = .op o := by
  cases h with
  | operatorForOperator o => exact iff_of_true rfl ⟨o, rfl⟩
  | operatorBehindDisplay o => exact iff_of_true rfl ⟨o, rfl⟩
  | operator o => exact iff_of_true rfl ⟨o, rfl⟩
  | _ => exact iff_of_false Bool.false_ne_true nofun

theorem accepts_of_typeKey {d d' : Draft} {key : Key} (h : d.typeKey key = some d') :
    d.Accepts key d' := by
  have hedit := edit_of_typeKey h
  obtain ⟨⟨hdisplay, hshown⟩, hexpression, htyped⟩ := limits_of_typeKey h
  exact ⟨hedit.lastKey_eq, hedit.not_computed, hedit.awaiting_iff, le_max_iff.mp hexpression,
    le_max_iff.mp hdisplay, htyped, hshown⟩

end Draft

namespace Session

/-- In any session without a pending calculation, a key that types is refused, and the draft is as before, or
it is accepted as a whole. Either way the error is dismissed, and nothing else of the session changes. -/
theorem press_accepts_or_keeps (s : Session) (key : Key) (now : Time) (hidle : s.isCalculating = false)
    (hclearing : key.isClearing = false) (hequals : key ≠ .equals) :
    let s' := s.press key now
    (s'.draft = s.draft ∨ s.draft.Accepts key s'.draft) ∧
      s' = { s with draft := s'.draft, error := none, errorExpiry := .idle } := by
  intro s'
  have hpress : s' = s.dismissError.edit (s.draft.typeKey key) := press_eq_edit hidle hclearing hequals now
  rw [hpress]
  cases hkey : s.draft.typeKey key with
  | none => exact ⟨.inl rfl, rfl⟩
  | some d => exact ⟨.inr (Draft.accepts_of_typeKey hkey), rfl⟩

/-- A session that no run reaches, with 52 characters in the expression and a full display: a digit is
refused, and the key for backspace is accepted, since it makes both texts shorter. -/
theorem press_on_full_display :
    let s : Session :=
      { Session.new {} with
        draft := { expression := List.replicate 52 '7', display := List.replicate 15 '8', justComputed := true }
        error := some "Invalid expression".toList }
    (s.isCalculating = false ∧ Key.isClearing (.digit 1) = false ∧ Key.isClearing .backspace = false) ∧
      (s.press (.digit 1) 0).draft = s.draft ∧ (s.press (.digit 1) 0).error = none ∧
      (s.press .backspace 0).draft.expression.length = 51 ∧
      s.draft.Accepts .backspace (s.press .backspace 0).draft := by
  intro s
  have hidle : s.isCalculating = false := by decide
  obtain ⟨-, hrest⟩ := press_accepts_or_keeps s (.digit 1) 0 hidle rfl nofun
  obtain ⟨hbackspace, -⟩ := press_accepts_or_keeps s .backspace 0 hidle rfl nofun
  refine ⟨⟨hidle, rfl, rfl⟩, by decide, by rw [hrest], by decide, ?_⟩
  exact hbackspace.resolve_left (by decide)

end Session
end KeypadCalc
