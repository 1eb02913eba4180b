import KeypadCalc.Proofs.ReachedDraft

/-!
# Characters that an evaluation leaves out

An evaluation begins by leaving out every character that no expression contains, and it does not say so.
No key writes such a character. A result beyond the range of the display does: the infinity sign stands
for it there, an operator carries the sign over into the expression, and what is evaluated is the rest.
So the text is evaluated as it is as long as no calculation shows infinity, and the sign is the only
character that is ever left out.
-/
namespace KeypadCalc

namespace Text

/-- Of what keys and results write, only the infinity sign is left out. -/
theorem IsSpelled.admitted {s : Text} (hs : s.IsSpelled) : s.admitted = s.filter (· ≠ '∞') := by
  refine List.filter_congr fun c hc => ?_
  rcases hs c hc with h | rfl
  · have hc : c ≠ '∞' := by
      rintro rfl
      cases h
    simp [h, hc]
  · rfl

theorem IsSpelled.admitted_eq_self_iff {s : Text} (hs : s.IsSpelled) :
    s.admitted = s ↔ '∞' ∉ s := by
  rw [hs.admitted, List.filter_eq_self]
  simp only [decide_eq_true_eq]
  exact ⟨fun h hmem => h _ hmem rfl, fun h c hc he => h (he ▸ hc)⟩

theorem IsSpelled.compact {s : Text} (hs : s.IsSpelled) : IsSpelled s.compact := fun c hc =>
  hs c (List.mem_of_mem_filter hc)

theorem admitted_admitted (s : Text) : s.admitted.admitted = s.admitted :=
  admitted_eq_self (isAdmitted_admitted s)

theorem IsAdmitted.infinity_not_mem {s : Text} (hs : s.IsAdmitted) : '∞' ∉ s := fun h =>
  absurd (hs _ h) (by decide)

end Text

/-- A text is evaluated as if the characters that no expression contains were not there. -/
theorem Expression.result_admitted (s : Text) : result s.admitted = result s := by
  rw [result, result, value, value, Text.admitted_admitted]

namespace Draft

/-- Neither the display nor the expression has an infinity sign. -/
def IsFinite (d : Draft) : Prop :=
  '∞' ∉ d.display ∧ '∞' ∉ d.expression

theorem mem_toEvaluate {d : Draft} {c : Char} (h : c ∈ d.toEvaluate) :
    c ∈ d.display ∨ c ∈ d.expression := by
  unfold toEvaluate at h
  split at h
  · exact (List.mem_append.mp h).symm
  · split at h
    · exact .inl h
    · exact .inr h

theorem Edit.isFinite {d d' : Draft} {key : Key} (h : d.Edit key d') (hd : d.IsFinite) : d'.IsFinite := by
  obtain ⟨hdisplay, hexpression⟩ := hd
  constructor
  · intro hmem
    have hrun {run : Text} (hrun : ∀ c ∈ run, Token.isNumeral c = true) : '∞' ∉ run := fun h =>
      absurd (hrun _ h) (by decide)
    rcases h.display_cases with h | h | ⟨run, hnumeral, h | h⟩
    · rw [h] at hmem
      exact hdisplay hmem
    · rw [h] at hmem
      exact hdisplay (List.dropLast_subset _ hmem)
    · rw [h] at hmem
      exact hrun hnumeral hmem
    · rw [h] at hmem
      exact (List.mem_append.mp hmem).elim hdisplay (hrun hnumeral)
  · intro hmem
    rcases h.mem_expression hmem with h | h | h
    · exact hexpression h
    · exact hdisplay h
    · cases h

theorem isFinite_afterResult {v : Rat} (h : shown v ≠ ['∞']) : (afterResult (shown v)).IsFinite := by
  obtain ⟨d, hd⟩ := exists_render_of_shown h
  refine ⟨?_, List.not_mem_nil⟩
  rw [hd]
  exact d.isAdmitted_render.infinity_not_mem

end Draft

namespace Session

theorem isFinite_step {s : Session} {e : Event} (h : s.draft.IsFinite)
    (hshown : (s.step e).draft.display ≠ ['∞']) : (s.step e).draft.IsFinite := by
  have hchange := s.change_step e
  generalize (s.step e).draft = d at hchange hshown ⊢
  cases hchange with
  | kept => exact h
  | typed _ _ hkey => exact (Draft.edit_of_typeKey hkey).isFinite h
  | entryCleared =>
    exact ⟨List.not_mem_nil, fun hmem => h.2 (Draft.mem_of_mem_dropNumeral hmem)⟩
  | allCleared => exact ⟨List.not_mem_nil, List.not_mem_nil⟩
  | computed => exact Draft.isFinite_afterResult hshown

/-- The text that is evaluated has only expression characters as long as nothing that is shown is
infinity. In every session the infinity sign is the only character that an evaluation leaves out of it,
and the result is that of the text without the sign. -/
theorem admitted_toEvaluate (p : Parameters) (events : List Event) :
    let text := ((new p).run events).draft.toEvaluate.compact
    ((new p).Along (fun s e => (s.step e).draft.display ≠ ['∞']) events → text.admitted = text) ∧
      (text.admitted = text ↔ '∞' ∉ text) ∧ text.admitted = text.filter (· ≠ '∞') ∧
      Expression.result text = Expression.result (text.filter (· ≠ '∞')) := by
  intro text
  obtain ⟨hdisplay, hexpression⟩ := isSpelled_run p events
  have hspelled : text.IsSpelled := by
    refine Text.IsSpelled.compact fun c hc => ?_
    exact (Draft.mem_toEvaluate hc).elim (hdisplay c) (hexpression c)
  refine ⟨fun hfinite => ?_, hspelled.admitted_eq_self_iff, hspelled.admitted, ?_⟩
  · rw [hspelled.admitted_eq_self_iff]
    intro hmem
    have hdraft : ((new p).run events).draft.IsFinite := by
      refine run_of_along (P := fun s => s.draft.IsFinite) ?_ (fun _ _ _ h hshown => ?_) hfinite
      · exact ⟨List.not_mem_nil, List.not_mem_nil⟩
      · exact isFinite_step h hshown
    exact (Draft.mem_toEvaluate (List.mem_of_mem_filter hmem)).elim hdraft.1 hdraft.2
  · rw [← hspelled.admitted, Expression.result_admitted]

/-- After `2 + 3 =` the result `5` is evaluated again as it stands. -/
theorem admitted_of_two_plus_three :
    let events : List Event := [.press (.digit 2) 0, .press (.op .add) 0, .press (.digit 3) 0,
      .press .equals 0, .advance (Time.ofMillis 50), .press (.op .mul) 60, .press (.digit 4) 60]
    let text := ((new {}).run events).draft.toEvaluate.compact
    (new {}).Along (fun s e => (s.step e).draft.display ≠ ['∞']) events ∧ text.admitted = text := by
  intro events text
  have hshown : (new {}).Along (fun s e => (s.step e).draft.display ≠ ['∞']) events := by
    decide +kernel
  exact ⟨hshown, (admitted_toEvaluate {} events).1 hshown⟩

/-- The keys of `100000000 x 100000000`, which shows infinity, and of `- 5` behind it. -/
def keysBehindInfinity : List Event :=
  let factor : List Key := .digit 1 :: List.replicate 8 (.digit 0)
  let product : List Key := factor ++ .op .mul :: factor ++ [.equals]
  let minusFive : List Key := [.op .sub, .digit 5, .equals]
  product.map (fun key => .press key 0) ++
    .advance (Time.ofMillis 50) :: minusFive.map fun key => .press key (Time.ofMillis 50)

/-- A result can come from a text with a character left out: what stands there is infinity minus five,
and `-5` is the result that is taken over. -/
theorem not_admitted_toEvaluate :
    ¬ ∀ (p : Parameters) (events : List Event) (now : Time) (shown : Text),
      ((new p).run events).calculation.isDue now = true →
      ((new p).run events).draft.calculate = .ok (some shown) →
      ((new p).run events).draft.toEvaluate.compact.admitted =
        ((new p).run events).draft.toEvaluate.compact := by
  intro h
  have hvalue : Expression.value ((new {}).run keysBehindInfinity).draft.toEvaluate.compact = .ok (-5) :=
    eq_ok_of_toOption (by decide +kernel)
  have hadmitted := h {} keysBehindInfinity (Time.ofMillis 100) _ (by decide +kernel)
    (Draft.calculate_of_value hvalue)
  exact absurd hadmitted (by decide +kernel)

end Session
end KeypadCalc
