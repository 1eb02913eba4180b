import KeypadCalc.Proofs.DenseTokens

/-!
# Percent signs behind numbers

The expansion of percent signs reads a text once and keeps the digits and points that it has read last until
it knows what follows them. What it computes is said here piece by piece: a maximal run of digits and points
with a percent sign behind it becomes a quotient, and everything else stays. The pieces of a text are
determined, so this describes one text, and in that text no percent sign follows a number any more; expanding
it again changes nothing.
-/
namespace KeypadCalc

namespace Text

/-- `Expands s t`: the text `t` is `s` with `(n/100)` for every maximal run `n` of digits and points that a
percent sign follows. No run can be continued to the left: what stands before it is a percent sign, another
character, or nothing. -/
inductive Expands : Text → Text → Prop
  | done : Expands [] []
  | percent {run rest expanded : Text} (hne : run ≠ []) (hrun : ∀ c ∈ run, Token.isNumeral c = true)
      (h : Expands rest expanded) :
      Expands (run ++ '%' :: rest) ("(".toList ++ run ++ "/100)".toList ++ expanded)
  | plain {run rest expanded : Text} (hne : run ≠ []) (hrun : ∀ c ∈ run, Token.isNumeral c = true)
      (hend : ∀ c ∈ rest.head?, Token.isNumeral c = false ∧ c ≠ '%') (h : Expands rest expanded) :
      Expands (run ++ rest) (run ++ expanded)
  | other {c : Char} {rest expanded : Text} (hc : Token.isNumeral c = false) (h : Expands rest expanded) :
      Expands (c :: rest) (c :: expanded)

theorem Expands.eq_expandPercents {s t : Text} (h : Expands s t) : t = expandPercents [] s := by
  induction h with
  | done => rfl
  | percent hne hrun _ ih => rw [ih, expandPercents_run_percent hne hrun]; rfl
  | plain _ hrun hend _ ih => rw [ih, expandPercents_run_plain hrun hend]
  | other hc _ ih => rw [ih, expandPercents_other hc]

/-- Every text is made of pieces. The induction is on the length, since a piece may have many characters. -/
theorem expands_expandPercents (s : Text) : Expands s (expandPercents [] s) := by
  induction hn : s.length using Nat.strongRecOn generalizing s with
  | ind n ih =>
    cases s with
    | nil => exact .done
    | cons c s =>
      rw [List.length_cons] at hn
      cases hc : Token.isNumeral c with
      | false =>
        rw [expandPercents_other hc]
        exact .other hc (ih s.length (by omega) s rfl)
      | true =>
        obtain ⟨run, rest, hsplit, hne, hrun, hrest⟩ := exists_run hc s
        have hlength : run.length + rest.length = n := by
          rw [← List.length_append, ← hsplit, List.length_cons, hn]
        have hpos := List.length_pos_iff.mpr hne
        rw [hsplit]
        by_cases hpercent : rest.head? = some '%'
        · obtain ⟨rest, rfl⟩ := List.head?_eq_some_iff.mp hpercent
          rw [List.length_cons] at hlength
          rw [expandPercents_run_percent hne hrun]
          exact .percent hne hrun (ih rest.length (by omega) rest rfl)
        · have hend : ∀ c ∈ rest.head?, Token.isNumeral c = false ∧ c ≠ '%' :=
            fun c hc => ⟨hrest c hc, fun h => hpercent (h ▸ hc)⟩
          rw [expandPercents_run_plain hrun hend]
          exact .plain hne hrun hend (ih rest.length (by omega) rest rfl)

theorem expands_iff {s t : Text} : Expands s t ↔ t = expandPercents [] s := by
  constructor
  · exact Expands.eq_expandPercents
  · rintro rfl
    exact expands_expandPercents s

/-- The only new characters are those of the quotients. -/
theorem Expands.mem_or {s t : Text} (h : Expands s t) {c : Char} (hc : c ∈ t) :
    c ∈ s ∨ c ∈ "(/100)".toList := by
  induction h with
  | done => cases hc
  | percent hne hrun _ ih =>
    simp only [List.mem_append, List.mem_cons] at hc ⊢
    rcases hc with ((hc | hc) | hc) | hc
    · exact .inr (by simp_all)
    · exact .inl (.inl hc)
    · exact .inr (by simp_all)
    · exact (ih hc).imp_left fun h => .inr (.inr h)
  | plain _ _ _ _ ih =>
    rcases List.mem_append.mp hc with hc | hc
    · exact .inl (List.mem_append_left _ hc)
    · exact (ih hc).imp_left (List.mem_append_right _)
  | other _ _ ih =>
    rcases List.mem_cons.mp hc with rfl | hc
    · exact .inl List.mem_cons_self
    · exact (ih hc).imp_left (List.mem_cons_of_mem _)

/-- A percent sign that is left follows neither a digit nor a point: a quotient ends in a parenthesis, and a
run that is kept has no percent sign behind it. -/
theorem Expands.isChain {s t : Text} (h : Expands s t) : t.IsChain LeavesPercent := by
  induction h with
  | done => exact .nil
  | @percent run rest expanded hne hrun h ih =>
    refine List.isChain_append.mpr ⟨isChain_leavesPercent_of_not_mem ?_, ih, fun c hc d _ _ => ?_⟩
    · intro hmem
      simp only [List.mem_append] at hmem
      rcases hmem with (hmem | hmem) | hmem
      · simp at hmem
      · cases hrun '%' hmem
      · simp at hmem
    · rw [List.getLast?_append_of_ne_nil _ (by decide)] at hc
      obtain rfl : c = ')' := by simpa [eq_comm] using hc
      rfl
  | @plain run rest expanded hne hrun hend h ih =>
    refine List.isChain_append.mpr ⟨isChain_leavesPercent_of_not_mem ?_, ih, fun c _ d hd hpercent => ?_⟩
    · intro hmem
      cases hrun '%' hmem
    · rw [h.eq_expandPercents, head?_expandPercents fun c hc => (hend c hc).1] at hd
      exact absurd hpercent (hend d hd).2
  | other hc _ ih => exact List.isChain_cons.mpr ⟨fun _ _ _ => hc, ih⟩

theorem of_mem_dense {s : Text} {c : Char} (h : c ∈ s.dense) : isBlank c = false ∧ c ≠ 'x' := by
  obtain ⟨d, hd, rfl⟩ := List.mem_map.mp h
  have hblank : isBlank d = false := by simpa using (List.mem_filter.mp hd).2
  split
  · decide
  · rename_i hx
    exact ⟨hblank, hx⟩

/-- What is evaluated is written for the text without blanks and with `*` for `x`, piece by piece: it is the only
text that expands it, and looking for a percent sign first makes no difference. No percent sign that is left
follows a digit or a point, and so nothing changes when the text is written again. -/
theorem arithmetic_expands (s : Text) :
    let spelled : Text := (s.filter fun c => !isBlank c).map fun c => if c = 'x' then '*' else c
    (∀ t : Text, Expands spelled t ↔ t = s.arithmetic) ∧
      s.arithmetic = expandPercents [] spelled ∧
      s.arithmetic.IsChain LeavesPercent ∧ s.arithmetic.arithmetic = s.arithmetic := by
  intro spelled
  have hspelled : spelled = s.dense := rfl
  have hexpands := expands_expandPercents s.dense
  rw [← s.arithmetic_eq] at hexpands
  have hdense : s.arithmetic.dense = s.arithmetic := by
    have hmem : ∀ c ∈ s.arithmetic, isBlank c = false ∧ c ≠ 'x' := by
      intro c hc
      rcases hexpands.mem_or hc with h | h
      · exact of_mem_dense h
      · simp at h
        rcases h with rfl | rfl | rfl | rfl | rfl <;> decide
    exact dense_eq_self (fun c hc => (hmem c hc).1) fun hx => (hmem 'x' hx).2 rfl
  refine ⟨fun t => ?_, s.arithmetic_eq, hexpands.isChain, ?_⟩
  · rw [hspelled, expands_iff, s.arithmetic_eq]
  · rw [arithmetic_eq, hdense]
    exact expandPercents_of_isChain hexpands.isChain fun hne => absurd rfl hne

example : arithmetic "5%% + .5%x2".toList = "(5/100)%+(.5/100)*2".toList := by decide

end Text
end KeypadCalc
