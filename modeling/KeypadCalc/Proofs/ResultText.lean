import KeypadCalc.Proofs.CanonicalText
import KeypadCalc.Proofs.RepeatedResult

/-!
# The text of an exact result

A result is written as the canonical text of the nearest multiple of `10 ^ (-8)`, so two results look alike
exactly when they are rounded to the same multiple, and what is read back is that multiple. The text has the
form of an expression, and since it needs no rounding any more it evaluates to itself. Only a result with
more than `evaluationLimit` characters is refused when it is evaluated again, as any text of that length is.
-/
namespace KeypadCalc

/-- An integer is written as the number that it is, whatever its size. -/
theorem resultText_intCast (n : Int) : resultText n = ratText n := by
  rw [resultText, ratText, if_pos (Rat.den_intCast n), if_pos (Rat.den_intCast n)]

/-- The text of a result is canonical and is read as the multiple of `10 ^ (-8)` nearest to the number, of two
equally near ones the one further from zero; no other canonical text is read so. Two numbers are written alike
exactly when they have the same nearest multiple, and a multiple of `10 ^ (-8)` is read back unchanged. An
integer of any size is written as it is among tokens. -/
theorem resultText_canonical (r : Rat) :
    let nearest : Rat → Int := fun r => roundNearest .awayFromZero (r * 10 ^ 8)
    (∀ q : Int, nearest r = q ↔
        |r * 10 ^ 8 - q| < 1 / 2 ∨ |r * 10 ^ 8 - q| = 1 / 2 ∧ |r * 10 ^ 8| < |(q : Rat)|) ∧
      (∀ s : Text, s = resultText r ↔
        s.IsCanonicalDecimal ∧ Literal.value? s = some ((nearest r : Rat) / 10 ^ 8)) ∧
      (∀ r' : Rat, resultText r' = resultText r ↔ nearest r' = nearest r) ∧
      (∀ q : Int, Literal.value? (resultText (q / 10 ^ 8)) = some ((q : Rat) / 10 ^ 8)) ∧
      ∀ n : Int, resultText n = ratText n := by
  intro nearest
  have htext (r : Rat) (s : Text) : s = resultText r ↔
      s.IsCanonicalDecimal ∧ Literal.value? s = some ((nearest r : Rat) / 10 ^ 8) := by
    rw [resultText_eq]
    exact Decimal.eq_render_round_iff .awayFromZero r s
  have hread (r : Rat) : Literal.value? (resultText r) = some ((nearest r : Rat) / 10 ^ 8) :=
    ((htext r _).mp rfl).2
  refine ⟨fun q => roundNearest_awayFromZero_eq_iff, htext r, fun r' => ?_, fun q => ?_, resultText_intCast⟩
  · constructor
    · intro h
      have hsame := hread r
      rw [← h, hread r', Option.some.injEq, div_left_inj' (by norm_num)] at hsame
      exact_mod_cast hsame
    · intro h
      exact (htext r _).mpr ⟨((htext r' _).mp rfl).1, by rw [hread, h]⟩
  · have hexact : nearest (q / 10 ^ 8) = q := by
      show roundNearest .awayFromZero ((q : Rat) / 10 ^ 8 * 10 ^ 8) = q
      rw [div_mul_cancel₀ _ (by norm_num), roundNearest_intCast]
    rw [hread, hexact]

namespace Expression

theorem value_of_length_gt {s : Text} (h : evaluationLimit < s.admitted.length) :
    value s = .error .refused := by
  have hshape : s.admitted.isEvaluable = false := by
    rw [Bool.eq_false_iff]
    intro hevaluable
    exact absurd ((Text.isEvaluable_iff s.isAdmitted_admitted).mp hevaluable).2.1 (not_le.mpr h)
  simp only [value, hshape, Bool.not_false, if_true]

/-- A result is never mistaken for the text of a failure. Evaluated again it is its own result, unless it is
too long to be evaluated. -/
theorem result_result {s t : Text} (h : result s = .ok t) :
    t ≠ invalidInput ∧
      result t = if t.length ≤ evaluationLimit then .ok t else .error .refused := by
  have hvalid := result_ne_invalidInput h
  obtain ⟨v, hv, -⟩ := exists_of_bind h
  rw [result_of_value hv, resultText_eq] at h
  generalize Decimal.round .awayFromZero v = d at h
  obtain rfl := Except.ok.inj h
  refine ⟨hvalid, ?_⟩
  split
  · rename_i hlength
    rw [result_of_value (Decimal.value_render hlength), resultText_eq, Decimal.round_toRat]
  · rename_i hlength
    rw [← Text.admitted_eq_self d.isAdmitted_render] at hlength
    rw [result, value_of_length_gt (not_le.mp hlength)]
    rfl

/-- The difference `1 - 5 / 3` is negative and needs all eight places. -/
theorem result_of_negative_fraction :
    let t := "-0.66666667".toList
    result "1 - 5 / 3".toList = .ok t ∧ t ≠ invalidInput ∧ result t = .ok t := by
  intro t
  have h : result "1 - 5 / 3".toList = .ok t := by decide +kernel
  obtain ⟨hvalid, hagain⟩ := result_result h
  exact ⟨h, hvalid, hagain.trans (if_pos (by decide))⟩

end Expression
end KeypadCalc
