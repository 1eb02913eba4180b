import KeypadCalc.Double.Display
import KeypadCalc.Proofs.DecimalText
import KeypadCalc.Proofs.NearestDouble

/-!
# A decimal shown as a double

What the display makes of a decimal: the nearest double, rounded to eight places again. Up to
`2 ^ 26` the doubles are so close together that the way there and back changes nothing, and integers
stay what they are. Further out the second rounding may give another decimal; the decimal is kept
exactly when the double is no more than half a unit away from it.
-/
namespace KeypadCalc

namespace Decimal

theorem toRat_mul_unitsPerOne (d : Decimal) : d.toRat * unitsPerOne = d.units := by
  rw [toRat_eq, div_mul_cancel₀ _ (by decide)]

theorem render_injective {d e : Decimal} (h : d.render = e.render) : d = e := by
  have hvalue : d.toRat = e.toRat := by
    have hread := e.value?_render
    rw [← h, d.value?_render] at hread
    exact Option.some.inj hread
  have hunits : (d.units : Rat) = e.units := by
    rw [← d.toRat_mul_unitsPerOne, hvalue, e.toRat_mul_unitsPerOne]
  cases d
  cases e
  exact congrArg _ (by exact_mod_cast hunits)

theorem natAbs_units_round_le (tie : Tie) {r : Rat} {n : Nat} (h : |r| ≤ n) :
    (round tie r).units.natAbs ≤ n * unitsPerOne := by
  have hscaled : |r * unitsPerOne| ≤ (n * unitsPerOne : Int) := by
    rw [abs_mul, Nat.abs_cast]
    push_cast
    gcongr
  have hround := abs_roundNearest_le tie hscaled
  rw [Int.abs_eq_natAbs] at hround
  exact_mod_cast hround

/-- Rounding does not carry a number across an integer. -/
theorem abs_toRat_round_le (tie : Tie) {r : Rat} {n : Nat} (h : |r| ≤ n) : |(round tie r).toRat| ≤ n := by
  have hpos : (0 : Rat) < unitsPerOne := by decide
  rw [toRat_eq, abs_div, abs_of_pos hpos, div_le_iff₀ hpos, ← Int.cast_abs, Int.abs_eq_natAbs]
  exact_mod_cast natAbs_units_round_le tie h

theorem toRat_round_intCast (tie : Tie) (n : Int) : (round tie n).toRat = n := by
  rw [round_intCast, toRat_eq, Int.cast_mul]
  exact mul_div_cancel_right₀ _ (by decide)

/-- The decimal that the display shows for `d`. -/
def displayed (d : Decimal) : Decimal :=
  round .toEven (Double.nearestValue d.toRat)

/-- When the display shows the decimal itself. -/
theorem displayed_eq_iff (d : Decimal) :
    d.displayed = d ↔
      |Double.nearestValue d.toRat * unitsPerOne - d.units| < 1 / 2 ∨
        |Double.nearestValue d.toRat * unitsPerOne - d.units| = 1 / 2 ∧ d.units % 2 = 0 := by
  rw [← roundNearest_toEven_eq_iff, displayed, round]
  constructor
  · exact fun h => congrArg Decimal.units h
  · intro h
    rw [h]

theorem displayed_of_exact {d : Decimal} (h : Double.nearestValue d.toRat = d.toRat) :
    d.displayed = d := by
  rw [displayed_eq_iff, h, toRat_mul_unitsPerOne, sub_self, abs_zero]
  exact .inl (by norm_num)

theorem displayed_of_integer {d : Decimal} {n : Int} (hn : d.toRat = n) (h : |d.toRat| < 2 ^ 53) :
    d.displayed = d := by
  rw [hn] at h
  exact displayed_of_exact (by rw [hn, Double.nearestValue_intCast h])

/-- Below `2 ^ 26` neighbouring doubles are at most `2 ^ (-27)` apart, and half of that is less than
half a unit of the eighth place. -/
theorem displayed_of_abs_le {d : Decimal} (h : |d.toRat| ≤ 2 ^ 26) : d.displayed = d := by
  by_cases hzero : d.toRat = 0
  · exact displayed_of_integer (n := 0) (by rw [hzero, Int.cast_zero]) (by rw [hzero]; norm_num)
  rcases lt_or_eq_of_le h with hlt | heq
  · have hspace : Double.spacing d.toRat ≤ 2 ^ (26 - 53 : Int) :=
      Double.spacing_le_of_abs_lt hzero (by decide) (by exact_mod_cast hlt)
    have hdist := Double.abs_nearestValue_sub_le d.toRat
    rw [displayed_eq_iff, ← toRat_mul_unitsPerOne, ← sub_mul, abs_mul, cast_unitsPerOne]
    norm_num at hspace ⊢
    left
    linarith
  · have hlarge : |d.toRat| < 2 ^ 53 := by
      rw [heq]
      norm_num
    rcases abs_eq (by norm_num) |>.mp heq with hpos | hneg
    · exact displayed_of_integer (n := 2 ^ 26) (by rw [hpos]; norm_num) hlarge
    · exact displayed_of_integer (n := -2 ^ 26) (by rw [hneg]; norm_num) hlarge

end Decimal

namespace Double

/-- Of the places behind a point there remain those of the decimal; the point goes with the last of them. -/
theorem stripZeros_places {front : Text} (hfront : ∀ c ∈ front.getLast?, c ≠ '.') {units : Nat}
    (hunits : units < unitsPerOne) :
    stripZeros (front ++ '.' :: Decimal.paddedDigits units) = front ++ Decimal.placesText units := by
  obtain ⟨zeros, hpad⟩ := Decimal.exists_paddedDigits units
  have hkept : Text.dropEndWhile (· = '0') (front ++ '.' :: Decimal.paddedDigits units) =
      front ++ '.' :: Decimal.keptDigits units := by
    rw [hpad, ← List.cons_append, ← List.append_assoc,
      Text.dropEndWhile_run _ fun c hc => decide_eq_true (List.eq_of_mem_replicate hc)]
    refine Text.dropEndWhile_eq_self fun c hc => ?_
    rw [List.getLast?_append_cons, List.getLast?_cons] at hc
    cases hlast : (Decimal.keptDigits units).getLast? with
    | none =>
      rw [hlast] at hc
      rw [← Option.some.inj hc]
      rfl
    | some d =>
      rw [hlast] at hc
      rw [← Option.some.inj hc]
      exact Text.getLast?_dropEndWhile (· = '0') _ hlast
  rw [stripZeros, if_pos (by simp), hkept, Decimal.placesText]
  split
  · rename_i hzero
    rw [hzero, List.append_nil]
    have hnone : front ++ '.' :: Decimal.keptDigits 0 = front ++ ['.'] := rfl
    rw [hnone, Text.dropEndWhile_run front (List.forall_mem_singleton.mpr rfl)]
    exact Text.dropEndWhile_eq_self fun c hc => decide_eq_false (hfront c hc)
  · rename_i hsome
    have hne : Decimal.keptDigits units ≠ [] := by
      intro hnil
      have hvalue := Decimal.ofDigitChars_paddedDigits hunits 0
      rw [hpad, hnil, List.nil_append, Nat.ofDigitChars_replicate_zero] at hvalue
      exact hsome (by simpa using hvalue.symm)
    refine Text.dropEndWhile_eq_self fun c hc => decide_eq_false ?_
    rintro rfl
    rw [List.getLast?_append_cons, List.getLast?_cons_of_ne_nil hne] at hc
    have hdigit : '.' ∈ Decimal.paddedDigits units := by
      rw [hpad]
      exact List.mem_append_left _ (List.mem_of_getLast? hc)
    exact absurd (Decimal.isDigit_paddedDigits hdigit) (by decide)

/-- Rounding keeps the sign of a number that it does not round to zero. -/
theorem units_round_neg_iff {x : Rat} (h : (Decimal.round .toEven x).units ≠ 0) :
    (Decimal.round .toEven x).units < 0 ↔ x < 0 := by
  have hpos : (0 : Rat) < unitsPerOne := by decide
  rw [Decimal.round] at h ⊢
  constructor
  · intro hunits
    by_contra hx
    have hscaled : ((0 : Int) : Rat) ≤ x * unitsPerOne := by
      rw [Int.cast_zero]
      exact mul_nonneg (not_lt.mp hx) hpos.le
    exact absurd hunits (not_lt.mpr (le_roundNearest_of_le .toEven hscaled))
  · intro hx
    have hscaled : x * unitsPerOne ≤ ((0 : Int) : Rat) := by
      rw [Int.cast_zero]
      exact mul_nonpos_of_nonpos_of_nonneg hx.le hpos.le
    exact lt_of_le_of_ne (roundNearest_le_of_le .toEven hscaled) h

/-- All places written, their zeros stripped and the sign of zero dropped: this is the written form of the
decimal nearest to the number. -/
theorem dropZeroSign_stripZeros_fixedText (x : Rat) :
    dropZeroSign (stripZeros (fixedText x)) = (Decimal.round .toEven x).render := by
  have hstripped : stripZeros (fixedText x) =
      (if x < 0 then ['-'] else []) ++ (Decimal.round .toEven x).numeral.text := by
    rw [Decimal.numeral_text, ← List.append_assoc]
    refine stripZeros_places (fun c hc => ?_) (Nat.mod_lt _ (by decide))
    rw [List.getLast?_append_of_ne_nil _ Nat.toDigits_ne_nil] at hc
    rintro rfl
    exact absurd (Nat.isDigit_of_mem_toDigits (by decide) (by decide) (List.mem_of_getLast? hc)) (by decide)
  rw [hstripped]
  by_cases hzero : (Decimal.round .toEven x).units = 0
  · have hround : Decimal.round .toEven x = ⟨0⟩ := congrArg Decimal.mk hzero
    rw [hround]
    split <;> decide
  · have hwritten : (if x < 0 then ['-'] else []) ++ (Decimal.round .toEven x).numeral.text =
        (Decimal.round .toEven x).render := by
      rw [Decimal.render_eq, Decimal.sign, if_congr (units_round_neg_iff hzero) rfl rfl]
    rw [hwritten, dropZeroSign, if_neg]
    intro hminus
    have hvalue := (Decimal.round .toEven x).value?_render
    have hread : Literal.value? ['-', '0'] = some 0 := by decide
    rw [hminus, hread, Option.some.injEq, Decimal.toRat_eq, eq_comm, div_eq_zero_iff] at hvalue
    rcases hvalue with hvalue | hvalue
    · exact hzero (by exact_mod_cast hvalue)
    · exact absurd hvalue (by decide)

theorem displayText_finite (x : Rat) :
    (finite x).displayText =
      if overflowThreshold < magnitude x then ['∞']
      else if x ≠ 0 && magnitude x < underflowThreshold then ['0']
      else (Decimal.round .toEven x).render := by
  rw [displayText, dropZeroSign_stripZeros_fixedText]

theorem overflowThreshold_eq : overflowThreshold = 10 ^ 15 := by
  rw [overflowThreshold]
  norm_num

/-- Up to the overflow threshold a double is shown rounded to eight places. What is shown as zero because it
is so close to it rounds to zero as well. -/
theorem displayText_of_abs_le {x : Rat} (h : |x| ≤ 10 ^ 15) :
    (finite x).displayText = (Decimal.round .toEven x).render := by
  rw [displayText_finite, magnitude_eq_abs, overflowThreshold_eq, if_neg (not_lt.mpr h)]
  split
  · rename_i hunder
    have htiny : |x| < underflowThreshold := of_decide_eq_true (Bool.and_eq_true_iff.mp hunder).2
    rw [underflowThreshold] at htiny
    have hzero : roundNearest .toEven (x * unitsPerOne) = 0 := by
      apply roundNearest_eq_of_abs_lt
      rw [Int.cast_zero, sub_zero, abs_mul, Nat.abs_cast, Decimal.cast_unitsPerOne]
      norm_num
      linarith
    rw [Decimal.round, hzero]
    decide
  · rfl

/-- A double is shown as infinite, or it is shown rounded to eight places. -/
theorem displayText_eq_render {x : Rat} (h : (finite x).displayText ≠ ['∞']) :
    |x| ≤ 10 ^ 15 ∧ (finite x).displayText = (Decimal.round .toEven x).render := by
  have hsmall : |x| ≤ 10 ^ 15 := by
    by_contra hlarge
    rw [displayText_finite, magnitude_eq_abs, overflowThreshold_eq, if_pos (not_le.mp hlarge)] at h
    exact h rfl
  exact ⟨hsmall, displayText_of_abs_le hsmall⟩

end Double
end KeypadCalc
