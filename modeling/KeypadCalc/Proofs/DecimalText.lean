import KeypadCalc.Decimal
import KeypadCalc.Proofs.DigitText
import KeypadCalc.Proofs.NearestInteger
import KeypadCalc.Proofs.Numeral

/-!
# The written form of a decimal

`Decimal.render` writes a minus for a negative count of units, and behind it a numeral without
superfluous zeros. The numeral has the exact absolute value, so reading the text gives back the number:
padding the fraction to eight digits and cutting its zeros off again changes nothing.
-/
namespace KeypadCalc

namespace Decimal

theorem unitsPerOne_eq : unitsPerOne = 10 ^ 8 := by decide

theorem cast_unitsPerOne : (unitsPerOne : Rat) = 10 ^ 8 := by
  rw [unitsPerOne_eq]
  norm_num

/-- The digits of a number of units below one, padded in front to `decimalPlaces`. -/
def paddedDigits (units : Nat) : Text :=
  (Nat.toDigits 10 units).leftpad decimalPlaces '0'

theorem isDigit_paddedDigits {units : Nat} {c : Char} (h : c ∈ paddedDigits units) :
    c.isDigit = true := by
  rw [paddedDigits, List.leftpad, List.mem_append] at h
  rcases h with h | h
  · rw [(List.mem_replicate.mp h).2]
    rfl
  · exact Nat.isDigit_of_mem_toDigits (by decide) (by decide) h

theorem length_paddedDigits {units : Nat} (h : units < unitsPerOne) :
    (paddedDigits units).length = decimalPlaces := by
  have hle : (Nat.toDigits 10 units).length ≤ decimalPlaces :=
    (Nat.length_toDigits_le_iff (by decide) (by decide)).mpr h
  rw [paddedDigits, List.length_leftpad]
  exact max_eq_left hle

theorem ofDigitChars_paddedDigits {units : Nat} (h : units < unitsPerOne) (init : Nat) :
    Nat.ofDigitChars 10 (paddedDigits units) init = unitsPerOne * init + units := by
  rw [Nat.ofDigitChars_eq_ofDigitChars_zero, length_paddedDigits h, paddedDigits, List.leftpad,
    Nat.ofDigitChars_append, Nat.ofDigitChars_replicate_zero, Nat.mul_zero,
    Nat.ofDigitChars_ten_toDigits]
  rfl

/-- The digits that are written of the places, without the zeros at their end. -/
def keptDigits (units : Nat) : Text :=
  Text.dropEndWhile (· = '0') (paddedDigits units)

theorem exists_paddedDigits (units : Nat) :
    ∃ zeros, paddedDigits units = keptDigits units ++ List.replicate zeros '0' := by
  obtain ⟨run, hrun, hs⟩ := Text.exists_dropEndWhile (· = '0') (paddedDigits units)
  refine ⟨run.length, ?_⟩
  rw [← List.eq_replicate_of_mem fun c hc => of_decide_eq_true (hrun c hc)]
  exact hs

/-- The zeros that are cut off are at least as many as the powers of ten in the number. -/
theorem length_keptDigits_add_le {units j : Nat} (hunits : units < unitsPerOne) (hj : j ≤ decimalPlaces)
    (h : 10 ^ j ∣ units) : (keptDigits units).length + j ≤ decimalPlaces := by
  have hlength := length_paddedDigits hunits
  have hvalue := ofDigitChars_paddedDigits hunits 0
  rw [Nat.mul_zero, Nat.zero_add] at hvalue
  obtain ⟨front, hfront⟩ := exists_zeros_of_dvd (fun _ => isDigit_paddedDigits) (hlength ▸ hj)
    (by rw [hvalue]; exact h)
  have hkept : keptDigits units = Text.dropEndWhile (· = '0') front := by
    rw [keptDigits, hfront]
    exact Text.dropEndWhile_run front fun c hc => decide_eq_true (List.eq_of_mem_replicate hc)
  rw [hfront, List.length_append, List.length_replicate] at hlength
  rw [hkept, ← hlength]
  exact Nat.add_le_add_right (Text.dropEndWhile_isPrefix _ front).length_le j

/-- The absolute value as a numeral. -/
def numeral (d : Decimal) : Numeral where
  whole := Nat.toDigits 10 (d.units.natAbs / unitsPerOne)
  places :=
    if d.units.natAbs % unitsPerOne = 0 then none
    else some (keptDigits (d.units.natAbs % unitsPerOne))
  isDigit := by
    intro c hc
    rcases List.mem_append.mp hc with h | h
    · exact Nat.isDigit_of_mem_toDigits (by decide) (by decide) h
    · obtain ⟨zeros, hpad⟩ := exists_paddedDigits (d.units.natAbs % unitsPerOne)
      split at h
      · cases h
      · exact isDigit_paddedDigits (hpad ▸ List.mem_append_left _ h)
  nonempty := List.append_ne_nil_of_left_ne_nil Nat.toDigits_ne_nil _

def sign (d : Decimal) : Text :=
  if d.units < 0 then ['-'] else []

theorem numeral_text (d : Decimal) :
    d.numeral.text =
      Nat.toDigits 10 (d.units.natAbs / unitsPerOne) ++ placesText (d.units.natAbs % unitsPerOne) := by
  have hplaces : d.numeral.fraction = placesText (d.units.natAbs % unitsPerOne) := by
    by_cases hz : d.units.natAbs % unitsPerOne = 0
    · simp only [placesText, Numeral.fraction, numeral, if_pos hz]
    · simp only [placesText, Numeral.fraction, numeral, if_neg hz]
      rfl
  rw [← hplaces]
  rfl

theorem render_eq (d : Decimal) : d.render = d.sign ++ d.numeral.text := by
  rw [render, numeral_text, List.append_assoc]
  rfl

theorem mem_render {d : Decimal} {c : Char} (h : c ∈ d.render) : c = '-' ∨ Token.isNumeral c = true := by
  rw [render_eq, List.mem_append, sign] at h
  rcases h with h | h
  · split at h
    · exact .inl (List.mem_singleton.mp h)
    · cases h
  · exact .inr (Numeral.mem_text h)

theorem value_numeral (d : Decimal) : d.numeral.value = (d.units.natAbs : Rat) / unitsPerOne := by
  have hdiv := Nat.div_add_mod d.units.natAbs unitsPerOne
  have hlt : d.units.natAbs % unitsPerOne < unitsPerOne := Nat.mod_lt _ (by decide)
  by_cases hz : d.units.natAbs % unitsPerOne = 0
  · have hq : (d.units.natAbs : Rat) = unitsPerOne * (d.units.natAbs / unitsPerOne : Nat) := by
      exact_mod_cast (by rw [hz] at hdiv; exact hdiv.symm)
    simp only [Numeral.value, Numeral.digits, numeral, if_pos hz, Option.getD_none, List.append_nil,
      Nat.ofDigitChars_ten_toDigits, List.length_nil, pow_zero, div_one]
    rw [hq, mul_div_cancel_left₀ _ (by decide)]
  · obtain ⟨zeros, hpad⟩ := exists_paddedDigits (d.units.natAbs % unitsPerOne)
    have hlen : (keptDigits (d.units.natAbs % unitsPerOne)).length + zeros = 8 := by
      have h := length_paddedDigits hlt
      rw [hpad, List.length_append, List.length_replicate] at h
      exact h
    have hall : 10 ^ zeros * Nat.ofDigitChars 10 d.numeral.digits 0 = d.units.natAbs := by
      have h := ofDigitChars_paddedDigits hlt (d.units.natAbs / unitsPerOne)
      rw [hdiv, hpad, Nat.ofDigitChars_append, Nat.ofDigitChars_replicate_zero] at h
      rw [← h, Numeral.digits, Nat.ofDigitChars_append, numeral]
      simp only [if_neg hz, Option.getD_some, Nat.ofDigitChars_ten_toDigits]
    have hplaces : d.numeral.places.getD [] = keptDigits (d.units.natAbs % unitsPerOne) := by
      simp only [numeral, if_neg hz, Option.getD_some]
    generalize keptDigits (d.units.natAbs % unitsPerOne) = kept at hplaces hlen
    rw [Numeral.value, hplaces, unitsPerOne_eq, ← hall, ← hlen, pow_add]
    push_cast
    field_simp

/-- A decimal with at most `k` digits before the point and `j` zeros at the end of its places. -/
theorem length_render_add_le {d : Decimal} {k j : Nat} (hk : 0 < k) (h : d.units.natAbs < 10 ^ (k + 8))
    (hj : j ≤ 8) (hzeros : 10 ^ j ∣ d.units.natAbs) : d.render.length + j ≤ k + 10 := by
  have hsign : d.sign.length ≤ 1 := by
    unfold sign
    split <;> simp
  have hwhole : d.numeral.whole.length ≤ k := by
    rw [numeral, Nat.length_toDigits_le_iff (by decide) hk, unitsPerOne_eq]
    rw [pow_add] at h
    exact Nat.div_lt_of_lt_mul (by rwa [mul_comm])
  have hplaces : (d.numeral.places.getD []).length + j ≤ 8 := by
    have hunits : d.units.natAbs % unitsPerOne < unitsPerOne := Nat.mod_lt _ (by decide)
    have hrest : 10 ^ j ∣ d.units.natAbs % unitsPerOne := by
      rw [Nat.dvd_mod_iff (by rw [unitsPerOne_eq]; exact pow_dvd_pow 10 hj)]
      exact hzeros
    rw [numeral]
    split
    · simpa using hj
    · exact length_keptDigits_add_le hunits hj hrest
  have htext := d.numeral.length_text
  rw [render_eq, List.length_append]
  split at htext <;> omega

theorem toRat_eq (d : Decimal) : d.toRat = (d.units : Rat) / unitsPerOne := by
  rw [toRat, Rat.mkRat_eq_div]

/-- Rounding moves a number by at most half a unit of the last place. -/
theorem abs_toRat_round_sub_le (tie : Tie) (r : Rat) :
    |(round tie r).toRat - r| ≤ 1 / 2 / unitsPerOne := by
  have hpos : (0 : Rat) < unitsPerOne := by decide
  have h := abs_roundNearest_sub_le tie (r * unitsPerOne)
  rw [toRat_eq, round, le_div_iff₀ hpos]
  calc |(roundNearest tie (r * unitsPerOne) : Rat) / unitsPerOne - r| * unitsPerOne
      = |(roundNearest tie (r * unitsPerOne) : Rat) - r * unitsPerOne| := by
        rw [← abs_of_pos hpos, ← abs_mul, abs_of_pos hpos, sub_mul, div_mul_cancel₀ _ hpos.ne']
    _ ≤ 1 / 2 := h

/-- The number is that of the numeral, with the sign in front. -/
theorem toRat_eq_numeral (d : Decimal) :
    d.toRat = if d.units < 0 then -d.numeral.value else d.numeral.value := by
  rw [toRat_eq, value_numeral, Nat.cast_natAbs]
  split
  · rename_i hneg
    rw [abs_of_neg hneg, Int.cast_neg, neg_div, neg_neg]
  · rename_i hnonneg
    rw [abs_of_nonneg (not_lt.mp hnonneg)]

/-- Reading the written form gives the number. -/
theorem value?_render (d : Decimal) : Literal.value? d.render = some d.toRat := by
  rw [render_eq, sign, toRat_eq_numeral]
  split
  · rw [List.singleton_append, Numeral.value?_minus_text]
  · rw [List.nil_append, Numeral.value?_text]

/-- An integer is not rounded. -/
theorem round_intCast (tie : Tie) (n : Int) : round tie n = ⟨n * unitsPerOne⟩ := by
  have hunits : (n : Rat) * unitsPerOne = (n * unitsPerOne : Int) := by push_cast; rfl
  rw [round, hunits, roundNearest_intCast]

theorem render_of_integer (n : Int) : (⟨n * unitsPerOne⟩ : Decimal).render = integerText n := by
  have hpos : 0 < unitsPerOne := by decide
  have hsign : n * (unitsPerOne : Int) < 0 ↔ n < 0 := by
    rw [mul_neg_iff]
    omega
  rw [render, integerText, Int.natAbs_mul, Int.natAbs_natCast, Nat.mul_div_cancel _ hpos, Nat.mul_mod_left,
    if_congr hsign rfl rfl]
  exact List.append_nil _

end Decimal

/-- The text of an integer is what rounding would give as well. -/
theorem resultText_eq (r : Rat) : resultText r = (Decimal.round .awayFromZero r).render := by
  unfold resultText
  split
  · rename_i hden
    have hround := Decimal.round_intCast .awayFromZero r.num
    rw [Rat.coe_int_num_of_den_eq_one hden] at hround
    rw [hround, Decimal.render_of_integer]
  · rfl

end KeypadCalc
