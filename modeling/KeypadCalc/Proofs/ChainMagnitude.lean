import KeypadCalc.Proofs.Chain
import KeypadCalc.Proofs.DecimalText
import KeypadCalc.Proofs.NearestDouble

/-!
# How large the value of a chain is

Every character of a chain multiplies its value by at most ten: a numeral of `n` characters is at most
`10 ^ n`, and since it has fewer than `n` places it is zero or at least `10 ^ (-n)`, so that dividing by
it is no worse. Expressions are short, and therefore their results are far inside the range of doubles.
-/
namespace KeypadCalc

namespace Numeral

theorem value_le (n : Numeral) : n.value ≤ 10 ^ n.text.length := by
  have hlt := ofDigitChars_lt n.isDigit 0
  have hlen : (n.whole ++ n.places.getD []).length ≤ n.text.length := by
    rw [length_text, List.length_append]
    omega
  calc n.value ≤ Nat.ofDigitChars 10 n.digits 0 :=
        div_le_self (by positivity) (one_le_pow₀ (by norm_num))
    _ ≤ 10 ^ (n.whole ++ n.places.getD []).length := by
        rw [zero_add, mul_one] at hlt
        exact_mod_cast hlt.le
    _ ≤ 10 ^ n.text.length := pow_le_pow_right₀ (by norm_num) hlen

/-- A numeral other than zero has at least one unit of its last place. -/
theorem one_le_value_mul {n : Numeral} (h : n.value ≠ 0) :
    1 ≤ n.value * 10 ^ (n.places.getD []).length := by
  have hpos : (0 : Rat) < 10 ^ (n.places.getD []).length := by positivity
  rw [value, div_mul_cancel₀ _ hpos.ne']
  rw [value, div_ne_zero_iff, Nat.cast_ne_zero] at h
  exact_mod_cast Nat.one_le_iff_ne_zero.mpr h.1

end Numeral

namespace Operand

theorem value_nonneg (x : Operand) : 0 ≤ x.value := by
  have h := x.numeral.value_nonneg
  unfold value
  split
  · positivity
  · exact h

theorem value_le (x : Operand) : x.value ≤ 10 ^ x.text.length := by
  have h := x.numeral.value_le
  have hnonneg := x.numeral.value_nonneg
  have hlen : x.numeral.text.length ≤ x.text.length := by simp [text]
  have hpow : (10 : Rat) ^ x.numeral.text.length ≤ 10 ^ x.text.length :=
    pow_le_pow_right₀ (by norm_num) hlen
  unfold value
  split <;> linarith

/-- The text has a character for every place of the numeral, and with a percent sign two more. -/
theorem places_lt_length (x : Operand) :
    (x.numeral.places.getD []).length + (if x.percent then 2 else 0) ≤ x.text.length := by
  have hlen := x.numeral.length_text
  have hne := List.length_pos_iff.mpr x.numeral.text_ne_nil
  rw [text, List.length_append]
  cases hp : x.numeral.places <;> cases x.percent <;> simp [hp] at hlen ⊢ <;> omega

theorem inv_value_le (x : Operand) : x.value⁻¹ ≤ 10 ^ x.text.length := by
  by_cases h : x.value = 0
  · rw [h, inv_zero]
    positivity
  · have hnum : x.numeral.value ≠ 0 := by
      unfold value at h
      split at h
      · exact left_ne_zero_of_mul h
      · exact h
    have hunit := Numeral.one_le_value_mul hnum
    have hpow : (10 : Rat) ^ ((x.numeral.places.getD []).length + if x.percent then 2 else 0) ≤
        10 ^ x.text.length := pow_le_pow_right₀ (by norm_num) x.places_lt_length
    rw [inv_le_iff_one_le_mul₀' (lt_of_le_of_ne x.value_nonneg (Ne.symm h))]
    refine le_trans ?_ (mul_le_mul_of_nonneg_left hpow x.value_nonneg)
    rw [value, pow_add]
    split <;> linarith

end Operand

/-- One more operand of `k` characters, and the operator in front of it. -/
theorem BinaryOp.follow_le (o : BinaryOp) {p : Rat × Rat} {b : Rat} {n k : Nat}
    (hp : |p.1| + |p.2| ≤ 10 ^ n) (hb : |b| ≤ 10 ^ k) (hinv : |b|⁻¹ ≤ 10 ^ k) :
    |(o.follow p b).1| + |(o.follow p b).2| ≤ 10 ^ (n + (k + 1)) := by
  have hn : (1 : Rat) ≤ 10 ^ n := one_le_pow₀ (by norm_num)
  have hk : (1 : Rat) ≤ 10 ^ k := one_le_pow₀ (by norm_num)
  have hsum : (10 : Rat) ^ n + 10 ^ k ≤ 10 ^ (n + (k + 1)) := by
    rw [pow_add, pow_succ]
    nlinarith
  have hscale {q : Rat} (hq : |q| ≤ |p.2| * 10 ^ k) : |p.1| + |q| ≤ 10 ^ (n + (k + 1)) := by
    have hfirst : |p.1| ≤ |p.1| * 10 ^ k := le_mul_of_one_le_right (abs_nonneg _) hk
    calc |p.1| + |q| ≤ (|p.1| + |p.2|) * 10 ^ k := by linarith
      _ ≤ 10 ^ n * 10 ^ k := by gcongr
      _ = 10 ^ (n + k) := (pow_add _ _ _).symm
      _ ≤ 10 ^ (n + (k + 1)) := pow_le_pow_right₀ (by norm_num) (by omega)
  obtain ⟨s, t⟩ := p
  have htri := abs_add_le s t
  cases o with
  | add =>
    simp only [BinaryOp.follow]
    linarith
  | sub =>
    simp only [BinaryOp.follow, abs_neg]
    linarith
  | mul =>
    apply hscale
    rw [BinaryOp.follow, abs_mul]
    gcongr
  | div =>
    apply hscale
    rw [BinaryOp.follow, abs_div, div_eq_mul_inv]
    gcongr

namespace Chain

theorem foldl_follow_le (rest : List (BinaryOp × Operand)) {p : Rat × Rat} {n : Nat}
    (hp : |p.1| + |p.2| ≤ 10 ^ n) :
    |(rest.foldl (fun p x => x.1.follow p x.2.value) p).1| +
        |(rest.foldl (fun p x => x.1.follow p x.2.value) p).2| ≤
      10 ^ (n + (rest.flatMap fun x => [x.1.symbol] ++ x.2.text).length) := by
  induction rest generalizing p n with
  | nil => simpa using hp
  | cons x rest ih =>
    have habs := abs_of_nonneg x.2.value_nonneg
    have hfollow := x.1.follow_le hp (habs.symm ▸ x.2.value_le) (habs.symm ▸ x.2.inv_value_le)
    refine le_trans (ih hfollow) (le_of_eq ?_)
    congr 1
    simp only [List.flatMap_cons, List.length_append, List.length_singleton]
    omega

theorem abs_value_le (c : Chain) : |c.value| ≤ 10 ^ c.text.length := by
  have hlead : |(0 : Rat)| + |if c.negated then -c.first.value else c.first.value| ≤
      10 ^ c.leadText.length := by
    have hfirst := c.first.value_le
    have hpow : (10 : Rat) ^ c.first.text.length ≤ 10 ^ c.leadText.length :=
      pow_le_pow_right₀ (by norm_num) (by simp [leadText])
    rw [abs_zero, zero_add]
    split <;> simp only [abs_neg, abs_of_nonneg c.first.value_nonneg] <;> linarith
  calc |c.value| ≤ |c.parts.1| + |c.parts.2| := by
        rw [value_eq]
        exact abs_add_le _ _
    _ ≤ 10 ^ (c.leadText.length + (c.rest.flatMap fun x => [x.1.symbol] ++ x.2.text).length) :=
        foldl_follow_le c.rest hlead
    _ = 10 ^ c.text.length := by rw [text, textWith, List.length_append]

end Chain

/-- The text of a result that is not enormous is read back as a finite double. -/
theorem ofText?_resultText {r : Rat} {n : Nat} (hn : n ≤ 255) (h : |r| ≤ 10 ^ n) :
    Double.ofText? (resultText r) =
      some (.finite (Double.nearestValue (Decimal.round .awayFromZero r).toRat)) := by
  have hround := Decimal.abs_toRat_round_sub_le .awayFromZero r
  have hunit : (1 : Rat) / 2 / unitsPerOne ≤ 1 := by
    rw [Decimal.cast_unitsPerOne]
    norm_num
  have htri := abs_sub_le (Decimal.round .awayFromZero r).toRat r 0
  rw [sub_zero, sub_zero] at htri
  have hone : (1 : Rat) ≤ 16 ^ n := one_le_pow₀ (by norm_num)
  have hten : (10 : Rat) ^ n ≤ 16 ^ n := pow_le_pow_left₀ (by norm_num) (by norm_num) n
  have htwo : (2 : Rat) * 16 ^ n ≤ 2 ^ 1023 := by
    calc (2 : Rat) * 16 ^ n = 2 ^ (4 * n + 1) := by rw [pow_succ', pow_mul]; norm_num
      _ ≤ 2 ^ 1023 := pow_le_pow_right₀ (by norm_num) (by omega)
  rw [Double.ofText?, resultText_eq, Decimal.value?_render, Option.map_some]
  rw [Double.nearest_finite (by generalize (2 : Rat) ^ 1023 = bound at htwo ⊢; linarith)]

end KeypadCalc
