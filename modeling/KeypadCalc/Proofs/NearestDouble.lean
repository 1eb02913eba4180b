import KeypadCalc.Double
import KeypadCalc.Proofs.NearestInteger

/-!
# The double nearest to a rational number

`Double.nearest` rounds to a grid whose spacing is a power of two that grows with the number. The
guess in `binaryExponent` is right up to one, so `2 ^ binaryExponent r` is the largest power of two
within `|r|`; hence the distance to the nearest double is at most half the spacing, a number on its own
grid is kept, and below `2 ^ 1023` the result is finite.
-/
namespace KeypadCalc

theorem magnitude_eq_abs (r : Rat) : magnitude r = |r| := by
  unfold magnitude
  by_cases h : r < 0
  · rw [if_pos h, abs_of_neg h]
  · rw [if_neg h, abs_of_nonneg (not_lt.mp h)]

theorem powerOfTwo_eq (k : Int) : powerOfTwo k = (2 : Rat) ^ k := by
  rw [powerOfTwo, Rat.mkRat_eq_div]
  rcases Int.le_total 0 k with h | h
  · obtain ⟨n, rfl⟩ := Int.eq_ofNat_of_zero_le h
    simp
  · obtain ⟨n, hn⟩ := Int.eq_ofNat_of_zero_le (Int.neg_nonneg_of_nonpos h)
    obtain rfl : k = -(n : Int) := by omega
    simp

namespace Double

/-- A quotient lies between the powers of two that the lengths of its parts give. -/
theorem two_zpow_log2_bounds {a b : Nat} (ha : a ≠ 0) (hb : b ≠ 0) :
    (2 : Rat) ^ ((a.log2 : Int) - b.log2 - 1) < (a : Rat) / b ∧
      (a : Rat) / b < (2 : Rat) ^ ((a.log2 : Int) - b.log2 + 1) := by
  have ha1 : (2 : Rat) ^ (a.log2 : Int) ≤ a := by
    rw [zpow_natCast]
    exact_mod_cast Nat.log2_self_le ha
  have ha2 : (a : Rat) < 2 ^ ((a.log2 : Int) + 1) := by
    rw [← Nat.cast_succ, zpow_natCast]
    exact_mod_cast Nat.lt_log2_self
  have hb1 : (2 : Rat) ^ (b.log2 : Int) ≤ b := by
    rw [zpow_natCast]
    exact_mod_cast Nat.log2_self_le hb
  have hb2 : (b : Rat) < 2 ^ ((b.log2 : Int) + 1) := by
    rw [← Nat.cast_succ, zpow_natCast]
    exact_mod_cast Nat.lt_log2_self
  have hpos : (0 : Rat) < b := by exact_mod_cast Nat.pos_of_ne_zero hb
  constructor
  · rw [lt_div_iff₀ hpos, sub_sub, zpow_sub₀ two_ne_zero, div_mul_eq_mul_div,
      div_lt_iff₀ (by positivity)]
    calc (2 : Rat) ^ (a.log2 : Int) * b < 2 ^ (a.log2 : Int) * 2 ^ ((b.log2 : Int) + 1) := by gcongr
      _ ≤ a * 2 ^ ((b.log2 : Int) + 1) := by gcongr
  · rw [div_lt_iff₀ hpos, sub_add_eq_add_sub, zpow_sub₀ two_ne_zero, div_mul_eq_mul_div,
      lt_div_iff₀ (by positivity)]
    calc (a : Rat) * 2 ^ (b.log2 : Int) < 2 ^ ((a.log2 : Int) + 1) * 2 ^ (b.log2 : Int) := by gcongr
      _ ≤ 2 ^ ((a.log2 : Int) + 1) * b := by gcongr

/-- `binaryExponent` is the binary order of magnitude. -/
theorem binaryExponent_bounds {r : Rat} (hr : r ≠ 0) :
    (2 : Rat) ^ binaryExponent r ≤ |r| ∧ |r| < 2 ^ (binaryExponent r + 1) := by
  have habs : |r| = (r.num.natAbs : Rat) / r.den := by
    conv_lhs => rw [← Rat.num_div_den r]
    rw [abs_div, Nat.abs_cast, Nat.cast_natAbs, Int.cast_abs]
  obtain ⟨hlo, hhi⟩ := two_zpow_log2_bounds (Int.natAbs_ne_zero.mpr (Rat.num_ne_zero.mpr hr)) r.den_nz
  rw [← habs] at hlo hhi
  rw [binaryExponent, powerOfTwo_eq, magnitude_eq_abs]
  by_cases hguess : (2 : Rat) ^ ((r.num.natAbs.log2 : Int) - r.den.log2) ≤ |r|
  · rw [if_pos hguess]
    exact ⟨hguess, hhi⟩
  · rw [if_neg hguess, sub_add_cancel]
    exact ⟨hlo.le, not_le.mp hguess⟩

theorem binaryExponent_lt_of_abs_lt {r : Rat} (hr : r ≠ 0) {k : Int} (h : |r| < 2 ^ k) :
    binaryExponent r < k := by
  have hlt := (binaryExponent_bounds hr).1.trans_lt h
  exact (zpow_lt_zpow_iff_right₀ one_lt_two).mp hlt

theorem le_binaryExponent_of_le_abs {r : Rat} (hr : r ≠ 0) {k : Int} (h : 2 ^ k ≤ |r|) :
    k ≤ binaryExponent r := by
  have hlt := h.trans_lt (binaryExponent_bounds hr).2
  exact Int.lt_add_one_iff.mp ((zpow_lt_zpow_iff_right₀ one_lt_two).mp hlt)

theorem spacing_eq (r : Rat) : spacing r = (2 : Rat) ^ max (binaryExponent r - 52) (-1074) := by
  rw [spacing, powerOfTwo_eq]

theorem spacing_pos (r : Rat) : 0 < spacing r := by
  rw [spacing_eq]
  positivity

/-- Below `2 ^ k` the spacing is at most `2 ^ (k - 53)`. -/
theorem spacing_le_of_abs_lt {r : Rat} (hr : r ≠ 0) {k : Int} (hk : -1021 ≤ k) (h : |r| < 2 ^ k) :
    spacing r ≤ 2 ^ (k - 53) := by
  have hlt := binaryExponent_lt_of_abs_lt hr h
  rw [spacing_eq]
  exact zpow_le_zpow_right₀ one_le_two (by omega)

theorem spacing_le_abs_add_one {r : Rat} (hr : r ≠ 0) : spacing r ≤ |r| + 1 := by
  rw [spacing_eq]
  rcases le_total (binaryExponent r - 52) (-1074) with h | h
  · rw [max_eq_right h]
    have hone : (2 : Rat) ^ (-1074 : Int) ≤ 1 := zpow_le_one_of_nonpos₀ one_le_two (by decide)
    linarith [abs_nonneg r]
  · rw [max_eq_left h]
    have hle : (2 : Rat) ^ (binaryExponent r - 52) ≤ 2 ^ binaryExponent r :=
      zpow_le_zpow_right₀ one_le_two (by omega)
    linarith [(binaryExponent_bounds hr).1]

/-- The point of the grid that `nearest` chooses, whether or not it is small enough to be finite. -/
def nearestValue (r : Rat) : Rat :=
  if r = 0 then 0 else roundNearest .toEven (r / spacing r) * spacing r

theorem nearest_eq (r : Rat) :
    nearest r =
      if 2 ^ 1024 ≤ |nearestValue r| then .infinite (decide (r < 0)) else .finite (nearestValue r) := by
  unfold nearest nearestValue
  by_cases hr : r = 0
  · simp [hr]
  · rw [if_neg hr, if_neg hr]
    dsimp only
    rw [powerOfTwo_eq, magnitude_eq_abs]
    rfl

theorem abs_nearestValue_sub_le (r : Rat) : |nearestValue r - r| ≤ spacing r / 2 := by
  have hpos := spacing_pos r
  unfold nearestValue
  by_cases hr : r = 0
  · rw [if_pos hr, hr, sub_zero, abs_zero]
    rw [hr] at hpos
    linarith
  · rw [if_neg hr]
    have h := abs_roundNearest_sub_le .toEven (r / spacing r)
    calc |roundNearest .toEven (r / spacing r) * spacing r - r|
        = |(roundNearest .toEven (r / spacing r) : Rat) - r / spacing r| * spacing r := by
          rw [← abs_of_pos hpos, ← abs_mul, abs_of_pos hpos, sub_mul, div_mul_cancel₀ _ hpos.ne']
      _ ≤ 1 / 2 * spacing r := by gcongr
      _ = spacing r / 2 := by ring

/-- A number on its own grid is a double. -/
theorem nearestValue_of_eq_mul {r : Rat} {n : Int} (h : r = n * spacing r) : nearestValue r = r := by
  unfold nearestValue
  by_cases hr : r = 0
  · rw [if_pos hr, hr]
  · have hn : r / spacing r = n := by
      rw [div_eq_iff (spacing_pos r).ne']
      exact h
    rw [if_neg hr, hn, roundNearest_intCast]
    exact h.symm

theorem nearest_finite {r : Rat} (h : |r| ≤ 2 ^ 1023) : nearest r = .finite (nearestValue r) := by
  rw [nearest_eq, if_neg]
  rw [not_le]
  by_cases hr : r = 0
  · rw [hr, nearestValue, if_pos rfl, abs_zero]
    positivity
  · have hdist := abs_nearestValue_sub_le r
    have hspace := spacing_le_abs_add_one hr
    have htri : |nearestValue r| ≤ |nearestValue r - r| + |r| := by
      simpa using abs_sub_le (nearestValue r) r 0
    have hpow : (2 : Rat) ^ 1024 = 2 * 2 ^ 1023 := pow_succ' 2 1023
    have hbig : (1 : Rat) < 2 ^ 1023 := one_lt_pow₀ (by norm_num) (by decide)
    rw [hpow]
    generalize (2 : Rat) ^ 1023 = bound at h hbig
    linarith

/-- A double beyond `2 ^ (52 - k)` is a multiple of `2 ^ (-k)`. -/
theorem exists_nearestValue_eq_div {r : Rat} {k : Nat} (h : 2 ^ (52 - k : Int) ≤ |r|) :
    ∃ n : Int, nearestValue r = n / 2 ^ k := by
  by_cases hr : r = 0
  · exact ⟨0, by rw [hr, nearestValue, if_pos rfl]; simp⟩
  · have hexponent := le_binaryExponent_of_le_abs hr h
    obtain ⟨t, ht⟩ := Int.eq_ofNat_of_zero_le
      (show 0 ≤ max (binaryExponent r - 52) (-1074) + k by omega)
    have hspacing : spacing r = 2 ^ t / 2 ^ k := by
      rw [eq_div_iff (by positivity), spacing_eq, ← zpow_natCast, ← zpow_natCast, ← zpow_add₀ two_ne_zero, ht]
    refine ⟨roundNearest .toEven (r / spacing r) * 2 ^ t, ?_⟩
    rw [nearestValue, if_neg hr, hspacing]
    push_cast
    ring

/-- Below `2 ^ 53` the grid contains the integers. -/
theorem exists_inv_spacing {r : Rat} (hr : r ≠ 0) (h : |r| < 2 ^ 53) :
    ∃ k : Nat, (spacing r)⁻¹ = 2 ^ k := by
  have hlt := binaryExponent_lt_of_abs_lt hr (k := 53) (by exact_mod_cast h)
  refine ⟨(-(max (binaryExponent r - 52) (-1074))).toNat, ?_⟩
  rw [spacing_eq, ← zpow_neg, ← zpow_natCast, Int.toNat_of_nonneg (by omega)]

theorem nearestValue_intCast {n : Int} (h : |(n : Rat)| < 2 ^ 53) : nearestValue n = n := by
  by_cases hn : (n : Rat) = 0
  · rw [hn, nearestValue, if_pos rfl]
  · obtain ⟨k, hk⟩ := exists_inv_spacing hn h
    have hgrid : (n : Rat) = (n * 2 ^ k : Int) * spacing n := by
      push_cast
      rw [← hk, mul_assoc, inv_mul_cancel₀ (spacing_pos _).ne', mul_one]
    exact nearestValue_of_eq_mul hgrid

/-- Rounding to a double does not carry a number across an integer. -/
theorem abs_nearestValue_le {r : Rat} {n : Nat} (hn : n < 2 ^ 53) (h : |r| ≤ n) :
    |nearestValue r| ≤ n := by
  unfold nearestValue
  by_cases hr : r = 0
  · rw [if_pos hr, abs_zero]
    positivity
  · rw [if_neg hr]
    have hpos := spacing_pos r
    have hlt : |r| < 2 ^ 53 := lt_of_le_of_lt h (by exact_mod_cast hn)
    obtain ⟨k, hk⟩ := exists_inv_spacing hr hlt
    have hq : |r / spacing r| ≤ (n * 2 ^ k : Int) := by
      rw [div_eq_mul_inv, abs_mul, hk, abs_of_pos (by positivity : (0 : Rat) < 2 ^ k)]
      push_cast
      gcongr
    have hround : |(roundNearest .toEven (r / spacing r) : Rat)| ≤ n * 2 ^ k := by
      exact_mod_cast abs_roundNearest_le .toEven hq
    rw [abs_mul, abs_of_pos hpos, ← le_div_iff₀ hpos, div_eq_mul_inv (n : Rat), hk]
    exact hround

end Double
end KeypadCalc
