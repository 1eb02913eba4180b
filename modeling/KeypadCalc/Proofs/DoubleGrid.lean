import KeypadCalc.Proofs.DecimalDisplay

/-!
# The doubles and their decimals

A double has at most 53 binary digits over a power of two, so it lies on the grid that `nearest` rounds
to, and `nearest` leaves it where it is. The display writes a double as a decimal. That decimal is shown
unchanged: up to `2 ^ 26` every decimal is, and further out the doubles are more than a unit of the eighth
place apart, so that the double nearest to the decimal is the one it was written for. Rounding to eight
places, to a double and to eight places again is therefore the same as rounding once.
-/
namespace KeypadCalc

namespace Double

/-- At most 53 binary digits over a power of two that is not below the smallest spacing. -/
def IsDouble (x : Rat) : Prop :=
  ∃ m k : Int, |m| ≤ 2 ^ 53 ∧ -1074 ≤ k ∧ x = m * 2 ^ k

/-- A numerator of `2 ^ 53` is one of `2 ^ 52` over the next power of two. -/
theorem IsDouble.exists_lt {x : Rat} (hx : IsDouble x) :
    ∃ m k : Int, |m| < 2 ^ 53 ∧ -1074 ≤ k ∧ x = m * 2 ^ k := by
  obtain ⟨m, k, hm, hk, hvalue⟩ := hx
  rcases lt_or_eq_of_le hm with hlt | heq
  · exact ⟨m, k, hlt, hk, hvalue⟩
  · obtain ⟨half, rfl⟩ : ∃ half, m = half * 2 := by
      rcases abs_eq (by norm_num) |>.mp heq with rfl | rfl
      · exact ⟨2 ^ 52, by norm_num⟩
      · exact ⟨-2 ^ 52, by norm_num⟩
    rw [abs_mul, abs_two] at heq
    refine ⟨half, k + 1, by omega, by omega, ?_⟩
    rw [hvalue, zpow_add_one₀ two_ne_zero]
    push_cast
    ring

/-- A double is a multiple of the spacing around it. -/
theorem IsDouble.exists_eq_mul_spacing {x : Rat} (hx : IsDouble x) : ∃ n : Int, x = n * spacing x := by
  obtain ⟨m, k, hm, hk, hvalue⟩ := hx.exists_lt
  by_cases hzero : x = 0
  · exact ⟨0, by rw [Int.cast_zero, zero_mul, hzero]⟩
  · have hsmall : |x| < 2 ^ (53 + k) := by
      rw [hvalue, abs_mul, abs_of_pos (by positivity : (0 : Rat) < 2 ^ k), zpow_add₀ two_ne_zero]
      gcongr
      exact_mod_cast hm
    have hexponent := binaryExponent_lt_of_abs_lt hzero hsmall
    obtain ⟨t, ht⟩ := Int.eq_ofNat_of_zero_le
      (show 0 ≤ k - max (binaryExponent x - 52) (-1074) by omega)
    refine ⟨m * 2 ^ t, ?_⟩
    conv_lhs => rw [hvalue]
    rw [spacing_eq, Int.cast_mul, mul_assoc, Int.cast_pow, Int.cast_ofNat, ← zpow_natCast,
      ← zpow_add₀ two_ne_zero, ← ht, sub_add_cancel]

theorem IsDouble.nearestValue_eq {x : Rat} (hx : IsDouble x) : nearestValue x = x := by
  obtain ⟨n, hn⟩ := hx.exists_eq_mul_spacing
  exact nearestValue_of_eq_mul hn

theorem isDouble_nearestValue (r : Rat) : IsDouble (nearestValue r) := by
  by_cases hr : r = 0
  · exact ⟨0, 0, by norm_num, by norm_num, by rw [nearestValue, if_pos hr]; simp⟩
  · refine ⟨roundNearest .toEven (r / spacing r), max (binaryExponent r - 52) (-1074), ?_,
      le_max_right _ _, by rw [nearestValue, if_neg hr, spacing_eq]⟩
    have hdigits : |r / spacing r| ≤ (2 ^ 53 : Int) := by
      have hspacing : (2 : Rat) ^ (binaryExponent r - 52) ≤ spacing r := by
        rw [spacing_eq]
        exact zpow_le_zpow_right₀ one_le_two (le_max_left _ _)
      rw [abs_div, abs_of_pos (spacing_pos r), div_le_iff₀ (spacing_pos r)]
      calc |r| ≤ 2 ^ (binaryExponent r + 1) := (binaryExponent_bounds hr).2.le
        _ = 2 ^ 53 * 2 ^ (binaryExponent r - 52) := by
          rw [← zpow_natCast, ← zpow_add₀ two_ne_zero]
          congr 1
          push_cast
          ring
        _ ≤ (2 ^ 53 : Int) * spacing r := by
          rw [Int.cast_pow, Int.cast_ofNat]
          gcongr
    exact abs_roundNearest_le .toEven hdigits

/-- What 64 bits stand for is a double. -/
theorem isDouble_ofBits {bits : BitVec 64} {x : Rat} (h : ofBits bits = .finite x) : IsDouble x := by
  have hsigned {negative : Bool} {m k : Int} (hm : |m| ≤ 2 ^ 53) (hk : -1074 ≤ k)
      (hx : Double.finite (if negative then -((m : Rat) * 2 ^ k) else (m : Rat) * 2 ^ k) = .finite x) :
      IsDouble x := by
    obtain rfl := Double.finite.inj hx
    cases negative with
    | false => exact ⟨m, k, hm, hk, rfl⟩
    | true => exact ⟨-m, k, by rwa [abs_neg], hk, by push_cast; simp⟩
  have hfraction : bits.toNat % Nat.pow 2 52 < 2 ^ 52 := Nat.mod_lt _ (by decide)
  have hexponent : bits.toNat / Nat.pow 2 52 % Nat.pow 2 11 < 2 ^ 11 := Nat.mod_lt _ (by decide)
  unfold ofBits at h
  dsimp only at h
  generalize bits.toNat % Nat.pow 2 52 = fraction at h hfraction
  generalize bits.toNat / Nat.pow 2 52 % Nat.pow 2 11 = exponent at h hexponent
  split at h
  · split at h <;> cases h
  · split at h
    · rw [powerOfTwo_eq] at h
      refine hsigned (m := fraction) (k := -1074) ?_ (by omega) (by exact_mod_cast h)
      rw [abs_of_nonneg (by positivity)]
      omega
    · rw [powerOfTwo_eq] at h
      refine hsigned (m := (2 ^ 52 + fraction : Nat)) (k := exponent - 1075) ?_ (by omega)
        (by exact_mod_cast h)
      rw [abs_of_nonneg (by positivity)]
      omega

/-- A number rounds to the point of its grid that is less than half the spacing away. -/
theorem nearestValue_eq_of_abs_sub_lt {r x : Rat} {n : Int} (hr : r ≠ 0) (hx : x = n * spacing r)
    (h : |r - x| < spacing r / 2) : nearestValue r = x := by
  have hpos := spacing_pos r
  have hclose : |r / spacing r - n| < 1 / 2 := by
    rw [← mul_lt_mul_iff_left₀ hpos]
    calc |r / spacing r - n| * spacing r = |r - x| := by
          rw [hx, ← abs_of_pos hpos, ← abs_mul, abs_of_pos hpos, sub_mul, div_mul_cancel₀ _ hpos.ne']
      _ < 1 / 2 * spacing r := by linarith
  rw [nearestValue, if_neg hr, roundNearest_eq_of_abs_lt .toEven hclose, hx]

/-- Away from the smallest doubles a binade begins at `2 ^ 52` times its spacing. -/
theorem two_zpow_binaryExponent {r : Rat} (hnormal : -1022 ≤ binaryExponent r) :
    (2 : Rat) ^ binaryExponent r = 2 ^ 52 * spacing r := by
  rw [spacing_eq, max_eq_left (by omega), ← zpow_natCast, ← zpow_add₀ two_ne_zero]
  congr 1
  push_cast
  ring

/-- The 53 binary digits of a double that is not among the smallest. -/
theorem IsDouble.exists_significand {x : Rat} (hx : IsDouble x) (hzero : x ≠ 0)
    (hnormal : -1022 ≤ binaryExponent x) :
    ∃ n : Int, x = n * spacing x ∧ 2 ^ 52 ≤ |n| ∧ |n| < 2 ^ 53 := by
  have hpos := spacing_pos x
  obtain ⟨n, hn⟩ := hx.exists_eq_mul_spacing
  obtain ⟨hlo, hhi⟩ := binaryExponent_bounds hzero
  have habs : |x| = |n| * spacing x := by
    conv_lhs => rw [hn, abs_mul, abs_of_pos hpos]
    rw [Int.cast_abs]
  rw [zpow_add_one₀ two_ne_zero, two_zpow_binaryExponent hnormal, habs, mul_right_comm,
    mul_lt_mul_iff_left₀ hpos] at hhi
  rw [two_zpow_binaryExponent hnormal, habs, mul_le_mul_iff_left₀ hpos] at hlo
  exact ⟨n, hn, by exact_mod_cast hlo, by exact_mod_cast hhi⟩

/-- Strictly inside its binade a double is the nearest one to everything less than half the spacing away. -/
theorem nearestValue_of_inner {r x : Rat} {n : Int} (hnormal : -1022 ≤ binaryExponent x)
    (hx : x = n * spacing x) (hlo : 2 ^ 52 < |n|) (hhi : |n| < 2 ^ 53)
    (h : |r - x| < spacing x / 2) : nearestValue r = x := by
  have hpos := spacing_pos x
  have hbinade := two_zpow_binaryExponent hnormal
  have habs : |x| = |n| * spacing x := by
    conv_lhs => rw [hx, abs_mul, abs_of_pos hpos]
    rw [Int.cast_abs]
  have hfirst : (2 ^ 52 + 1) * spacing x ≤ |x| := by
    rw [habs]
    gcongr
    exact_mod_cast hlo
  have hlast : |x| ≤ (2 ^ 53 - 1) * spacing x := by
    rw [habs]
    gcongr
    exact_mod_cast Int.le_sub_one_of_lt hhi
  have hdist := abs_lt.mp ((abs_abs_sub_abs_le_abs_sub r x).trans_lt h)
  have hrlo : 2 ^ binaryExponent x ≤ |r| := by
    rw [hbinade]
    linarith
  have hrhi : |r| < 2 ^ (binaryExponent x + 1) := by
    rw [zpow_add_one₀ two_ne_zero, hbinade]
    linarith
  have hr : r ≠ 0 := by
    rintro rfl
    rw [abs_zero] at hrlo
    exact absurd hrlo (not_le.mpr (by positivity))
  have hsame : spacing r = spacing x := by
    rw [spacing_eq, spacing_eq, le_antisymm (Int.lt_add_one_iff.mp (binaryExponent_lt_of_abs_lt hr hrhi))
      (le_binaryExponent_of_le_abs hr hrlo)]
  exact nearestValue_eq_of_abs_sub_lt hr (hsame ▸ hx) (hsame ▸ h)

end Double

namespace Decimal

open Double

/-- A double beyond `2 ^ 26` is the double nearest to its decimal, which is less than half the spacing away.
A power of two is an integer, and equal to its decimal. -/
theorem nearestValue_round {x : Rat} (hx : IsDouble x) (hlarge : 2 ^ 26 ≤ |x|) :
    nearestValue (round .toEven x).toRat = x := by
  have hzero : x ≠ 0 := by
    rintro rfl
    norm_num at hlarge
  have hexponent : 26 ≤ binaryExponent x := le_binaryExponent_of_le_abs hzero (by exact_mod_cast hlarge)
  obtain ⟨n, hn, hlo, hhi⟩ := hx.exists_significand hzero (by omega)
  rcases lt_or_eq_of_le hlo with hlo | hpower
  · have hspacing : 2 ^ (26 - 52 : Int) ≤ spacing x := by
      rw [spacing_eq, max_eq_left (by omega)]
      exact zpow_le_zpow_right₀ one_le_two (by omega)
    have hround := abs_toRat_round_sub_le .toEven x
    rw [cast_unitsPerOne] at hround
    refine nearestValue_of_inner (by omega) hn hlo hhi (hround.trans_lt ?_)
    norm_num at hspacing ⊢
    linarith
  · obtain ⟨e, he⟩ := Int.eq_ofNat_of_zero_le (show 0 ≤ binaryExponent x by omega)
    have hbinade := two_zpow_binaryExponent (show -1022 ≤ binaryExponent x by omega)
    rw [he, zpow_natCast] at hbinade
    obtain ⟨z, hz⟩ : ∃ z : Int, x = z := by
      rcases (abs_eq (by norm_num)).mp hpower.symm with rfl | rfl
      · exact ⟨2 ^ e, by rw [hn]; push_cast; exact hbinade.symm⟩
      · exact ⟨-2 ^ e, by rw [hn]; push_cast; linarith⟩
    have hexact : (round .toEven x).toRat = x := by
      rw [hz, toRat_round_intCast]
    rw [hexact, hx.nearestValue_eq]

/-- The decimal of a double is shown unchanged. -/
theorem displayed_round {x : Rat} (hx : IsDouble x) :
    (round .toEven x).displayed = round .toEven x := by
  rcases le_total |x| (2 ^ 26) with hsmall | hlarge
  · have hround := abs_toRat_round_le .toEven (n := 2 ^ 26) (by exact_mod_cast hsmall)
    exact displayed_of_abs_le (by exact_mod_cast hround)
  · rw [displayed, nearestValue_round hx hlarge]

/-- A decimal has no places to round. -/
theorem round_toRat (tie : Tie) (d : Decimal) : round tie d.toRat = d := by
  rw [round, toRat_mul_unitsPerOne, roundNearest_intCast]

end Decimal
end KeypadCalc
