import KeypadCalc.Proofs.CanonicalText
import KeypadCalc.Proofs.DoubleGrid

/-!
# The text of a double

Up to the overflow threshold a double is shown as the canonical text of the multiple of `10 ^ (-8)` that is
nearest to its exact value. What is so close to zero that it is shown as zero without being rounded is no
exception. Rounding keeps the order, and so does the display. The text is shorter than the sixteen digits and
eight places of the threshold suggest: a double below `10 ^ 14` has at most fourteen digits and eight places;
the doubles beyond are multiples of `1 / 64`, and six places are enough for them.
-/
namespace KeypadCalc

namespace Decimal

open Double

/-- A double that is rounded to `10 ^ 14` or more leaves the last two places at zero. -/
theorem dvd_units_round {x : Rat} (hx : IsDouble x) (h : 10 ^ 22 ≤ (round .toEven x).units.natAbs) :
    10 ^ 2 ∣ (round .toEven x).units.natAbs := by
  have hfar : 2 ^ (52 - (6 : Nat) : Int) ≤ |x| := by
    by_contra hnear
    have hsmall : |x| ≤ (2 ^ 46 : Nat) := by
      norm_num at hnear ⊢
      exact hnear.le
    exact absurd (h.trans (natAbs_units_round_le .toEven hsmall)) (by decide)
  obtain ⟨n, hn⟩ := exists_nearestValue_eq_div hfar
  rw [hx.nearestValue_eq] at hn
  have hgrid : x * unitsPerOne = (n * 1562500 : Int) := by
    rw [hn, cast_unitsPerOne]
    push_cast
    ring
  have hunits : (round .toEven x).units = n * 1562500 := by
    rw [round, hgrid, roundNearest_intCast]
  rw [hunits, Int.natAbs_mul]
  exact Dvd.dvd.mul_left (by decide) _

theorem length_render_round_le {x : Rat} (hx : IsDouble x) (h : |x| ≤ 10 ^ 15) :
    (round .toEven x).render.length ≤ 24 := by
  have hunits := natAbs_units_round_le .toEven (n := 10 ^ 15) (by exact_mod_cast h)
  rcases Nat.lt_or_ge (round .toEven x).units.natAbs (10 ^ 22) with hsmall | hlarge
  · exact length_render_add_le (k := 14) (by decide) hsmall (Nat.zero_le 8) (one_dvd _)
  · have hlength := length_render_add_le (k := 16) (by decide) (lt_of_le_of_lt hunits (by decide))
      (by decide) (dvd_units_round hx hlarge)
    exact Nat.le_of_add_le_add_right hlength

end Decimal

namespace Double

/-- What is read back from the text of a double. -/
theorem value?_displayText_ofBits {bits : BitVec 64} {x : Rat} (hbits : ofBits bits = .finite x)
    (hx : |x| ≤ 10 ^ 15) :
    Literal.value? (ofBits bits).displayText =
      some ((roundNearest .toEven (x * 10 ^ 8) : Rat) / 10 ^ 8) := by
  rw [hbits, displayText_of_abs_le hx]
  exact ((Decimal.eq_render_round_iff .toEven x _).mp rfl).2

/-- Up to the overflow threshold the text of a double is canonical and has at most 24 characters. It is read
as the multiple of `10 ^ (-8)` nearest to the double, of two equally near ones the one whose last place is
even, and no other canonical text is. Of two doubles the smaller one is never shown as the larger number. -/
theorem displayText_canonical {bits : BitVec 64} {x : Rat} (hbits : ofBits bits = .finite x)
    (hx : |x| ≤ 10 ^ 15) :
    let nearest : Int := roundNearest .toEven (x * 10 ^ 8)
    let shown := (ofBits bits).displayText
    (∀ q : Int, nearest = q ↔
        |x * 10 ^ 8 - q| < 1 / 2 ∨ |x * 10 ^ 8 - q| = 1 / 2 ∧ q % 2 = 0) ∧
      (∀ s : Text, s = shown ↔
        s.IsCanonicalDecimal ∧ Literal.value? s = some ((nearest : Rat) / 10 ^ 8)) ∧
      shown.length ≤ 24 ∧
      ∀ (bits' : BitVec 64) (y : Rat), ofBits bits' = .finite y → |y| ≤ 10 ^ 15 → x ≤ y →
        ∃ a b : Rat, Literal.value? shown = some a ∧
          Literal.value? (ofBits bits').displayText = some b ∧ a ≤ b := by
  intro nearest shown
  have hshown : shown = (Decimal.round .toEven x).render := by
    show (ofBits bits).displayText = _
    rw [hbits, displayText_of_abs_le hx]
  refine ⟨fun q => roundNearest_toEven_eq_iff, fun s => ?_, ?_, fun bits' y hbits' hy hxy => ?_⟩
  · rw [hshown]
    exact Decimal.eq_render_round_iff .toEven x s
  · rw [hshown]
    exact Decimal.length_render_round_le (isDouble_ofBits hbits) hx
  · have horder : nearest ≤ roundNearest .toEven (y * 10 ^ 8) := roundNearest_mono .toEven (by linarith)
    have hvalues : (nearest : Rat) / 10 ^ 8 ≤ roundNearest .toEven (y * 10 ^ 8) / 10 ^ 8 := by
      gcongr
    exact ⟨_, _, value?_displayText_ofBits hbits hx, value?_displayText_ofBits hbits' hy, hvalues⟩

/-- The double `-3 / 512` lies halfway between two multiples of `10 ^ (-8)` and goes to the even one;
`2 ^ (-60)` is below every number of interest. -/
theorem displayText_of_tie :
    let shown := (ofBits 0xBF78000000000000#64).displayText
    ofBits 0xBF78000000000000#64 = .finite (-3 / 512) ∧ shown = "-0.00585938".toList ∧
      shown.length ≤ 24 ∧
      ∃ a b : Rat, Literal.value? shown = some a ∧
        Literal.value? (ofBits 0x3C30000000000000#64).displayText = some b ∧ a ≤ b := by
  intro shown
  have hx : ofBits 0xBF78000000000000#64 = .finite (-3 / 512) := by decide +kernel
  have hy : ofBits 0x3C30000000000000#64 = .finite (1 / 2 ^ 60) := by decide +kernel
  obtain ⟨-, -, hlength, horder⟩ := displayText_canonical hx (by norm_num)
  exact ⟨hx, by decide +kernel, hlength, horder _ _ hy (by norm_num) (by norm_num)⟩

end Double
end KeypadCalc
