import KeypadCalc.Rounding
import Mathlib

/-!
# Rounding to the nearest integer

`roundNearest` is within one half of its argument, so an integer closer than one half to a number is
what that number rounds to. Only halfway between two integers does the tie rule decide.
-/
namespace KeypadCalc

theorem abs_roundNearest_sub_le (tie : Tie) (q : Rat) : |(roundNearest tie q : Rat) - q| ≤ 1 / 2 := by
  have hlo : (q.floor : Rat) ≤ q := Rat.floor_le q
  have hhi := Rat.lt_floor_add_one q
  push_cast at hhi
  rw [abs_le]
  cases tie <;> simp only [roundNearest] <;> split_ifs <;> push_cast <;> constructor <;> linarith

theorem eq_of_abs_sub_lt_one {m n : Int} (h : |(m : Rat) - n| < 1) : m = n := by
  have h' : |m - n| < 1 := by exact_mod_cast h
  have h0 := Int.abs_lt_one_iff.mp h'
  omega

theorem roundNearest_eq_of_abs_lt (tie : Tie) {q : Rat} {n : Int} (h : |q - n| < 1 / 2) :
    roundNearest tie q = n := by
  have hr := abs_roundNearest_sub_le tie q
  apply eq_of_abs_sub_lt_one
  calc |(roundNearest tie q : Rat) - n| ≤ |(roundNearest tie q : Rat) - q| + |q - n| :=
        abs_sub_le _ _ _
    _ < 1 / 2 + 1 / 2 := by linarith
    _ = 1 := by norm_num

theorem roundNearest_intCast (tie : Tie) (n : Int) : roundNearest tie (n : Rat) = n :=
  roundNearest_eq_of_abs_lt tie (by simp)

theorem floor_of_half_above {q : Rat} {n : Int} (h : q - n = 1 / 2) : q.floor = n := by
  have hle : n ≤ q.floor := Rat.le_floor_iff.mpr (by linarith)
  have hlt : q.floor < n + 1 := Rat.floor_lt_iff.mpr (by push_cast; linarith)
  omega

theorem floor_of_half_below {q : Rat} {n : Int} (h : q - n = -(1 / 2)) : q.floor = n - 1 := by
  have hle : n - 1 ≤ q.floor := Rat.le_floor_iff.mpr (by push_cast; linarith)
  have hlt : q.floor < n := Rat.floor_lt_iff.mpr (by linarith)
  omega

/-- A number halfway above an even integer, or below one, is rounded to that integer. -/
theorem roundNearest_toEven_of_half {q : Rat} {n : Int} (h : |q - n| = 1 / 2) (heven : n % 2 = 0) :
    roundNearest .toEven q = n := by
  rcases abs_eq (by norm_num : (0 : Rat) ≤ 1 / 2) |>.mp h with h | h
  · simp only [roundNearest, floor_of_half_above h, h, lt_irrefl, if_false, heven, if_true]
  · have hfloor := floor_of_half_below h
    have hexcess : q - (q.floor : Rat) = 1 / 2 := by
      rw [hfloor]
      push_cast
      linarith
    have hodd : ¬ q.floor % 2 = 0 := by omega
    simp only [roundNearest, hexcess, lt_irrefl, if_false, if_neg hodd]
    omega

/-- Only a number halfway between two integers is rounded to one at distance one half. -/
theorem sub_floor_of_half {tie : Tie} {q : Rat} (h : |q - roundNearest tie q| = 1 / 2) :
    q - q.floor = 1 / 2 := by
  have hlo : (q.floor : Rat) ≤ q := Rat.floor_le q
  have hhi := Rat.lt_floor_add_one q
  push_cast at hhi
  rcases lt_trichotomy (q - q.floor) (1 / 2) with hbelow | hhalf | habove
  · simp only [roundNearest, if_pos hbelow] at h
    rw [abs_of_nonneg (by linarith)] at h
    exact h
  · exact hhalf
  · simp only [roundNearest, if_neg habove.le.not_gt, if_pos habove] at h
    push_cast at h
    rw [abs_of_neg (by linarith)] at h
    linarith

/-- The tie rule leaves the other direction out: a result at distance one half is even. -/
theorem even_roundNearest_of_half {q : Rat} (h : |q - roundNearest .toEven q| = 1 / 2) :
    roundNearest .toEven q % 2 = 0 := by
  simp only [roundNearest, sub_floor_of_half h, lt_irrefl, if_false]
  split_ifs with heven
  · exact heven
  · omega

/-- When rounding half to even gives `n`. -/
theorem roundNearest_toEven_eq_iff {q : Rat} {n : Int} :
    roundNearest .toEven q = n ↔ |q - n| < 1 / 2 ∨ |q - n| = 1 / 2 ∧ n % 2 = 0 := by
  constructor
  · rintro rfl
    have hle := abs_roundNearest_sub_le .toEven q
    rw [abs_sub_comm] at hle
    rcases lt_or_eq_of_le hle with h | h
    · exact .inl h
    · exact .inr ⟨h, even_roundNearest_of_half h⟩
  · rintro (h | ⟨h, heven⟩)
    · exact roundNearest_eq_of_abs_lt .toEven h
    · exact roundNearest_toEven_of_half h heven

/-- A number halfway to an integer further from zero is rounded to that integer. -/
theorem roundNearest_awayFromZero_of_half {q : Rat} {n : Int} (h : |q - n| = 1 / 2)
    (hfar : |q| < |(n : Rat)|) : roundNearest .awayFromZero q = n := by
  rcases abs_eq (by norm_num : (0 : Rat) ≤ 1 / 2) |>.mp h with h | h
  · have hneg : n < 0 := by
      by_contra hn
      have hn' : (0 : Rat) ≤ n := by exact_mod_cast not_lt.mp hn
      rw [abs_of_nonneg hn', abs_of_nonneg (by linarith)] at hfar
      linarith
    have hq : ¬ 0 ≤ q := by
      have hn' : (n : Rat) ≤ -1 := by exact_mod_cast Int.le_sub_one_of_lt hneg
      linarith
    simp only [roundNearest, floor_of_half_above h, h, lt_irrefl, if_false, if_neg hq]
  · have hpos : 0 < n := by
      by_contra hn
      have hn' : (n : Rat) ≤ 0 := by exact_mod_cast not_lt.mp hn
      rw [abs_of_nonpos hn', abs_of_nonpos (by linarith)] at hfar
      linarith
    have hq : 0 ≤ q := by
      have hn' : (1 : Rat) ≤ n := by exact_mod_cast hpos
      linarith
    have hfloor := floor_of_half_below h
    have hexcess : q - (q.floor : Rat) = 1 / 2 := by
      rw [hfloor]
      push_cast
      linarith
    simp only [roundNearest, hexcess, lt_irrefl, if_false, if_pos hq]
    omega

/-- The other direction: a result at distance one half is further from zero. -/
theorem abs_lt_abs_roundNearest_of_half {q : Rat} (h : |q - roundNearest .awayFromZero q| = 1 / 2) :
    |q| < |(roundNearest .awayFromZero q : Rat)| := by
  have hexcess := sub_floor_of_half h
  simp only [roundNearest, hexcess, lt_irrefl, if_false]
  split_ifs with hq
  · push_cast
    rw [abs_of_nonneg hq, abs_of_nonneg (by linarith)]
    linarith
  · rw [abs_of_neg (not_le.mp hq), abs_of_neg (by linarith)]
    linarith

/-- When rounding half away from zero gives `n`. -/
theorem roundNearest_awayFromZero_eq_iff {q : Rat} {n : Int} :
    roundNearest .awayFromZero q = n ↔ |q - n| < 1 / 2 ∨ |q - n| = 1 / 2 ∧ |q| < |(n : Rat)| := by
  constructor
  · rintro rfl
    have hle := abs_roundNearest_sub_le .awayFromZero q
    rw [abs_sub_comm] at hle
    rcases lt_or_eq_of_le hle with h | h
    · exact .inl h
    · exact .inr ⟨h, abs_lt_abs_roundNearest_of_half h⟩
  · rintro (h | ⟨h, hfar⟩)
    · exact roundNearest_eq_of_abs_lt .awayFromZero h
    · exact roundNearest_awayFromZero_of_half h hfar

/-- Rounding keeps the order. Results in the wrong order would be a whole unit apart, and each of them is
within half a unit of its number. -/
theorem roundNearest_mono (tie : Tie) {q r : Rat} (h : q ≤ r) : roundNearest tie q ≤ roundNearest tie r := by
  rcases eq_or_lt_of_le h with rfl | hlt
  · exact le_rfl
  · have hq := (abs_le.mp (abs_roundNearest_sub_le tie q)).2
    have hr := (abs_le.mp (abs_roundNearest_sub_le tie r)).1
    have hclose : (roundNearest tie q : Rat) < roundNearest tie r + 1 := by linarith
    exact Int.lt_add_one_iff.mp (by exact_mod_cast hclose)

/-- Rounding does not carry a number across an integer. -/
theorem roundNearest_le_of_le (tie : Tie) {q : Rat} {n : Int} (h : q ≤ n) : roundNearest tie q ≤ n :=
  (roundNearest_mono tie h).trans_eq (roundNearest_intCast tie n)

theorem le_roundNearest_of_le (tie : Tie) {q : Rat} {n : Int} (h : (n : Rat) ≤ q) :
    n ≤ roundNearest tie q :=
  (roundNearest_intCast tie n).ge.trans (roundNearest_mono tie h)

theorem abs_roundNearest_le (tie : Tie) {q : Rat} {n : Int} (h : |q| ≤ n) : |roundNearest tie q| ≤ n := by
  obtain ⟨hlo, hhi⟩ := abs_le.mp h
  exact abs_le.mpr ⟨le_roundNearest_of_le tie (by push_cast; exact hlo), roundNearest_le_of_le tie hhi⟩

end KeypadCalc
