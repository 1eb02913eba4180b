import KeypadCalc.Text
import Mathlib

/-!
# Texts of digits

The number that a text of digits spells. It is below the power of ten that the length gives, so texts of
one length spell different numbers. Texts of different lengths may spell the same number, but only with
zeros in front: without a superfluous one, a text is what `Nat.toDigits` writes for its number.
-/
namespace KeypadCalc

theorem digitChar_ofDigit {c : Char} (h : c.isDigit = true) :
    ¬ 9 < c.toNat - '0'.toNat ∧ Nat.digitChar (c.toNat - '0'.toNat) = c := by
  obtain ⟨hlo, hhi⟩ : 48 ≤ c.toNat ∧ c.toNat ≤ 57 := Char.isDigit_iff_toNat.mp h
  have hzero : '0'.toNat = 48 := rfl
  refine ⟨by omega, ?_⟩
  apply Char.toNat_inj.mp
  rw [Nat.toNat_digitChar_of_lt_ten (by omega)]
  omega

theorem ofDigitChars_concat (ds : Text) (c : Char) (init : Nat) :
    Nat.ofDigitChars 10 (ds ++ [c]) init = 10 * Nat.ofDigitChars 10 ds init + (c.toNat - '0'.toNat) := by
  rw [Nat.ofDigitChars_append, Nat.ofDigitChars_cons, Nat.ofDigitChars_nil]

theorem ofDigitChars_lt {ds : Text} (h : ∀ c ∈ ds, c.isDigit = true) (init : Nat) :
    Nat.ofDigitChars 10 ds init < 10 ^ ds.length * (init + 1) := by
  induction ds generalizing init with
  | nil => simp
  | cons c ds ih =>
    obtain ⟨hc, -⟩ := digitChar_ofDigit (h c List.mem_cons_self)
    rw [Nat.ofDigitChars_cons]
    calc Nat.ofDigitChars 10 ds (10 * init + (c.toNat - '0'.toNat))
        < 10 ^ ds.length * (10 * init + (c.toNat - '0'.toNat) + 1) :=
          ih (fun d hd => h d (List.mem_cons_of_mem c hd)) _
      _ ≤ 10 ^ ds.length * (10 * (init + 1)) := by gcongr; omega
      _ = 10 ^ (c :: ds).length * (init + 1) := by rw [List.length_cons, pow_succ]; ring

/-- Texts of as many digits that spell the same number are the same text. -/
theorem eq_of_ofDigitChars_eq {ds es : Text} (hds : ∀ c ∈ ds, c.isDigit = true)
    (hes : ∀ c ∈ es, c.isDigit = true) (hlength : ds.length = es.length)
    (h : Nat.ofDigitChars 10 ds 0 = Nat.ofDigitChars 10 es 0) : ds = es := by
  induction ds using List.reverseRecOn generalizing es with
  | nil => exact (List.length_eq_zero_iff.mp hlength.symm).symm
  | append_singleton ds c ih =>
    rcases List.eq_nil_or_concat' es with rfl | ⟨es, d, rfl⟩
    · simp at hlength
    · obtain ⟨hc, hchar⟩ := digitChar_ofDigit (hds c (by simp))
      obtain ⟨hd, hdchar⟩ := digitChar_ofDigit (hes d (by simp))
      rw [ofDigitChars_concat, ofDigitChars_concat] at h
      have hlast : c = d := by
        rw [← hchar, ← hdchar]
        congr 1
        omega
      have hfront : ds = es :=
        ih (fun c hc => hds c (List.mem_append_left _ hc)) (fun c hc => hes c (List.mem_append_left _ hc))
          (by simpa using hlength) (by omega)
      rw [hfront, hlast]

/-- What is written for a number other than zero does not begin with a zero. -/
theorem head?_toDigits_ne_zero {n : Nat} (hn : n ≠ 0) : (Nat.toDigits 10 n).head? ≠ some '0' := by
  induction n using Nat.strongRecOn with
  | ind n ih =>
    rw [Nat.toDigits_eq_if (by decide)]
    split
    · simpa using hn
    · rename_i hten
      rw [List.head?_append_of_ne_nil _ Nat.toDigits_ne_nil]
      exact ih (n / 10) (by omega) (by omega)

/-- A text of digits without a superfluous zero in front is what is written for its number. -/
theorem toDigits_ofDigitChars {ds : Text} (hds : ∀ c ∈ ds, c.isDigit = true) (hne : ds ≠ [])
    (hzero : ds.head? = some '0' → ds = ['0']) : Nat.toDigits 10 (Nat.ofDigitChars 10 ds 0) = ds := by
  induction ds using List.reverseRecOn with
  | nil => exact absurd rfl hne
  | append_singleton ds c ih =>
    obtain ⟨hc, hchar⟩ := digitChar_ofDigit (hds c (by simp))
    rw [ofDigitChars_concat]
    by_cases hfront : ds = []
    · rw [hfront, Nat.ofDigitChars_nil, Nat.mul_zero, Nat.zero_add, Nat.toDigits_of_lt_base (by omega),
        hchar, List.nil_append]
    · have hhead : ds.head? ≠ some '0' := by
        intro h
        have hlength := congrArg List.length (hzero (by rw [List.head?_append_of_ne_nil _ hfront, h]))
        simp [hfront] at hlength
      have hwritten := ih (fun c hc => hds c (List.mem_append_left _ hc)) hfront fun h => absurd h hhead
      have hpos : 0 < Nat.ofDigitChars 10 ds 0 := by
        by_contra hnone
        rw [Nat.eq_zero_of_not_pos hnone, Nat.toDigits_zero] at hwritten
        exact hhead (by rw [← hwritten]; rfl)
      rw [← Nat.toDigits_append_toDigits (by decide) hpos (by omega), hwritten,
        Nat.toDigits_of_lt_base (by omega), hchar]

/-- The zeros at the end of a digit text are as many as the powers of ten in its number. -/
theorem exists_zeros_of_dvd {ds : Text} (hdigits : ∀ c ∈ ds, c.isDigit = true) {j : Nat}
    (hj : j ≤ ds.length) (h : 10 ^ j ∣ Nat.ofDigitChars 10 ds 0) :
    ∃ front, ds = front ++ List.replicate j '0' := by
  induction j generalizing ds with
  | zero => exact ⟨ds, by simp⟩
  | succ j ih =>
    rcases List.eq_nil_or_concat' ds with rfl | ⟨init, c, rfl⟩
    · cases hj
    · obtain ⟨hc, hchar⟩ := digitChar_ofDigit (hdigits c (by simp))
      rw [ofDigitChars_concat, pow_succ] at h
      have hten : 10 ∣ 10 * Nat.ofDigitChars 10 init 0 + (c.toNat - '0'.toNat) :=
        (dvd_mul_left 10 (10 ^ j)).trans h
      have hvalue : c.toNat - '0'.toNat = 0 := by omega
      rw [hvalue, Nat.add_zero, mul_comm] at h
      obtain ⟨front, rfl⟩ := ih (fun c hc => hdigits c (List.mem_append_left _ hc))
        (by simpa using hj) (Nat.dvd_of_mul_dvd_mul_left (by decide) h)
      rw [hvalue] at hchar
      exact ⟨front, by rw [List.replicate_succ', List.append_assoc, ← hchar]; rfl⟩

end KeypadCalc
