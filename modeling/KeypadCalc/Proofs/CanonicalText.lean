import KeypadCalc.Proofs.DecimalText

/-!
# The canonical text of a decimal

Of all the texts that are read as one number, one has nothing superfluous: no zero in front of the integer
part, no zero behind the last place, no point without places, and a minus only where there is something to
negate. Such a text is determined by its number, since padding its places to the full count shows all digits
of a fixed-point number. `Decimal.render` writes this text, and it is the only one of its kind that is read as
the decimal.
-/
namespace KeypadCalc

namespace Numeral

/-- No digit can be left out, and there are no more places than a decimal has. -/
structure IsCanonical (n : Numeral) : Prop where
  whole_ne_nil : n.whole ≠ []
  no_leading_zero : n.whole.head? = some '0' → n.whole = ['0']
  length_places : ∀ ds ∈ n.places, 1 ≤ ds.length ∧ ds.length ≤ decimalPlaces
  no_trailing_zero : ∀ ds ∈ n.places, ds.getLast? ≠ some '0'

end Numeral

/-- A canonical numeral, which may have a minus in front if it is not zero. -/
def Text.IsCanonicalDecimal (s : Text) : Prop :=
  ∃ n : Numeral, n.IsCanonical ∧ (s = n.text ∨ s = '-' :: n.text ∧ n.text ≠ ['0'])

namespace Numeral

/-- The places of a numeral, with zeros behind them up to `decimalPlaces`. -/
def paddedPlaces (n : Numeral) : Text :=
  n.places.getD [] ++ List.replicate (decimalPlaces - (n.places.getD []).length) '0'

theorem isDigit_paddedPlaces (n : Numeral) : ∀ c ∈ n.paddedPlaces, c.isDigit = true := by
  intro c hc
  rcases List.mem_append.mp hc with h | h
  · exact n.isDigit_places c h
  · rw [List.eq_of_mem_replicate h]
    rfl

namespace IsCanonical

variable {m n : Numeral}

theorem length_places_le (hn : n.IsCanonical) : (n.places.getD []).length ≤ decimalPlaces := by
  cases hp : n.places with
  | none => exact Nat.zero_le _
  | some ds => exact (hn.length_places ds hp).2

theorem length_paddedPlaces (hn : n.IsCanonical) : n.paddedPlaces.length = decimalPlaces := by
  have h := hn.length_places_le
  rw [paddedPlaces, List.length_append, List.length_replicate]
  omega

/-- The number as a fixed-point number: the padded places are the units below one. -/
theorem value_mul_unitsPerOne (hn : n.IsCanonical) :
    n.value * unitsPerOne =
      (unitsPerOne * Nat.ofDigitChars 10 n.whole 0 + Nat.ofDigitChars 10 n.paddedPlaces 0 : Nat) := by
  have hbehind (init : Nat) : Nat.ofDigitChars 10 n.paddedPlaces init =
      unitsPerOne * init + Nat.ofDigitChars 10 n.paddedPlaces 0 := by
    rw [Nat.ofDigitChars_eq_ofDigitChars_zero, hn.length_paddedPlaces]
    rfl
  have hdigits : 10 ^ (decimalPlaces - (n.places.getD []).length) * Nat.ofDigitChars 10 n.digits 0 =
      unitsPerOne * Nat.ofDigitChars 10 n.whole 0 + Nat.ofDigitChars 10 n.paddedPlaces 0 := by
    rw [← Nat.ofDigitChars_replicate_zero, ← Nat.ofDigitChars_append, digits, List.append_assoc,
      ← paddedPlaces, Nat.ofDigitChars_append, hbehind]
  have hscale : (unitsPerOne : Rat) =
      10 ^ (decimalPlaces - (n.places.getD []).length) * 10 ^ (n.places.getD []).length := by
    rw [← pow_add, Nat.sub_add_cancel hn.length_places_le, Decimal.cast_unitsPerOne]
    rfl
  rw [← hdigits, value, hscale]
  push_cast
  field_simp

/-- The zeros that pad the places are the only ones at their end. -/
theorem dropEndWhile_paddedPlaces (hn : n.IsCanonical) :
    Text.dropEndWhile (· = '0') n.paddedPlaces = n.places.getD [] := by
  rw [paddedPlaces, Text.dropEndWhile_run _ fun c hc => decide_eq_true (List.eq_of_mem_replicate hc)]
  cases hp : n.places with
  | none => rfl
  | some ds =>
    rw [Option.getD_some]
    refine List.rdropWhile_eq_self_iff.mpr fun hne hzero => hn.no_trailing_zero ds hp ?_
    rw [List.getLast?_eq_getLast_of_ne_nil hne, of_decide_eq_true hzero]

/-- The point is written when there are places. -/
theorem places_eq (hn : n.IsCanonical) :
    n.places = if n.places.getD [] = [] then none else some (n.places.getD []) := by
  cases hp : n.places with
  | none => rfl
  | some ds =>
    have hne : ds ≠ [] := List.ne_nil_of_length_pos (hn.length_places ds hp).1
    simp [hne]

theorem ofDigitChars_paddedPlaces_lt (hn : n.IsCanonical) :
    Nat.ofDigitChars 10 n.paddedPlaces 0 < unitsPerOne := by
  have hlt := ofDigitChars_lt n.isDigit_paddedPlaces 0
  rw [hn.length_paddedPlaces] at hlt
  exact hlt

/-- Numerals with the same value spell the same numbers on both sides of the point. -/
theorem ofDigitChars_eq_of_value_eq (hm : m.IsCanonical) (hn : n.IsCanonical) (h : m.value = n.value) :
    Nat.ofDigitChars 10 m.whole 0 = Nat.ofDigitChars 10 n.whole 0 ∧
      Nat.ofDigitChars 10 m.paddedPlaces 0 = Nat.ofDigitChars 10 n.paddedPlaces 0 := by
  have hscaled : m.value * unitsPerOne = n.value * unitsPerOne := by rw [h]
  rw [hm.value_mul_unitsPerOne, hn.value_mul_unitsPerOne, Nat.cast_inj] at hscaled
  have hm' := hm.ofDigitChars_paddedPlaces_lt
  have hn' := hn.ofDigitChars_paddedPlaces_lt
  rw [Decimal.unitsPerOne_eq] at hscaled hm' hn'
  omega

/-- A canonical numeral is determined by its value. -/
theorem eq_of_value_eq (hm : m.IsCanonical) (hn : n.IsCanonical) (h : m.value = n.value) : m = n := by
  obtain ⟨hbefore, hbehind⟩ := hm.ofDigitChars_eq_of_value_eq hn h
  have hwhole : m.whole = n.whole := by
    rw [← toDigits_ofDigitChars m.isDigit_whole hm.whole_ne_nil hm.no_leading_zero, hbefore,
      toDigits_ofDigitChars n.isDigit_whole hn.whole_ne_nil hn.no_leading_zero]
  have hpadded : m.paddedPlaces = n.paddedPlaces :=
    eq_of_ofDigitChars_eq m.isDigit_paddedPlaces n.isDigit_paddedPlaces
      (hm.length_paddedPlaces.trans hn.length_paddedPlaces.symm) hbehind
  have hplaces : m.places = n.places := by
    rw [hm.places_eq, hn.places_eq, ← hm.dropEndWhile_paddedPlaces, ← hn.dropEndWhile_paddedPlaces, hpadded]
  cases m
  cases n
  subst hwhole hplaces
  rfl

end IsCanonical
end Numeral

namespace Decimal

theorem keptDigits_ne_nil {units : Nat} (hlt : units < unitsPerOne) (h : units ≠ 0) :
    keptDigits units ≠ [] := by
  intro hnil
  obtain ⟨zeros, hzeros⟩ := exists_paddedDigits units
  have hvalue := ofDigitChars_paddedDigits hlt 0
  rw [hzeros, hnil, List.nil_append, Nat.ofDigitChars_replicate_zero] at hvalue
  omega

theorem isCanonical_numeral (d : Decimal) : d.numeral.IsCanonical := by
  have hlt : d.units.natAbs % unitsPerOne < unitsPerOne := Nat.mod_lt _ (by decide)
  have hplaces : ∀ ds ∈ d.numeral.places,
      d.units.natAbs % unitsPerOne ≠ 0 ∧ ds = keptDigits (d.units.natAbs % unitsPerOne) := by
    intro ds hds
    rw [numeral, Option.mem_def] at hds
    split at hds
    · cases hds
    · rename_i hne
      exact ⟨hne, (Option.some.inj hds).symm⟩
  constructor
  case whole_ne_nil => exact Nat.toDigits_ne_nil
  case no_leading_zero =>
    intro hzero
    by_cases h : d.units.natAbs / unitsPerOne = 0
    · show Nat.toDigits 10 (d.units.natAbs / unitsPerOne) = ['0']
      rw [h, Nat.toDigits_zero]
    · exact absurd hzero (head?_toDigits_ne_zero h)
  case length_places =>
    intro ds hds
    obtain ⟨hne, rfl⟩ := hplaces ds hds
    exact ⟨List.length_pos_iff.mpr (keptDigits_ne_nil hlt hne),
      length_keptDigits_add_le hlt (Nat.zero_le _) (one_dvd _)⟩
  case no_trailing_zero =>
    intro ds hds hlast
    obtain ⟨-, rfl⟩ := hplaces ds hds
    have hnot := Text.getLast?_dropEndWhile _ _ hlast
    simp at hnot

theorem text_numeral_zero : (⟨0⟩ : Decimal).numeral.text = ['0'] := by decide

end Decimal

namespace Numeral.IsCanonical

/-- Zero is the only canonical numeral that takes no minus. -/
theorem value_eq_zero_iff {n : Numeral} (hn : n.IsCanonical) : n.value = 0 ↔ n.text = ['0'] := by
  have hzero : (⟨0⟩ : Decimal).numeral.value = 0 := by
    rw [Decimal.value_numeral]
    norm_num
  constructor
  · intro h
    rw [hn.eq_of_value_eq (Decimal.isCanonical_numeral ⟨0⟩) (h.trans hzero.symm), Decimal.text_numeral_zero]
  · intro h
    have hread := n.value?_text
    rw [h, ← Decimal.text_numeral_zero, Numeral.value?_text, hzero] at hread
    exact (Option.some.inj hread).symm

theorem value_ne_neg (m : Numeral) {n : Numeral} (hn : n.IsCanonical) (hzero : n.text ≠ ['0']) :
    m.value ≠ -n.value := by
  intro h
  have hm := m.value_nonneg
  have hnonneg := n.value_nonneg
  exact hzero (hn.value_eq_zero_iff.mp (by linarith))

end Numeral.IsCanonical

/-- No two canonical texts are read as the same number. -/
theorem Text.IsCanonicalDecimal.eq_of_value?_eq {s t : Text} (hs : s.IsCanonicalDecimal)
    (ht : t.IsCanonicalDecimal) (h : Literal.value? s = Literal.value? t) : s = t := by
  obtain ⟨m, hm, rfl | ⟨rfl, hmzero⟩⟩ := hs <;> obtain ⟨n, hn, rfl | ⟨rfl, hnzero⟩⟩ := ht
  · rw [m.value?_text, n.value?_text] at h
    rw [hm.eq_of_value_eq hn (Option.some.inj h)]
  · rw [m.value?_text, n.value?_minus_text] at h
    exact absurd (Option.some.inj h) (hn.value_ne_neg m hnzero)
  · rw [m.value?_minus_text, n.value?_text] at h
    exact absurd (Option.some.inj h).symm (hm.value_ne_neg n hmzero)
  · rw [m.value?_minus_text, n.value?_minus_text] at h
    rw [hm.eq_of_value_eq hn (neg_injective (Option.some.inj h))]

namespace Decimal

theorem isCanonicalDecimal_render (d : Decimal) : d.render.IsCanonicalDecimal := by
  refine ⟨d.numeral, d.isCanonical_numeral, ?_⟩
  rw [render_eq, sign]
  split
  · rename_i hneg
    refine .inr ⟨rfl, fun hzero => ?_⟩
    have hvalue := d.isCanonical_numeral.value_eq_zero_iff.mpr hzero
    rw [value_numeral, div_eq_zero_iff, Nat.cast_eq_zero, Int.natAbs_eq_zero] at hvalue
    rcases hvalue with h | h
    · omega
    · exact absurd h (by decide)
  · exact .inl rfl

/-- The written form is the canonical text that is read as the decimal. -/
theorem eq_render_iff (d : Decimal) (s : Text) :
    s = d.render ↔ s.IsCanonicalDecimal ∧ Literal.value? s = some d.toRat := by
  constructor
  · rintro rfl
    exact ⟨d.isCanonicalDecimal_render, d.value?_render⟩
  · rintro ⟨hs, hread⟩
    exact hs.eq_of_value?_eq d.isCanonicalDecimal_render (hread.trans d.value?_render.symm)

/-- What is written for a rounded number. -/
theorem eq_render_round_iff (tie : Tie) (r : Rat) (s : Text) :
    s = (round tie r).render ↔
      s.IsCanonicalDecimal ∧ Literal.value? s = some ((roundNearest tie (r * 10 ^ 8) : Rat) / 10 ^ 8) := by
  rw [eq_render_iff, toRat_eq, round, cast_unitsPerOne]

end Decimal

end KeypadCalc
