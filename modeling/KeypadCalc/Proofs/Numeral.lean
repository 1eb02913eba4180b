import KeypadCalc.Expression.Token
import KeypadCalc.Proofs.TextParts

/-!
# Numerals

A numeral is what a literal looks like: digits, at most one point among them, and at least one digit.
Its value is the number that the digits spell, divided by ten for every digit after the point. The
literal reader accepts a run of digits and points exactly when it is a numeral, and then it reads the
value; a minus in front of a numeral negates it.
-/
namespace KeypadCalc

structure Numeral where
  whole : Text
  /-- The digits after the point, `none` if there is no point. -/
  places : Option Text := none
  isDigit : ∀ c ∈ whole ++ places.getD [], c.isDigit = true
  nonempty : whole ++ places.getD [] ≠ []

namespace Numeral

/-- All digits, those after the point included. -/
def digits (n : Numeral) : Text :=
  n.whole ++ n.places.getD []

/-- The point and the digits after it. -/
def fraction (n : Numeral) : Text :=
  match n.places with
  | none => []
  | some ds => '.' :: ds

def text (n : Numeral) : Text :=
  n.whole ++ n.fraction

def value (n : Numeral) : Rat :=
  (Nat.ofDigitChars 10 n.digits 0 : Rat) / 10 ^ (n.places.getD []).length

end Numeral

theorem ne_of_isDigit {c d : Char} (hc : c.isDigit = true) (hd : d.isDigit = false) : c ≠ d := by
  rintro rfl
  rw [hc] at hd
  cases hd

namespace Literal

theorem natural?_digits {ds : Text} (hne : ds ≠ []) (h : ∀ c ∈ ds, c.isDigit = true) :
    natural? ds = some (Nat.ofDigitChars 10 ds 0) := by
  have hfilter : ds.filter Char.isDigit = ds := List.filter_eq_self.mpr h
  have hany : ds.any (fun d => !(d.isDigit || decide (d = '_'))) = false := by
    rw [List.any_eq_false]
    intro d hd
    simp [h d hd]
  cases ds with
  | nil => exact absurd rfl hne
  | cons c rest =>
    have hc : c ≠ '_' := ne_of_isDigit (h c List.mem_cons_self) rfl
    rw [natural?, hany, hfilter]
    simp [hc]

theorem integer?_digits {ds : Text} (hne : ds ≠ []) (h : ∀ c ∈ ds, c.isDigit = true) :
    integer? ds = some (Nat.ofDigitChars 10 ds 0 : Int) := by
  have hnat := natural?_digits hne h
  cases ds with
  | nil => exact absurd rfl hne
  | cons c rest =>
    have hminus : c ≠ '-' := ne_of_isDigit (h c List.mem_cons_self) rfl
    have hplus : c ≠ '+' := ne_of_isDigit (h c List.mem_cons_self) rfl
    rw [integer?.eq_2 _ (by simpa using hminus), unsigned?.eq_2 _ (by simpa using hplus), hnat]
    rfl

/-- The two halves of a literal are glued together, and the second one counts for the scale. -/
theorem value?_of_split {s whole places : Text} {z : Int} (hw : s.takeWhile (· ≠ '.') = whole)
    (hp : (s.dropWhile (· ≠ '.')).drop 1 = places) (hpoint : '.' ∉ places)
    (hne : whole ++ places ≠ []) (hz : integer? (whole ++ places) = some z) :
    value? s = some ((z : Rat) / 10 ^ places.length) := by
  have hboth : (whole.isEmpty && places.isEmpty) = false := by
    rw [Bool.and_eq_false_iff]
    by_cases h : whole = []
    · exact .inr (by simpa [h] using hne)
    · exact .inl (by simpa using h)
  rw [value?, hw, hp, hboth, hz]
  simp [hpoint, Rat.mkRat_eq_div]

/-- With one point at most, the halves on its sides have digits only. -/
theorem isDigit_halves {s : Text} (hs : ∀ c ∈ s, Token.isNumeral c = true)
    (hpoint : '.' ∉ (s.dropWhile (· ≠ '.')).drop 1) :
    ∀ c ∈ s.takeWhile (· ≠ '.') ++ (s.dropWhile (· ≠ '.')).drop 1, c.isDigit = true := by
  have hdigit : ∀ c ∈ s, c ≠ '.' → c.isDigit = true := by
    intro c hc hne
    simpa [Token.isNumeral, hne] using hs c hc
  intro c hc
  rcases List.mem_append.mp hc with hc | hc
  · exact hdigit c ((List.takeWhile_sublist _).mem hc) (by simpa using List.mem_takeWhile_imp hc)
  · have hmem := (List.dropWhile_sublist _).mem (List.mem_of_mem_drop hc)
    exact hdigit c hmem fun he => hpoint (he ▸ hc)

theorem value?_infinity (s : Text) : value? ('∞' :: s) = none := by
  have hinteger (s : Text) : integer? ('∞' :: s) = none := rfl
  have hwhole : ('∞' :: s).takeWhile (· ≠ '.') = '∞' :: s.takeWhile (· ≠ '.') :=
    List.takeWhile_cons_of_pos (by decide)
  rw [value?, hwhole, List.cons_append, hinteger, Option.map_none, ite_self]

end Literal

namespace Numeral

theorem isDigit_whole (n : Numeral) : ∀ c ∈ n.whole, c.isDigit = true := fun c hc =>
  n.isDigit c (List.mem_append_left _ hc)

theorem isDigit_places (n : Numeral) : ∀ c ∈ n.places.getD [], c.isDigit = true := fun c hc =>
  n.isDigit c (List.mem_append_right _ hc)

theorem point_not_mem_whole (n : Numeral) : '.' ∉ n.whole := fun h =>
  ne_of_isDigit (n.isDigit_whole '.' h) rfl rfl

theorem point_not_mem_places (n : Numeral) : '.' ∉ n.places.getD [] := fun h =>
  ne_of_isDigit (n.isDigit_places '.' h) rfl rfl

theorem head?_fraction {n : Numeral} {c : Char} (h : c ∈ n.fraction.head?) : c = '.' := by
  cases hp : n.places with
  | none => simp [fraction, hp] at h
  | some ds => simpa [fraction, hp, eq_comm] using h

theorem drop_fraction (n : Numeral) : n.fraction.drop 1 = n.places.getD [] := by
  cases hp : n.places <;> simp [fraction, hp]

/-- Where the point splits the text, also behind a sign. -/
theorem split_text (n : Numeral) {sign : Text} (hsign : '.' ∉ sign) :
    (sign ++ n.text).takeWhile (· ≠ '.') = sign ++ n.whole ∧
      ((sign ++ n.text).dropWhile (· ≠ '.')).drop 1 = n.places.getD [] := by
  have hrun : ∀ c ∈ sign ++ n.whole, decide (c ≠ '.') = true := by
    intro c hc
    rcases List.mem_append.mp hc with h | h
    · exact decide_eq_true fun he => hsign (he ▸ h)
    · exact decide_eq_true fun he => n.point_not_mem_whole (he ▸ h)
  have hrest : ∀ c ∈ n.fraction.head?, decide (c ≠ '.') = false := fun c hc => by
    simp [head?_fraction hc]
  rw [text, ← List.append_assoc, Text.takeWhile_run hrun hrest, Text.dropWhile_run hrun hrest]
  exact ⟨rfl, n.drop_fraction⟩

theorem value?_text (n : Numeral) : Literal.value? n.text = some n.value := by
  obtain ⟨hw, hp⟩ := n.split_text (show '.' ∉ ([] : Text) by simp)
  have hz := Literal.integer?_digits n.nonempty n.isDigit
  exact Literal.value?_of_split hw hp n.point_not_mem_places n.nonempty hz

theorem value?_minus_text (n : Numeral) : Literal.value? ('-' :: n.text) = some (-n.value) := by
  obtain ⟨hw, hp⟩ := n.split_text (show '.' ∉ ['-'] by decide)
  have hz : Literal.integer? (['-'] ++ n.whole ++ n.places.getD []) =
      some (-(Nat.ofDigitChars 10 n.digits 0 : Int)) := by
    rw [List.append_assoc]
    rw [List.singleton_append, Literal.integer?, Literal.natural?_digits n.nonempty n.isDigit]
    rfl
  have h := Literal.value?_of_split hw hp n.point_not_mem_places (by simp) hz
  rw [value, ← neg_div]
  exact_mod_cast h

theorem value_nonneg (n : Numeral) : 0 ≤ n.value := by
  unfold value
  positivity

theorem mem_text {n : Numeral} {c : Char} (h : c ∈ n.text) : Token.isNumeral c = true := by
  rw [text, List.mem_append] at h
  rcases h with h | h
  · simp [Token.isNumeral, n.isDigit_whole c h]
  · cases hp : n.places with
    | none => simp [fraction, hp] at h
    | some ds =>
      rw [fraction, hp, List.mem_cons] at h
      rcases h with rfl | h
      · rfl
      · have hd := n.isDigit_places c (by rw [hp]; exact h)
        simp [Token.isNumeral, hd]

theorem text_ne_nil (n : Numeral) : n.text ≠ [] := by
  intro h
  obtain ⟨hw, hf⟩ := List.append_eq_nil_iff.mp h
  apply n.nonempty
  rw [hw, ← n.drop_fraction, hf]
  rfl

theorem count_point_le (n : Numeral) : n.text.count '.' ≤ 1 := by
  have hwhole := List.count_eq_zero.mpr n.point_not_mem_whole
  have hplaces := List.count_eq_zero.mpr n.point_not_mem_places
  cases hp : n.places with
  | none => simp [text, fraction, hp, hwhole]
  | some ds =>
    rw [hp] at hplaces
    simpa [text, fraction, hp, hwhole] using hplaces

theorem length_text (n : Numeral) :
    n.text.length = n.whole.length + (if n.places.isSome then 1 else 0) + (n.places.getD []).length := by
  cases hp : n.places <;> simp [text, fraction, hp]
  omega

/-- A run of digits and points that the literal reader accepts is a numeral. -/
theorem exists_of_value? {s : Text} {v : Rat} (hs : ∀ c ∈ s, Token.isNumeral c = true)
    (hv : Literal.value? s = some v) : ∃ n : Numeral, n.text = s ∧ n.value = v := by
  have hsplit := (List.takeWhile_append_dropWhile (p := fun c => decide (c ≠ '.')) (l := s)).symm
  by_cases hbad : '.' ∈ (s.dropWhile (· ≠ '.')).drop 1 ∨
      s.takeWhile (· ≠ '.') = [] ∧ (s.dropWhile (· ≠ '.')).drop 1 = []
  · exfalso
    rw [Literal.value?, if_pos (by simpa using hbad)] at hv
    cases hv
  · obtain ⟨hpoint, hempty⟩ := not_or.mp hbad
    have hdigits := Literal.isDigit_halves hs hpoint
    suffices h : ∃ n : Numeral, n.text = s by
      obtain ⟨n, rfl⟩ := h
      exact ⟨n, rfl, Option.some.inj (n.value?_text.symm.trans hv)⟩
    cases hd : s.dropWhile (· ≠ '.') with
    | nil =>
      rw [hd] at hempty hsplit hdigits
      refine ⟨⟨s.takeWhile (· ≠ '.'), none, hdigits, by simpa using hempty⟩, ?_⟩
      simpa [text, fraction] using hsplit.symm
    | cons c ds =>
      have hc : c = '.' := by
        have h := List.head?_dropWhile_not (fun c => decide (c ≠ '.')) s
        rw [hd] at h
        simpa using h
      rw [hd, hc] at hsplit
      rw [hd] at hdigits hempty
      exact ⟨⟨s.takeWhile (· ≠ '.'), some ds, hdigits, by simpa using hempty⟩, hsplit.symm⟩

/-- Behind a minus the reader accepts what is a numeral, and negates it. -/
theorem exists_of_value?_minus {s : Text} {a : Rat} (hs : ∀ c ∈ s, Token.isNumeral c = true)
    (h : Literal.value? ('-' :: s) = some a) : ∃ n : Numeral, n.text = s ∧ a = -n.value := by
  suffices hread : ∃ b, Literal.value? s = some b by
    obtain ⟨b, hb⟩ := hread
    obtain ⟨n, rfl, -⟩ := exists_of_value? hs hb
    exact ⟨n, rfl, Option.some.inj (h.symm.trans n.value?_minus_text)⟩
  have hwhole : ('-' :: s).takeWhile (· ≠ '.') = '-' :: s.takeWhile (· ≠ '.') :=
    List.takeWhile_cons_of_pos (by decide)
  have hplaces : ('-' :: s).dropWhile (· ≠ '.') = s.dropWhile (· ≠ '.') :=
    List.dropWhile_cons_of_pos (by decide)
  rw [Literal.value?, hwhole, hplaces] at h
  have hpoint : '.' ∉ (s.dropWhile (· ≠ '.')).drop 1 := by
    intro hpoint
    rw [if_pos (by rw [decide_eq_true hpoint]; rfl)] at h
    cases h
  have hne : s.takeWhile (· ≠ '.') ++ (s.dropWhile (· ≠ '.')).drop 1 ≠ [] := by
    intro hnone
    obtain ⟨hw, hp⟩ := List.append_eq_nil_iff.mp hnone
    rw [hw, hp] at h
    cases h
  have hz := Literal.integer?_digits hne (Literal.isDigit_halves hs hpoint)
  exact ⟨_, Literal.value?_of_split rfl rfl hpoint hne hz⟩

end Numeral
end KeypadCalc
