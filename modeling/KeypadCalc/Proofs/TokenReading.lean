import KeypadCalc.Proofs.DenseTokens

/-!
# The tokens of any text

The reader of tokens looks at one character at a time and takes digits and points in maximal runs.
`Text.ReadsAs` spells out what it should find in a text: one token for every symbol and one for every run,
whose digits count for the powers of ten of their places. What is spelled out so is read, whatever follows it,
as long as that does not continue a run.
-/
namespace KeypadCalc

open Postfix (emit emit_ok emit_emit)

namespace Text

/-- What a run of digits and points needs to be a number. -/
structure IsNumber (run : Text) : Prop where
  digit : ∃ c ∈ run, c.isDigit = true
  points : run.count '.' ≤ 1

/-- What digits amount to, the first of which counts `10 ^ place` and each of the others a tenth of the one
before. -/
def placeValue (place : ℤ) : Text → Rat
  | [] => 0
  | c :: ds => ((c.toNat - '0'.toNat : Nat) : Rat) * 10 ^ place + placeValue (place - 1) ds

/-- The number that a run of digits and points spells. The digit before the point, or the last one if there
is no point, counts ones. -/
def spelledNumber (run : Text) : Rat :=
  placeValue ((run.takeWhile (· ≠ '.')).length - 1) (run.filter (· ≠ '.'))

/-- The tokens of a text, in order. Blanks are passed over; a run of digits and points that is a number may
not be followed by more of them, so it is taken as a whole. -/
inductive ReadsAs : Text → List Token → Prop
  | done : ReadsAs [] []
  | blank {c : Char} {rest : Text} {tokens : List Token} (hc : isBlank c = true)
      (h : ReadsAs rest tokens) : ReadsAs (c :: rest) tokens
  | op (o : BinaryOp) {rest : Text} {tokens : List Token} (h : ReadsAs rest tokens) :
      ReadsAs (o.symbol :: rest) (.op o :: tokens)
  | opening {rest : Text} {tokens : List Token} (h : ReadsAs rest tokens) :
      ReadsAs ('(' :: rest) (.opening :: tokens)
  | closing {rest : Text} {tokens : List Token} (h : ReadsAs rest tokens) :
      ReadsAs (')' :: rest) (.closing :: tokens)
  | number {run rest : Text} {tokens : List Token} (hrun : ∀ c ∈ run, Token.isNumeral c = true)
      (hnumber : run.IsNumber) (hend : ∀ c ∈ rest.head?, Token.isNumeral c = false)
      (h : ReadsAs rest tokens) : ReadsAs (run ++ rest) (.number run.spelledNumber :: tokens)

/-- No run of digits and points goes across the border of the two texts. -/
def CutsNoRun (front rest : Text) : Prop :=
  ∀ c ∈ front.getLast?, Token.isNumeral c = true → ∀ d ∈ rest.head?, Token.isNumeral d = false

end Text

namespace Numeral

theorem isNumber_text (n : Numeral) : n.text.IsNumber := by
  obtain ⟨c, hc⟩ := List.exists_mem_of_ne_nil _ n.nonempty
  refine ⟨⟨c, ?_, n.isDigit c hc⟩, n.count_point_le⟩
  rcases List.mem_append.mp hc with hwhole | hplaces
  · exact List.mem_append_left _ hwhole
  · rw [← n.drop_fraction] at hplaces
    exact List.mem_append_right _ (List.mem_of_mem_drop hplaces)

/-- A run of digits with at most one point among them is a numeral. -/
theorem exists_of_isNumber {run : Text} (hrun : ∀ c ∈ run, Token.isNumeral c = true)
    (h : run.IsNumber) : ∃ n : Numeral, n.text = run := by
  obtain ⟨d, hd, hdigit⟩ := h.digit
  have hdigits {part : Text} (hpart : ∀ c ∈ part, c ∈ run) (hpoint : '.' ∉ part) :
      ∀ c ∈ part, c.isDigit = true := by
    intro c hc
    have hne : c ≠ '.' := fun he => hpoint (he ▸ hc)
    simpa [Token.isNumeral, hne] using hrun c (hpart c hc)
  by_cases hpoint : '.' ∈ run
  · obtain ⟨whole, places, rfl⟩ := List.append_of_mem hpoint
    have hcount : whole.count '.' = 0 ∧ places.count '.' = 0 := by
      have hpoints := h.points
      rw [List.count_append, List.count_cons_self] at hpoints
      omega
    rw [List.count_eq_zero, List.count_eq_zero] at hcount
    have hwhole := hdigits (fun c hc => List.mem_append_left _ hc) hcount.1
    have hplaces := hdigits (fun c hc => List.mem_append_right _ (List.mem_cons_of_mem _ hc)) hcount.2
    have hmem : d ∈ whole ++ places := by
      rcases List.mem_append.mp hd with hd | hd
      · exact List.mem_append_left _ hd
      · rcases List.mem_cons.mp hd with rfl | hd
        · cases hdigit
        · exact List.mem_append_right _ hd
    exact ⟨⟨whole, some places, List.forall_mem_append.mpr ⟨hwhole, hplaces⟩, List.ne_nil_of_mem hmem⟩, rfl⟩
  · have hrest : run ++ (none : Option Text).getD [] = run := List.append_nil run
    refine ⟨⟨run, none, ?_, ?_⟩, List.append_nil run⟩
    · rw [hrest]
      exact hdigits (fun c hc => hc) hpoint
    · rw [hrest]
      exact List.ne_nil_of_mem hd

end Numeral

namespace Text

/-- The digits together are one integer, and the place of the last one says what it counts. -/
theorem placeValue_eq (place : ℤ) (ds : Text) :
    placeValue place ds = (Nat.ofDigitChars 10 ds 0 : Rat) * 10 ^ (place + 1 - ds.length) := by
  induction ds generalizing place with
  | nil => simp [placeValue]
  | cons c ds ih =>
    have hexponent : place - 1 + 1 - (ds.length : ℤ) = place + 1 - ((c :: ds).length : ℤ) := by
      rw [List.length_cons]
      push_cast
      ring
    have hplace : (10 : Rat) ^ place = 10 ^ ds.length * 10 ^ (place + 1 - ((c :: ds).length : ℤ)) := by
      rw [← zpow_natCast, ← zpow_add₀ (by norm_num)]
      congr 1
      rw [List.length_cons]
      push_cast
      ring
    have hdigits : Nat.ofDigitChars 10 (c :: ds) 0 =
        10 ^ ds.length * (c.toNat - '0'.toNat) + Nat.ofDigitChars 10 ds 0 := by
      rw [Nat.ofDigitChars_cons, Nat.ofDigitChars_eq_ofDigitChars_zero, Nat.mul_zero, Nat.zero_add]
    rw [placeValue, ih, hexponent, hplace, hdigits]
    push_cast
    ring

theorem spelledNumber_text (n : Numeral) : spelledNumber n.text = n.value := by
  have hwhole : n.text.takeWhile (· ≠ '.') = n.whole := (n.split_text (show '.' ∉ [] by simp)).1
  have hkeep {part : Text} (hpart : '.' ∉ part) : part.filter (· ≠ '.') = part :=
    List.filter_eq_self.mpr fun c hc => by simpa using fun he : c = '.' => hpart (he ▸ hc)
  have hfraction : n.fraction.filter (· ≠ '.') = n.places.getD [] := by
    have hplaces := hkeep n.point_not_mem_places
    cases hp : n.places with
    | none => simp [Numeral.fraction, hp]
    | some ds =>
      rw [hp] at hplaces
      simpa [Numeral.fraction, hp] using hplaces
  have hdigits : n.text.filter (· ≠ '.') = n.digits := by
    rw [Numeral.text, List.filter_append, hkeep n.point_not_mem_whole, hfraction, Numeral.digits]
  have hexponent : (n.whole.length : ℤ) - 1 + 1 - (n.digits.length : ℤ) =
      -((n.places.getD []).length : ℤ) := by
    rw [Numeral.digits, List.length_append]
    push_cast
    ring
  rw [spelledNumber, hwhole, hdigits, placeValue_eq, hexponent, zpow_neg, zpow_natCast, Numeral.value,
    div_eq_mul_inv]

theorem value?_of_isNumber {run : Text} (hrun : ∀ c ∈ run, Token.isNumeral c = true)
    (h : run.IsNumber) : Literal.value? run = some run.spelledNumber := by
  obtain ⟨n, rfl⟩ := Numeral.exists_of_isNumber hrun h
  rw [n.value?_text, spelledNumber_text]

theorem value?_of_not_isNumber {run : Text} (hrun : ∀ c ∈ run, Token.isNumeral c = true)
    (h : ¬run.IsNumber) : Literal.value? run = none := by
  cases hvalue : Literal.value? run with
  | none => rfl
  | some v =>
    obtain ⟨n, rfl, -⟩ := Numeral.exists_of_value? hrun hvalue
    exact absurd n.isNumber_text h

/-! ### Texts that are joined -/

theorem CutsNoRun.of_append {item front rest : Text} (h : CutsNoRun (item ++ front) rest) :
    CutsNoRun front rest :=
  fun c hc => h c (List.mem_getLast?_append_of_mem_getLast? hc)

theorem CutsNoRun.of_cons {c : Char} {front rest : Text} (h : CutsNoRun (c :: front) rest) :
    CutsNoRun front rest :=
  of_append (show CutsNoRun ([c] ++ front) rest from h)

/-- Behind a run that is not continued the reading goes on where the run has ended. -/
theorem CutsNoRun.head?_append {run front rest : Text} (h : CutsNoRun (run ++ front) rest)
    (hne : run ≠ []) (hrun : ∀ c ∈ run, Token.isNumeral c = true)
    (hend : ∀ c ∈ front.head?, Token.isNumeral c = false) :
    ∀ c ∈ (front ++ rest).head?, Token.isNumeral c = false := by
  cases front with
  | cons c front => exact hend
  | nil =>
    rw [List.append_nil] at h
    have hlast := List.getLast?_eq_some_getLast hne
    exact h _ hlast (hrun _ (List.getLast_mem hne))

/-- What is read at the beginning of a text is read whatever follows, unless that continues a number. -/
theorem ReadsAs.ofText_append {front rest : Text} {tokens : List Token} (h : front.ReadsAs tokens)
    (hcut : CutsNoRun front rest) :
    Token.ofText (front ++ rest) = emit tokens (Token.ofText rest) := by
  induction h with
  | done => cases hrest : Token.ofText rest <;> simp [emit, Except.map, hrest]
  | @blank c front tokens hc _ ih =>
    rw [List.cons_append, Token.ofText, if_pos hc]
    exact ih hcut.of_cons
  | @op o front tokens _ ih =>
    rw [List.cons_append, Token.ofText_symbol, ih hcut.of_cons, emit_emit]
    rfl
  | @opening front tokens _ ih =>
    rw [List.cons_append, Token.ofText_char (by decide) rfl, ih hcut.of_cons, emit_emit]
    rfl
  | @closing front tokens _ ih =>
    rw [List.cons_append, Token.ofText_char (by decide) rfl, ih hcut.of_cons, emit_emit]
    rfl
  | @number run front tokens hrun hnumber hend _ ih =>
    obtain ⟨d, hd, -⟩ := hnumber.digit
    have hne : run ≠ [] := List.ne_nil_of_mem hd
    rw [List.append_assoc, Token.ofText_run hne hrun (hcut.head?_append hne hrun hend),
      value?_of_isNumber hrun hnumber]
    dsimp only
    rw [ih hcut.of_append, emit_emit]
    rfl

end Text
end KeypadCalc
