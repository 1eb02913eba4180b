import KeypadCalc.Proofs.ReadingErrors

/-!
# Tokens that are printed and read again

The text of a token has the characters of one token or of several: a sign and a fraction stroke are read as
operators. `Token.spelled` says which tokens are read where one is printed. The spaces between printed tokens
end every number, so a printed list is always read, as what its tokens spell one after the other. That is the
list itself exactly if its numbers are natural numbers. In any case the text determines the list: tokens that
spell the same are the same, and the spaces cut the text into those of the tokens.
-/
namespace KeypadCalc

namespace Numeral

/-- A natural number as it is printed. -/
def ofNat (n : Nat) : Numeral where
  whole := Nat.toDigits 10 n
  isDigit := by
    intro c hc
    rw [Option.getD_none, List.append_nil] at hc
    exact Nat.isDigit_of_mem_toDigits (by decide) (by decide) hc
  nonempty := List.append_ne_nil_of_left_ne_nil Nat.toDigits_ne_nil _

theorem text_ofNat (n : Nat) : (ofNat n).text = Nat.toDigits 10 n :=
  List.append_nil _

theorem value_ofNat (n : Nat) : (ofNat n).value = n := by
  show (Nat.ofDigitChars 10 (Nat.toDigits 10 n ++ []) 0 : Rat) / 10 ^ 0 = n
  rw [List.append_nil, Nat.ofDigitChars_ten_toDigits, pow_zero, div_one]

end Numeral

theorem Text.ReadsAs.natural (n : Nat) {rest : Text} {tokens : List Token}
    (hend : ∀ c ∈ rest.head?, Token.isNumeral c = false) (h : rest.ReadsAs tokens) :
    Text.ReadsAs (Nat.toDigits 10 n ++ rest) (.number n :: tokens) := by
  have hread := Text.ReadsAs.number (fun c hc => Numeral.mem_text hc) (Numeral.ofNat n).isNumber_text hend h
  rwa [Text.spelledNumber_text, Numeral.text_ofNat, Numeral.value_ofNat] at hread

/-- What is printed behind the numerator. -/
def denominatorText (r : Rat) : Text :=
  if r.den = 1 then [] else '/' :: Nat.toDigits 10 r.den

theorem ratText_eq (r : Rat) :
    ratText r =
      (if r.num < 0 then ['-'] else []) ++ (Nat.toDigits 10 r.num.natAbs ++ denominatorText r) := by
  unfold ratText integerText denominatorText
  split_ifs <;> simp

namespace Token

/-- The tokens that are read where a token is printed. -/
def spelled : Token → List Token
  | .number r =>
    (if r.num < 0 then [.op .sub] else []) ++
      .number r.num.natAbs :: if r.den = 1 then [] else [.op .div, .number r.den]
  | .op o => [.op o]
  | .opening => [.opening]
  | .closing => [.closing]

/-- A token is read as what it spells, unless what follows continues its number. -/
theorem readsAs_text (t : Token) {rest : Text} {tokens : List Token}
    (hend : ∀ c ∈ rest.head?, isNumeral c = false) (h : rest.ReadsAs tokens) :
    Text.ReadsAs (t.text ++ rest) (t.spelled ++ tokens) := by
  cases t with
  | op o => exact .op o h
  | opening => exact .opening h
  | closing => exact .closing h
  | number r =>
    have hborder : ∀ c ∈ (denominatorText r ++ rest).head?, isNumeral c = false := by
      unfold denominatorText
      split
      · exact hend
      · rintro _ ⟨⟩
        rfl
    have hdenominator : Text.ReadsAs (denominatorText r ++ rest)
        ((if r.den = 1 then [] else [.op .div, .number r.den]) ++ tokens) := by
      unfold denominatorText
      split
      · exact h
      · exact .op .div (.natural r.den hend h)
    have hnumerator := Text.ReadsAs.natural r.num.natAbs hborder hdenominator
    rw [text, ratText_eq, spelled, List.append_assoc, List.append_assoc, List.append_assoc]
    split
    · exact .op .sub hnumerator
    · exact hnumerator

theorem listText_singleton (t : Token) : listText [t] = t.text :=
  List.intercalate_singleton

theorem listText_cons_cons (t u : Token) (tokens : List Token) :
    listText (t :: u :: tokens) = t.text ++ ' ' :: listText (u :: tokens) := by
  simp [listText]

/-- The space behind a token ends its number. -/
theorem readsAs_listText (tokens : List Token) :
    Text.ReadsAs (listText tokens) (tokens.flatMap spelled) := by
  induction tokens with
  | nil => exact .done
  | cons t tokens ih =>
    cases tokens with
    | nil =>
      have hread : Text.ReadsAs (t.text ++ []) (t.spelled ++ []) := t.readsAs_text nofun .done
      rwa [List.append_nil, ← listText_singleton] at hread
    | cons u tokens =>
      have hspace : ∀ c ∈ (' ' :: listText (u :: tokens)).head?, isNumeral c = false := by
        rintro _ ⟨⟩
        rfl
      rw [listText_cons_cons, List.flatMap_cons]
      exact t.readsAs_text hspace (.blank (by decide) ih)

theorem ofText_listText (tokens : List Token) :
    ofText (listText tokens) = .ok (tokens.flatMap spelled) :=
  (Text.ofText_eq_ok_iff _ _).mpr (readsAs_listText tokens)

/-! ### Lists that are read as they are -/

theorem spelled_natural (n : Nat) : (number n).spelled = [.number n] := by
  rw [spelled, Rat.num_natCast, Rat.den_natCast, if_neg (by omega), if_pos rfl, Int.natAbs_natCast]
  rfl

theorem exists_natural_of_mem_spelled {t : Token} {r : Rat} (h : .number r ∈ t.spelled) :
    ∃ n : Nat, r = n := by
  cases t with
  | op o => simp [spelled] at h
  | opening => simp [spelled] at h
  | closing => simp [spelled] at h
  | number q =>
    rw [spelled, List.mem_append, List.mem_cons] at h
    rcases h with hsign | hnumerator | hdenominator
    · split at hsign <;> simp at hsign
    · exact ⟨q.num.natAbs, number.inj hnumerator⟩
    · split at hdenominator
      · cases hdenominator
      · exact ⟨q.den, by simpa using hdenominator⟩

theorem flatMap_spelled_eq_self_iff (tokens : List Token) :
    tokens.flatMap spelled = tokens ↔ ∀ r, Token.number r ∈ tokens → ∃ n : Nat, r = n := by
  constructor
  · intro h r hr
    rw [← h] at hr
    obtain ⟨t, -, hspelled⟩ := List.mem_flatMap.mp hr
    exact exists_natural_of_mem_spelled hspelled
  · intro h
    have hsingle : ∀ t ∈ tokens, t.spelled = [t] := by
      intro t ht
      cases t with
      | op o => rfl
      | opening => rfl
      | closing => rfl
      | number r =>
        obtain ⟨n, rfl⟩ := h r ht
        exact spelled_natural n
    rw [List.flatMap_congr hsingle]
    exact List.flatMap_singleton' tokens

/-! ### Lists that are printed alike -/

theorem head?_spelled_number (r : Rat) : (number r).spelled.head? = some (.op .sub) ↔ r.num < 0 := by
  rw [spelled]
  split
  · rename_i hsign
    exact iff_of_true rfl hsign
  · rename_i hsign
    exact iff_of_false nofun hsign

theorem eq_of_spelled_number_eq {r q : Rat} (h : (number r).spelled = (number q).spelled) : r = q := by
  -- the signs first, so that the same number of tokens stands before the numerators
  have hsign : r.num < 0 ↔ q.num < 0 := by
    rw [← head?_spelled_number r, h, head?_spelled_number q]
  simp only [spelled, hsign] at h
  obtain ⟨hnumerator, hdenominator⟩ := List.cons.inj (List.append_cancel_left h)
  have habs : r.num.natAbs = q.num.natAbs := Nat.cast_inj.mp (number.inj hnumerator)
  have hden : r.den = q.den := by
    split at hdenominator <;> split at hdenominator
    · rename_i hr hq
      exact hr.trans hq.symm
    · cases hdenominator
    · cases hdenominator
    · simpa using hdenominator
  exact Rat.ext (by omega) hden

theorem number_mem_spelled (r : Rat) : .number r.num.natAbs ∈ (number r).spelled := by
  simp [spelled]

theorem spelled_injective : Function.Injective spelled := by
  have hother {r : Rat} {t : Token} (ht : ∀ q, .number q ∉ t.spelled) : (number r).spelled ≠ t.spelled :=
    fun h => ht _ (h ▸ number_mem_spelled r)
  intro t u h
  cases t with
  | number r =>
    cases u with
    | number q => exact congrArg number (eq_of_spelled_number_eq h)
    | _ => exact absurd h (hother (by simp [spelled]))
  | _ =>
    cases u with
    | number q => exact absurd h.symm (hother (by simp [spelled]))
    | _ => exact (List.cons.inj h).1

theorem text_injective : Function.Injective text := by
  have hread (t : Token) : ofText t.text = .ok t.spelled := by
    rw [← listText_singleton, ofText_listText, List.flatMap_singleton]
  intro t u h
  have hsame := hread t
  rw [h, hread u] at hsame
  exact spelled_injective (Except.ok.inj hsame).symm

theorem text_ne_nil (t : Token) : t.text ≠ [] := by
  cases t with
  | op o => exact List.cons_ne_nil _ _
  | opening => exact List.cons_ne_nil _ _
  | closing => exact List.cons_ne_nil _ _
  | number r => simp [text, ratText_eq, Nat.toDigits_ne_nil]

theorem space_not_mem_text (t : Token) : ' ' ∉ t.text := by
  have hdigits (n : Nat) : ' ' ∉ Nat.toDigits 10 n := by
    intro h
    cases Nat.isDigit_of_mem_toDigits (by decide) (by decide) h
  cases t with
  | op o => cases o <;> decide
  | opening => decide
  | closing => decide
  | number r =>
    rw [text, ratText_eq, denominatorText]
    split_ifs <;> simp [hdigits]

theorem splitOn_listText {tokens : List Token} (h : tokens ≠ []) :
    (listText tokens).splitOn ' ' = tokens.map text := by
  refine List.splitOn_intercalate ' ' ?_ (by simpa using h)
  intro word hword
  obtain ⟨t, -, rfl⟩ := List.mem_map.mp hword
  exact t.space_not_mem_text

theorem listText_ne_nil {tokens : List Token} (h : tokens ≠ []) : listText tokens ≠ [] := by
  rcases tokens with _ | ⟨t, _ | ⟨u, tokens⟩⟩
  · exact absurd rfl h
  · rw [listText_singleton]
    exact t.text_ne_nil
  · rw [listText_cons_cons]
    exact List.append_ne_nil_of_left_ne_nil t.text_ne_nil _

theorem listText_injective : Function.Injective listText := by
  intro tokens tokens' h
  by_cases hempty : tokens = []
  · subst hempty
    by_contra hother
    exact listText_ne_nil (Ne.symm hother) h.symm
  · have hempty' : tokens' ≠ [] := by
      rintro rfl
      exact listText_ne_nil hempty h
    have hwords : tokens.map text = tokens'.map text := by
      rw [← splitOn_listText hempty, h, splitOn_listText hempty']
    exact List.map_injective_iff.mpr text_injective hwords

/-- A printed list of tokens, in any order, is read back exactly if its numbers are natural numbers. Two lists
are never printed alike, whatever rational numbers they have. -/
theorem listText_determines_tokens :
    (∀ tokens, ofText (listText tokens) = .ok tokens ↔
        ∀ r, Token.number r ∈ tokens → ∃ n : Nat, r = n) ∧
      Function.Injective listText := by
  refine ⟨fun tokens => ?_, listText_injective⟩
  rw [ofText_listText, Except.ok.injEq]
  exact flatMap_spelled_eq_self_iff tokens

/-- A list that is no expression is read back. A negative fraction is read as its parts, which are printed
with spaces between them. -/
theorem listText_of_unbalanced_tokens :
    let tokens : List Token := [.closing, .number 0, .number 120, .op .sub, .op .div, .opening]
    let fraction : List Token := [.number (-1 / 2)]
    let parts : List Token := [.op .sub, .number 1, .op .div, .number 2]
    ((∀ r, Token.number r ∈ tokens → ∃ n : Nat, r = n) ∧ ofText (listText tokens) = .ok tokens) ∧
      (fraction ≠ parts ∧ ofText (listText fraction) = .ok parts ∧ listText fraction ≠ listText parts) := by
  intro tokens fraction parts
  have hnatural : ∀ r, Token.number r ∈ tokens → ∃ n : Nat, r = n := by
    intro r hr
    have hvalue : r = 0 ∨ r = 120 := by simpa [tokens] using hr
    rcases hvalue with rfl | rfl
    · exact ⟨0, by norm_num⟩
    · exact ⟨120, by norm_num⟩
  have hne : fraction ≠ parts := by decide
  refine ⟨⟨hnatural, (listText_determines_tokens.1 tokens).mpr hnatural⟩, hne, by decide +kernel, ?_⟩
  exact listText_determines_tokens.2.ne hne

end Token
end KeypadCalc
