import KeypadCalc.Expression.Admission
import KeypadCalc.Proofs.DenseTokens

/-!
# The shape of admitted texts

The checks before an evaluation look at the trimmed text, at that text without blanks, and at both. Once
a text has only expression characters, no forbidden word can be in it, and the conditions on operators
are conditions on the dense form. Only the search for two points or two percent signs in a row is not:
blanks between them hide them from it.
-/
namespace KeypadCalc

/-- No expression character is an upper case letter. -/
theorem toLower_of_isExpressionChar {c : Char} (h : isExpressionChar c = true) : c.toLower = c := by
  rw [Char.toLower, dif_neg]
  rintro ⟨hlo, hhi⟩
  have hlo : 65 ≤ c.toNat := hlo
  have hhi : c.toNat ≤ 90 := hhi
  simp only [isExpressionChar, Bool.or_eq_true, Bool.and_eq_true, decide_eq_true_eq, List.mem_cons,
    List.not_mem_nil, or_false, isBlank, blankRanges, List.any_cons, List.any_nil, Bool.or_false] at h
  rcases h with (h | h) | h
  · obtain ⟨-, hnine⟩ : 48 ≤ c.toNat ∧ c.toNat ≤ 57 := Char.isDigit_iff_toNat.mp h
    omega
  · rcases h with rfl | rfl | rfl | rfl | rfl | rfl | rfl <;> revert hlo hhi <;> decide
  · omega

theorem isExpressionChar_of_isNumeral {c : Char} (h : Token.isNumeral c = true) :
    isExpressionChar c = true := by
  simp only [Token.isNumeral, Bool.or_eq_true, decide_eq_true_eq] at h
  rcases h with h | rfl
  · simp [isExpressionChar, h]
  · rfl

/-- The keypad writes a product with a letter, plain arithmetic with a star; both are operators. -/
theorem isOperatorChar_star (c : Char) :
    isOperatorChar (if c = 'x' then '*' else c) = isOperatorChar c := by
  by_cases h : c = 'x'
  · rw [if_pos h, h]
    rfl
  · rw [if_neg h]

theorem not_mem_of_isOperatorChar {c : Char} {operators : Text}
    (hsub : operators ⊆ ['+', '-', 'x', '/', '*']) (h : isOperatorChar c = false) : c ∉ operators := by
  intro hmem
  exact of_decide_eq_false h (hsub hmem)

namespace Text

/-- Only expression characters occur. -/
def IsAdmitted (s : Text) : Prop :=
  ∀ c ∈ s, isExpressionChar c = true

theorem IsAdmitted.append {s t : Text} (hs : s.IsAdmitted) (ht : t.IsAdmitted) :
    (s ++ t).IsAdmitted := fun c hc => (List.mem_append.mp hc).elim (hs c) (ht c)

theorem IsAdmitted.of_append {s t : Text} (h : (s ++ t).IsAdmitted) : s.IsAdmitted ∧ t.IsAdmitted :=
  ⟨fun c hc => h c (List.mem_append_left t hc), fun c hc => h c (List.mem_append_right s hc)⟩

theorem isAdmitted_admitted (s : Text) : s.admitted.IsAdmitted := fun _ hc => (List.mem_filter.mp hc).2

theorem admitted_eq_self {s : Text} (hs : s.IsAdmitted) : s.admitted = s :=
  List.filter_eq_self.mpr hs

/-- Only expression characters and infinity signs occur, which is what keys and results can write. -/
def IsSpelled (s : Text) : Prop :=
  ∀ c ∈ s, isExpressionChar c = true ∨ c = '∞'

theorem IsAdmitted.isSpelled {s : Text} (hs : s.IsAdmitted) : s.IsSpelled := fun c hc => .inl (hs c hc)

theorem IsSpelled.append {s t : Text} (hs : s.IsSpelled) (ht : t.IsSpelled) :
    (s ++ t).IsSpelled := fun c hc => (List.mem_append.mp hc).elim (hs c) (ht c)

theorem toLower_eq_self {s : Text} (hs : s.IsSpelled) : toLower s = s := by
  have hchar : ∀ c ∈ s, c.toLower = c := by
    intro c hc
    rcases hs c hc with h | rfl
    · exact toLower_of_isExpressionChar h
    · rfl
  exact (List.map_congr_left hchar).trans (List.map_id' s)

/-- No markup: neither an angle bracket nor the word `script` in any case. -/
structure IsUnmarked (s : Text) : Prop where
  no_open : '<' ∉ s
  no_close : '>' ∉ s
  no_script : ¬ "script".toList <:+: s.map Char.toLower

/-- No markup, and none of the other words that must not be typed, in any case. -/
structure IsHarmless (s : Text) : Prop extends IsUnmarked s where
  no_word : ∀ word ∈
    ["eval", "function", "constructor", "import", "require", "process", "window", "document"],
    ¬ word.toList <:+: s.map Char.toLower

theorem hasMarkup_eq_false_iff {s : Text} : s.hasMarkup = false ↔ s.IsUnmarked := by
  have hmarks : s.any (fun c => c = '<' || c = '>') = false ↔ '<' ∉ s ∧ '>' ∉ s := by
    rw [← not_iff_not, not_and_or, not_not, not_not, Bool.not_eq_false, List.any_eq_true]
    simp only [Bool.or_eq_true, decide_eq_true_eq, and_or_left, exists_or, exists_eq_right]
  rw [hasMarkup, Bool.or_eq_false_iff, hmarks, includes_eq_false_iff]
  exact ⟨fun ⟨⟨hopen, hclose⟩, hscript⟩ => ⟨hopen, hclose, hscript⟩,
    fun h => ⟨⟨h.no_open, h.no_close⟩, h.no_script⟩⟩

theorem hasForbidden_eq_false_iff {s : Text} : s.hasForbidden = false ↔ s.IsHarmless := by
  rw [hasForbidden, Bool.or_eq_false_iff, hasMarkup_eq_false_iff, List.any_eq_false]
  simp only [includes_iff]
  exact ⟨fun ⟨hunmarked, hword⟩ => ⟨hunmarked, hword⟩, fun h => ⟨h.toIsUnmarked, h.no_word⟩⟩

theorem IsSpelled.not_mem {s : Text} (hs : s.IsSpelled) {c : Char} (hc : isExpressionChar c = false ∧ c ≠ '∞') :
    c ∉ s := by
  intro hmem
  rcases hs c hmem with hchar | hchar
  · rw [hc.1] at hchar
    cases hchar
  · exact hc.2 hchar

/-- A word is not in the text if one of its letters is not. -/
theorem IsSpelled.not_infix {s word : Text} (hs : s.IsSpelled)
    (hword : word.any (fun c => !isExpressionChar c && c ≠ '∞') = true) : ¬ word <:+: s.map Char.toLower := by
  intro h
  obtain ⟨c, hc, hforeign⟩ := List.any_eq_true.mp hword
  have hlower : s.map Char.toLower = s := toLower_eq_self hs
  rw [hlower] at h
  exact hs.not_mem (by simpa using hforeign) (h.subset hc)

theorem IsSpelled.isHarmless {s : Text} (hs : s.IsSpelled) : s.IsHarmless := by
  have hwords : ∀ word ∈ forbiddenWords,
      word.toList.any (fun c => !isExpressionChar c && c ≠ '∞') = true := by decide
  exact
    { no_open := hs.not_mem (by decide)
      no_close := hs.not_mem (by decide)
      no_script := hs.not_infix (by decide)
      no_word := fun word hword => hs.not_infix (hwords word hword) }

theorem hasForbidden_eq_false {s : Text} (hs : s.IsSpelled) : s.hasForbidden = false :=
  hasForbidden_eq_false_iff.mpr hs.isHarmless

theorem hasAdjacentOperators_eq_false_iff {s : Text} :
    hasAdjacentOperators s = false ↔
      s.IsChain fun c d => ¬(isOperatorChar c = true ∧ isOperatorChar d = true) := by
  induction s with
  | nil => simp [hasAdjacentOperators]
  | cons c s ih =>
    cases s with
    | nil => simp [hasAdjacentOperators]
    | cons d s =>
      rw [hasAdjacentOperators, Bool.or_eq_false_iff, ih, List.isChain_cons_cons]
      simp

theorem hasAdjacentOperators_dense (s : Text) :
    hasAdjacentOperators s.dense = hasAdjacentOperators (compact s) := by
  rw [Bool.eq_iff_iff, ← not_iff_not, Bool.not_eq_true, Bool.not_eq_true,
    hasAdjacentOperators_eq_false_iff, hasAdjacentOperators_eq_false_iff, dense, List.isChain_map]
  simp only [isOperatorChar_star]

theorem head?_dense (s : Text) :
    (compact s).head?.any (fun c => c ∈ ['+', 'x', '/', '*']) = false ↔
      ∀ c ∈ s.dense.head?, c ∉ ['+', '*', '/'] := by
  rw [dense, List.head?_map]
  cases (compact s).head? with
  | none => simp
  | some c =>
    by_cases hx : c = 'x'
    · simp [hx]
    · simp [hx]
      grind

theorem getLast?_dense (s : Text) :
    (compact s).getLast?.any isOperatorChar = false ↔
      ∀ c ∈ s.dense.getLast?, isOperatorChar c = false := by
  rw [dense, List.getLast?_map]
  cases (compact s).getLast? with
  | none => simp
  | some c => simp [isOperatorChar_star]

/-- The checks before an evaluation, in terms of the dense form where that is possible. -/
theorem isEvaluable_iff {s : Text} (hs : s.IsAdmitted) :
    s.isEvaluable = true ↔
      s.dense ≠ [] ∧ s.length ≤ evaluationLimit ∧ hasAdjacentOperators s.dense = false ∧
      (∀ c ∈ s.dense.head?, c ∉ ['+', '*', '/']) ∧ (∀ c ∈ s.dense.getLast?, isOperatorChar c = false) ∧
      ¬ ['.', '.'] <:+: s.trim ∧ ¬ ['%', '%'] <:+: s.trim := by
  have htrim : s.trim.IsAdmitted := fun c hc => hs c (mem_of_mem_trim hc)
  have hempty : s.trim.isEmpty = false ↔ s.dense ≠ [] := by
    rw [List.isEmpty_eq_false_iff, Ne, trim_eq_nil_iff, dense, Ne, List.map_eq_nil_iff]
  have hall : s.trim.all isExpressionChar = true := List.all_eq_true.mpr htrim
  simp only [isEvaluable, compact_trim, hall, hasForbidden_eq_false htrim.isSpelled, Bool.and_eq_true,
    Bool.not_eq_true', hempty, decide_eq_true_eq, ← hasAdjacentOperators_dense, head?_dense,
    getLast?_dense, includes_eq_false_iff, and_true, and_assoc]

/-- Characters of the dense form of an admitted text. -/
theorem isDense_admitted (s : Text) : s.admitted.dense.IsDense := by
  intro c hc
  obtain ⟨d, hd, rfl⟩ := List.mem_map.mp hc
  obtain ⟨hadmitted, hblank⟩ := List.mem_filter.mp hd
  obtain ⟨-, hchar⟩ := List.mem_filter.mp hadmitted
  have hblank : isBlank d = false := by simpa using hblank
  simp only [isExpressionChar, hblank, Bool.or_false, Bool.or_eq_true, decide_eq_true_eq, List.mem_cons,
    List.not_mem_nil, or_false] at hchar
  rcases hchar with h | rfl | rfl | rfl | rfl | rfl | rfl | rfl
  · have hx : d ≠ 'x' := ne_of_isDigit h rfl
    simp [hx, Token.isNumeral, h]
  · exact .inr (.inr ⟨.add, rfl⟩)
  · exact .inr (.inr ⟨.sub, rfl⟩)
  · exact .inr (.inr ⟨.mul, rfl⟩)
  · exact .inr (.inr ⟨.div, rfl⟩)
  · exact .inr (.inr ⟨.mul, rfl⟩)
  · exact .inr (.inl rfl)
  · exact .inl rfl

end Text
end KeypadCalc
