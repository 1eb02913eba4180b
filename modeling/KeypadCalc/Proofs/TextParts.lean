import KeypadCalc.Text
import Mathlib

/-!
# Parts of texts

A maximal run at the beginning or at the end of a text is what `takeWhile`, `dropWhile` and
`dropEndWhile` separate. Trimming takes away blanks only, and a word occurs in a text when the text has
it as an infix.
-/
namespace KeypadCalc

namespace Text

theorem takeWhile_run {p : Char → Bool} {run rest : Text} (hrun : ∀ c ∈ run, p c = true)
    (hrest : ∀ c ∈ rest.head?, p c = false) : (run ++ rest).takeWhile p = run := by
  rw [List.takeWhile_append_of_pos hrun]
  cases rest with
  | nil => simp
  | cons c rest => simp [hrest c rfl]

theorem dropWhile_run {p : Char → Bool} {run rest : Text} (hrun : ∀ c ∈ run, p c = true)
    (hrest : ∀ c ∈ rest.head?, p c = false) : (run ++ rest).dropWhile p = rest := by
  rw [List.dropWhile_append_of_pos hrun]
  cases rest with
  | nil => simp
  | cons c rest => simp [hrest c rfl]

/-- A text that begins with a character of some kind begins with a maximal run of such characters. -/
theorem exists_run {p : Char → Bool} {c : Char} (hc : p c = true) (s : Text) :
    ∃ run rest, c :: s = run ++ rest ∧ run ≠ [] ∧ (∀ d ∈ run, p d = true) ∧
      ∀ d ∈ rest.head?, p d = false := by
  refine ⟨(c :: s).takeWhile p, (c :: s).dropWhile p, List.takeWhile_append_dropWhile.symm, by simp [hc],
    fun d hd => List.mem_takeWhile_imp hd, fun d hd => ?_⟩
  have hnot := List.head?_dropWhile_not p (c :: s)
  rw [Option.mem_def.mp hd] at hnot
  simpa using hnot

theorem dropEndWhile_isPrefix {α : Type} (p : α → Bool) (s : List α) : dropEndWhile p s <+: s :=
  List.rdropWhile_prefix p s

/-- What `dropEndWhile` removes is a run of elements that satisfy `p`. -/
theorem exists_dropEndWhile {α : Type} (p : α → Bool) (s : List α) :
    ∃ run, (∀ a ∈ run, p a = true) ∧ s = dropEndWhile p s ++ run := by
  refine ⟨(s.reverse.takeWhile p).reverse, ?_, ?_⟩
  · intro a ha
    exact List.mem_takeWhile_imp (List.mem_reverse.mp ha)
  · rw [dropEndWhile, ← List.reverse_append, List.takeWhile_append_dropWhile, List.reverse_reverse]

theorem dropEndWhile_run {α : Type} {p : α → Bool} (s : List α) {run : List α}
    (h : ∀ a ∈ run, p a = true) : dropEndWhile p (s ++ run) = dropEndWhile p s := by
  induction run using List.reverseRecOn with
  | nil => rw [List.append_nil]
  | append_singleton run a ih =>
    have ha : p a = true := h a (by simp)
    rw [← List.append_assoc, ← ih fun b hb => h b (List.mem_append_left _ hb)]
    exact List.rdropWhile_concat_pos _ _ _ ha

/-- What `dropEndWhile` leaves does not end in an element that satisfies `p`. -/
theorem getLast?_dropEndWhile {α : Type} (p : α → Bool) (s : List α) {a : α}
    (h : a ∈ (dropEndWhile p s).getLast?) : p a = false := by
  have hnot := List.head?_dropWhile_not p s.reverse
  rw [dropEndWhile, List.getLast?_reverse] at h
  rw [Option.mem_def.mp h] at hnot
  simpa using hnot

theorem dropEndWhile_eq_self {α : Type} {p : α → Bool} {s : List α} (h : ∀ a ∈ s.getLast?, p a = false) :
    dropEndWhile p s = s := by
  rcases List.eq_nil_or_concat' s with rfl | ⟨init, a, rfl⟩
  · rfl
  · exact List.rdropWhile_concat_neg _ _ _ (by simp [h a List.getLast?_concat])

theorem compact_append (s t : Text) : compact (s ++ t) = compact s ++ compact t :=
  List.filter_append _ _

theorem compact_eq_nil {s : Text} : compact s = [] ↔ ∀ c ∈ s, isBlank c = true := by
  simp [compact, List.filter_eq_nil_iff]

theorem compact_eq_self {s : Text} (h : ∀ c ∈ s, isBlank c = false) : compact s = s :=
  List.filter_eq_self.mpr fun c hc => by simp [h c hc]

theorem exists_trimEnd (s : Text) :
    ∃ blanks, (∀ b ∈ blanks, isBlank b = true) ∧ s = s.trimEnd ++ blanks :=
  exists_dropEndWhile isBlank s

theorem compact_trimEnd (s : Text) : s.trimEnd.compact = s.compact := by
  obtain ⟨blanks, hblanks, hsplit⟩ := s.exists_trimEnd
  conv_rhs => rw [hsplit, compact_append, compact_eq_nil.mpr hblanks, List.append_nil]

theorem exists_trim (s : Text) :
    ∃ front back, compact front = [] ∧ compact back = [] ∧ s = front ++ (trim s ++ back) := by
  obtain ⟨back, hback, hsplit⟩ := exists_trimEnd (s.dropWhile isBlank)
  refine ⟨s.takeWhile isBlank, back, ?_, compact_eq_nil.mpr hback, ?_⟩
  · exact compact_eq_nil.mpr fun c hc => List.mem_takeWhile_imp hc
  · rw [trim, ← hsplit, List.takeWhile_append_dropWhile]

theorem compact_trim (s : Text) : compact (trim s) = compact s := by
  obtain ⟨front, back, hfront, hback, hsplit⟩ := exists_trim s
  conv_rhs => rw [hsplit, compact_append, compact_append, hfront, hback]
  simp

theorem mem_of_mem_trim {s : Text} {c : Char} (h : c ∈ trim s) : c ∈ s := by
  obtain ⟨front, back, -, -, hsplit⟩ := exists_trim s
  rw [hsplit]
  exact List.mem_append_right _ (List.mem_append_left _ h)

/-- A text is trimmed to nothing when there is nothing but blanks in it. -/
theorem trim_eq_nil_iff (s : Text) : trim s = [] ↔ compact s = [] := by
  constructor
  · intro h
    rw [← compact_trim, h]
    rfl
  · intro h
    have hblank : s.dropWhile isBlank = [] := List.dropWhile_eq_nil_iff.mpr (compact_eq_nil.mp h)
    rw [trim, hblank]
    rfl

theorem trimEnd_blanks (s : Text) {blanks : Text} (h : ∀ b ∈ blanks, isBlank b = true) :
    trimEnd (s ++ blanks) = trimEnd s :=
  dropEndWhile_run s h

theorem trimEnd_concat (s : Text) {c : Char} (h : isBlank c = false) : trimEnd (s ++ [c]) = s ++ [c] :=
  List.rdropWhile_concat_neg _ _ _ (by simp [h])

theorem includes_iff {word s : Text} : includes word s = true ↔ word <:+: s := by
  induction s with
  | nil => simp [includes]
  | cons c s ih => rw [includes, Bool.or_eq_true, ih, List.isPrefixOf_iff_prefix, List.infix_cons_iff]

theorem includes_eq_false_iff {word s : Text} : includes word s = false ↔ ¬ word <:+: s := by
  rw [Bool.eq_false_iff, Ne, includes_iff]

end Text
end KeypadCalc
