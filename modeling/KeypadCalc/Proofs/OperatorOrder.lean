import KeypadCalc.Proofs.OperandSpacing

/-!
# The order of the operators

The checks before an evaluation refuse two operators in a row and an operator in front of a text, unless it
is a minus. The keys mostly keep to this order: an operator takes the place of the one before it. But they
copy the display into the expression without looking at it. On an empty display there is no operand to put
an operator behind. A minus that backspace has left of a negative result is none either, and a percent sign
writes a negative result with its minus right behind an operator. Up to the first such key the expression is
in order, and the key breaks it.
-/
namespace KeypadCalc

theorem isBlank_of_isGlyph {c : Char} (h : isGlyph c = true) : isBlank c = false := by
  simp only [isGlyph, List.mem_cons, List.not_mem_nil, or_false, decide_eq_true_eq] at h
  rcases h with rfl | rfl | rfl | rfl <;> decide

namespace Text

/-- Blanks apart, no two operators stand in a row, and none but a minus stands in front. -/
structure InOrder (s : Text) : Prop where
  apart : s.compact.IsChain fun c d => isGlyph c = true → isGlyph d = false
  lead : ∀ c ∈ s.compact.head?, isGlyph c = true → c = '-'

theorem inOrder_congr {s t : Text} (h : s.compact = t.compact) : s.InOrder ↔ t.InOrder := by
  constructor
  · exact fun hs => ⟨h ▸ hs.apart, h ▸ hs.lead⟩
  · exact fun ht => ⟨h ▸ ht.apart, h ▸ ht.lead⟩

theorem inOrder_nil : InOrder [] := ⟨List.isChain_nil, nofun⟩

theorem isOperatorChar_eq {c : Char} (h : c ≠ '*') : isOperatorChar c = isGlyph c := by
  simp [isOperatorChar, isGlyph, h]

theorem eq_minus_iff {c : Char} (hstar : c ≠ '*') :
    (isGlyph c = true → c = '-') ↔ c ∉ ['+', 'x', '/', '*'] := by
  constructor
  · intro hminus hmem
    have hcases : c = '+' ∨ c = 'x' ∨ c = '/' := by simpa [hstar] using hmem
    rcases hcases with rfl | rfl | rfl <;> cases hminus rfl
  · intro hnone hglyph
    have hcases : c = '+' ∨ c = '-' ∨ c = 'x' ∨ c = '/' := by simpa [isGlyph] using hglyph
    rcases hcases with rfl | rfl | rfl | rfl
    · simp at hnone
    · rfl
    · simp at hnone
    · simp at hnone

/-- A text without a star is in order exactly when it passes the checks of the evaluation on operators, the
one at its end apart. -/
theorem inOrder_iff {s : Text} (hstar : '*' ∉ s) :
    s.InOrder ↔
      hasAdjacentOperators s.trim.compact = false ∧
        (s.trim.compact.head?.any fun c => c ∈ ['+', 'x', '/', '*']) = false := by
  have hplain {c : Char} (hc : c ∈ s.compact) : c ≠ '*' := by
    rintro rfl
    exact hstar (List.mem_of_mem_filter hc)
  have happart : (s.compact.IsChain fun c d => isGlyph c = true → isGlyph d = false) ↔
      s.compact.IsChain fun c d => ¬(isOperatorChar c = true ∧ isOperatorChar d = true) := by
    refine List.IsChain.iff_of_mem_imp fun {c d} hc hd => ?_
    rw [isOperatorChar_eq (hplain hc), isOperatorChar_eq (hplain hd)]
    simp
  have hlead : (∀ c ∈ s.compact.head?, isGlyph c = true → c = '-') ↔
      (s.compact.head?.any fun c => c ∈ ['+', 'x', '/', '*']) = false := by
    cases hhead : s.compact.head? with
    | none => simp
    | some c =>
      have hc : c ≠ '*' := hplain (List.mem_of_mem_head? hhead)
      rw [Option.any_some, decide_eq_false_iff_not, ← eq_minus_iff hc]
      simp
  rw [compact_trim, hasAdjacentOperators_eq_false_iff, ← happart, ← hlead]
  exact ⟨fun h => ⟨h.apart, h.lead⟩, fun h => ⟨h.1, h.2⟩⟩

theorem InOrder.of_isPrefix {s t : Text} (h : t.InOrder) (hfront : s <+: t) : s.InOrder := by
  obtain ⟨rest, rfl⟩ := hfront
  have hapart := h.apart
  have hlead := h.lead
  rw [compact_append] at hapart hlead
  exact ⟨hapart.left_of_append, fun c hc => hlead c (List.mem_head?_append_of_mem_head? hc)⟩

theorem compact_of_trimEnd {s front : Text} {c : Char} (h : s.trimEnd = front ++ [c]) :
    s.compact = front.compact ++ [c] := by
  rw [← compact_trimEnd, h, compact_append,
    compact_eq_self (List.forall_mem_singleton.mpr (isBlank_of_trimEnd h))]

theorem getLast?_compact (s : Text) : s.compact.getLast? = s.trimEnd.getLast? := by
  rcases List.eq_nil_or_concat' s.trimEnd with hnone | ⟨front, c, htrim⟩
  · rw [← compact_trimEnd, hnone]
    rfl
  · rw [compact_of_trimEnd htrim, htrim, List.getLast?_concat, List.getLast?_concat]

theorem endsWithOperator_eq_false_iff {s : Text} :
    s.endsWithOperator = false ↔ ∀ c ∈ s.compact.getLast?, isGlyph c = false := by
  rw [endsWithOperator, getLast?_compact]
  cases s.trimEnd.getLast? with
  | none => simp
  | some c => simp [isGlyph]

/-- A character may be written behind a text in order if it is no operator, or has an operand before it; a
minus may also stand in front. -/
theorem inOrder_concat (s : Text) (c : Char) :
    (s ++ [c]).InOrder ↔
      s.InOrder ∧ (isGlyph c = true → s.endsWithOperator = false ∧ (s.compact = [] → c = '-')) := by
  cases hblank : isBlank c with
  | true =>
    have hplain : isGlyph c = false := by
      by_contra hglyph
      rw [isBlank_of_isGlyph (by simpa using hglyph)] at hblank
      cases hblank
    have hcompact : compact (s ++ [c]) = s.compact := by
      rw [compact_append, compact_eq_nil.mpr (List.forall_mem_singleton.mpr hblank), List.append_nil]
    rw [inOrder_congr hcompact, hplain]
    simp
  | false =>
    have hcompact : compact (s ++ [c]) = s.compact ++ [c] := by
      rw [compact_append, compact_eq_self (List.forall_mem_singleton.mpr hblank)]
    rw [endsWithOperator_eq_false_iff]
    constructor
    · intro h
      have hapart := h.apart
      have hlead := h.lead
      rw [hcompact] at hapart hlead
      refine ⟨h.of_isPrefix (List.prefix_append s [c]), fun hglyph => ⟨fun d hd => ?_, fun hempty => ?_⟩⟩
      · by_contra hoperator
        have hc := (List.isChain_append.mp hapart).2.2 d hd c rfl (by simpa using hoperator)
        rw [hglyph] at hc
        cases hc
      · rw [hempty] at hlead
        exact hlead c rfl hglyph
    · rintro ⟨hs, hc⟩
      constructor
      · rw [hcompact, List.isChain_append]
        refine ⟨hs.apart, List.isChain_singleton c, ?_⟩
        rintro d hd _ ⟨⟩ hoperator
        by_contra hglyph
        rw [(hc (by simpa using hglyph)).1 d hd] at hoperator
        cases hoperator
      · rw [hcompact]
        cases hfront : s.compact with
        | nil =>
          rintro _ ⟨⟩ hglyph
          exact (hc hglyph).2 hfront
        | cons d rest =>
          rintro _ ⟨⟩
          exact hs.lead d (by rw [hfront]; rfl)

theorem inOrder_append {s run : Text} (hrun : ∀ c ∈ run, isGlyph c = false) :
    (s ++ run).InOrder ↔ s.InOrder := by
  induction run using List.reverseRecOn with
  | nil => rw [List.append_nil]
  | append_singleton run c ih =>
    have hc : isGlyph c = false := hrun c (by simp)
    rw [← List.append_assoc, inOrder_concat, ih fun a ha => hrun a (List.mem_append_left _ ha), hc]
    simp

theorem InOrder.append {s run : Text} (hs : s.InOrder) (hrun : ∀ c ∈ run, isGlyph c = false) :
    (s ++ run).InOrder := (inOrder_append hrun).mpr hs

/-- An operator needs an operand before it, a minus in front apart. -/
theorem inOrder_operator (s : Text) (o : BinaryOp) :
    (s ++ [' ', o.glyph, ' ']).InOrder ↔
      s.InOrder ∧ s.endsWithOperator = false ∧ (s.compact = [] → o = .sub) := by
  have hspaced : compact (s ++ [' ', o.glyph, ' ']) = compact (s ++ [o.glyph]) := by
    rw [compact_append, compact_append]
    cases o <;> rfl
  have hglyph : isGlyph o.glyph = true := by cases o <;> rfl
  have hminus : o.glyph = '-' ↔ o = .sub := by cases o <;> simp [BinaryOp.glyph]
  rw [inOrder_congr hspaced, inOrder_concat, hglyph, hminus]
  simp

/-- A display may be copied behind a text unless it brings a minus right behind an operator. -/
theorem inOrder_append_shown {s t : Text} (ht : t.IsShown) :
    (s ++ t).InOrder ↔ s.InOrder ∧ (s.endsWithOperator && t.head? = some '-') = false := by
  obtain ⟨mark, body, rfl, hmark, hbody⟩ := ht.exists_mark
  have hplain : ∀ c ∈ body, isGlyph c = false := fun c hc => (separate_of_isNumeral (hbody c hc)).2
  rw [← List.append_assoc, inOrder_append hplain]
  rcases hmark with rfl | rfl | rfl
  · have hhead : body.head? ≠ some '-' := by
      intro h
      have hminus := hplain '-' (List.mem_of_mem_head? h)
      cases hminus
    simp [hhead]
  · rw [inOrder_concat]
    simp [isGlyph]
  · rw [inOrder_concat]
    simp [isGlyph]

/-- The operator that a display can end with is the minus that is left of a negative number. -/
theorem IsShown.eq_minus {s : Text} (hs : s.IsShown) (h : s.endsWithOperator = true) :
    s.compact = ['-'] := by
  have hcompact : s.compact = s := compact_eq_self (Draft.separate_display hs)
  obtain ⟨mark, body, rfl, hmark, hbody⟩ := hs.exists_mark
  rcases List.eq_nil_or_concat' body with rfl | ⟨front, c, rfl⟩
  · rw [List.append_nil] at h ⊢
    rcases hmark with rfl | rfl | rfl
    · cases h
    · rfl
    · revert h
      decide
  · have hc : isGlyph c = false := (separate_of_isNumeral (hbody c (by simp))).2
    have hends : endsWithOperator (mark ++ (front ++ [c])) = false := by
      rw [endsWithOperator_eq_false_iff, hcompact, ← List.append_assoc, List.getLast?_concat]
      rintro _ ⟨⟩
      exact hc
    rw [hends] at h
    cases h

theorem IsShown.inOrder {s : Text} (hs : s.IsShown) : s.InOrder := by
  have h : InOrder ([] ++ s) := (inOrder_append_shown hs).mpr ⟨inOrder_nil, rfl⟩
  exact h

end Text

namespace Draft

/-- What an operator would be written behind, blanks apart. -/
def front (d : Draft) : Text :=
  if d.expression.endsWithOperator then d.expression.compact.dropLast
  else if d.expression.isEmpty then d.display
  else d.expression.compact

/-- Whether the key would write an operator where none may stand: an operator with no operand before it
(a minus may stand in front), or a percent sign that copies the minus of the display behind an operator. -/
def misplaces (d : Draft) : Key → Bool
  | .op o => d.front = ['-'] || (d.front.isEmpty && o ≠ .sub)
  | .percent => d.expression.endsWithOperator && d.display.head? = some '-'
  | _ => false

/-- An operator breaks the order of what it is written behind exactly when it is misplaced. -/
theorem inOrder_operator_iff {d : Draft} {left : Text} (hfront : d.front = left.compact)
    (hleft : left.InOrder) (hends : left.endsWithOperator = true → left.compact = ['-']) (o : BinaryOp) :
    (left ++ [' ', o.glyph, ' ']).InOrder ↔ d.misplaces (.op o) = false := by
  rw [Text.inOrder_operator, misplaces, hfront]
  cases hlast : left.endsWithOperator with
  | true => simp [hends hlast]
  | false =>
    have hlone : left.compact ≠ ['-'] := by
      intro hlone
      rw [Text.endsWithOperator_eq_false_iff, hlone] at hlast
      cases hlast '-' rfl
    simp [hleft, hlone]

/-- What stands before an operator at the end. -/
theorem exists_front {d : Draft} (h : d.expression.endsWithOperator = true) :
    ∃ (s : Text) (c : Char), d.expression.trimEnd = s ++ [c] ∧ isGlyph c = true ∧ d.front = s.compact := by
  rw [front, if_pos h]
  rcases List.eq_nil_or_concat' d.expression.trimEnd with hnone | ⟨s, c, htrim⟩
  · rw [Text.endsWithOperator, hnone] at h
    cases h
  · refine ⟨s, c, htrim, ?_, by rw [Text.compact_of_trimEnd htrim, List.dropLast_concat]⟩
    rw [Text.endsWithOperator, htrim, List.getLast?_concat] at h
    exact h

/-- A key that is accepted keeps the operators in order exactly when it misplaces none. -/
theorem Edit.inOrder_iff {d d' : Draft} {key : Key} (h : d.Edit key d') (hshown : d.display.IsShown)
    (hd : d.expression.InOrder) : d'.expression.InOrder ↔ d.misplaces key = false := by
  have hdigit {value : Nat} (hvalue : value < 10) : ∀ c ∈ [value.digitChar], isGlyph c = false :=
    fun c hc => List.mem_singleton.mp hc ▸ (separate_of_isNumeral (isNumeral_digitChar hvalue)).2
  have hpercent : ∀ c ∈ ['%'], isGlyph c = false := List.forall_mem_singleton.mpr rfl
  cases h with
  | digitBehindOperator hvalue => exact iff_of_true (hd.append (hdigit hvalue)) rfl
  | digitForResult hvalue => exact iff_of_true (Text.inOrder_nil.append (hdigit hvalue)) rfl
  | digitForZero hvalue =>
    exact iff_of_true ((hd.of_isPrefix (dropZero_isPrefix _)).append (hdigit hvalue)) rfl
  | digit hvalue => exact iff_of_true (hd.append (hdigit hvalue)) rfl
  | pointFirst => exact iff_of_true (hd.append (by simp [isGlyph])) rfl
  | pointApart => exact iff_of_true (hd.append (by simp [isGlyph])) rfl
  | point => exact iff_of_true (hd.append (by simp [isGlyph])) rfl
  | operatorForOperator o hoperator =>
    obtain ⟨s, c, htrim, hglyph, hfront⟩ := exists_front hoperator
    have hconcat : Text.InOrder (s ++ [c]) := htrim ▸ hd.of_isPrefix (Text.dropEndWhile_isPrefix _ _)
    obtain ⟨hs, hc⟩ := (Text.inOrder_concat s c).mp hconcat
    have hends : s.trimEnd.endsWithOperator = false := by
      rw [Text.endsWithOperator_eq_false_iff, Text.compact_trimEnd, ← Text.endsWithOperator_eq_false_iff]
      exact (hc hglyph).1
    dsimp only
    rw [htrim, List.dropLast_concat]
    refine inOrder_operator_iff (hfront.trans (Text.compact_trimEnd s).symm) ?_ (fun h => ?_) o
    · exact (Text.inOrder_congr (Text.compact_trimEnd s)).mpr hs
    · rw [hends] at h
      cases h
  | operatorBehindDisplay o hempty =>
    have hfront : d.front = d.display.compact := by
      rw [front, hempty, Text.compact_eq_self (separate_display hshown)]
      rfl
    exact inOrder_operator_iff hfront hshown.inOrder hshown.eq_minus o
  | operator o hempty hoperator =>
    have hfront : d.front = d.expression.compact := by
      rw [front, hoperator]
      simp [hempty]
    refine inOrder_operator_iff hfront hd (fun h => ?_) o
    rw [hoperator] at h
    cases h
  | percentOfDisplay hmissing =>
    rw [Text.inOrder_append hpercent]
    by_cases hempty : d.display = []
    · have hplain : ∀ c ∈ ['0'], isGlyph c = false := List.forall_mem_singleton.mpr rfl
      refine iff_of_true ?_ (by simp [misplaces, hempty])
      simpa [hempty] using hd.append hplain
    · have hoperand : (if d.display.isEmpty then ['0'] else d.display) = d.display :=
        if_neg (by simpa using hempty)
      rw [hoperand, Text.inOrder_append_shown hshown, misplaces]
      exact and_iff_right hd
  | percent hempty hoperator =>
    refine iff_of_true (hd.append hpercent) ?_
    rw [misplaces, hoperator, Bool.false_and]
  | backspaceBehindOperator =>
    refine iff_of_true (hd.of_isPrefix ?_) rfl
    dsimp only
    split
    · exact (Text.dropEndWhile_isPrefix _ _).trans (Text.dropEndWhile_isPrefix _ _)
    · exact List.prefix_rfl
  | backspace => exact iff_of_true (hd.of_isPrefix (List.dropLast_prefix _)) rfl

/-- Neither the keys nor the display have a star. -/
theorem Edit.star_not_mem {d d' : Draft} {key : Key} (h : d.Edit key d') (hshown : d.display.IsShown)
    (hd : '*' ∉ d.expression) : '*' ∉ d'.expression := by
  intro hmem
  rcases h.mem_expression hmem with hexpression | hdisplay | htyped
  · exact hd hexpression
  · rcases hshown.mem hdisplay with h | h | h <;> cases h
  · cases htyped

end Draft

namespace Session

/-- Whether the event is a key that is accepted and writes an operator where none may stand. -/
def misplaces (s : Session) : Event → Bool
  | .press key _ => !s.isCalculating && (s.draft.typeKey key).isSome && s.draft.misplaces key
  | _ => false

theorem inOrder_step {s : Session} (hshown : s.draft.display.IsShown) (hs : s.draft.expression.InOrder)
    (e : Event) : (s.step e).draft.expression.InOrder ↔ s.misplaces e = false := by
  have htransition := s.transition_step e
  generalize s.step e = s' at htransition ⊢
  cases htransition with
  | ignored key now hpending => exact iff_of_true hs (by rw [misplaces, hpending]; rfl)
  | edited key now hidle =>
    cases hkey : s.draft.typeKey key with
    | none => exact iff_of_true hs (by rw [misplaces, hkey, Option.isSome_none, Bool.and_false]; rfl)
    | some d =>
      have hmisplaces : s.misplaces (.press key now) = s.draft.misplaces key := by
        rw [misplaces, hidle, hkey]
        rfl
      rw [hmisplaces]
      exact (Draft.edit_of_typeKey hkey).inOrder_iff hshown hs
  | entryCleared now =>
    exact iff_of_true (hs.of_isPrefix (Text.dropEndWhile_isPrefix _ _)) (by simp [misplaces, Draft.misplaces])
  | allCleared now => exact iff_of_true Text.inOrder_nil (by simp [misplaces, Draft.misplaces])
  | asked now => exact iff_of_true hs (by simp [misplaces, Draft.misplaces])
  | waited now => exact iff_of_true (by rwa [draft_expire]) rfl
  | blank now => exact iff_of_true (by rwa [draft_expire]) rfl
  | committed now => exact iff_of_true (by rw [draft_expire]; exact Text.inOrder_nil) rfl
  | failed now => exact iff_of_true (by rwa [draft_expire]) rfl
  | historyCleared => exact iff_of_true hs rfl
  | closed => exact iff_of_true hs rfl

theorem star_not_mem_run (p : Parameters) (events : List Event) :
    '*' ∉ ((new p).run events).draft.expression := by
  refine (draft_run (P := fun d => d.display.IsShown ∧ '*' ∉ d.expression)
    ⟨Text.isShown_nil, List.not_mem_nil⟩ ?_ ?_ (fun v => ⟨Draft.isShown_shown v, List.not_mem_nil⟩)
    p events).2
  · rintro d d' key ⟨hshown, hstar⟩ hkey
    have hedit := Draft.edit_of_typeKey hkey
    exact ⟨hedit.isShown hshown, hedit.star_not_mem hshown hstar⟩
  · rintro d ⟨-, hstar⟩
    exact ⟨Text.isShown_nil, fun hmem => hstar (Draft.mem_of_mem_dropNumeral hmem)⟩

/-- As long as no key misplaces an operator, no two operators of the expression stand in a row and none but a
minus stands in front, so it passes the checks of the evaluation on these. The first key that does breaks the
order. -/
theorem operators_in_order (p : Parameters) (events : List Event)
    (hkept : (new p).Along (fun s e => s.misplaces e = false) events) :
    let s := (new p).run events
    s.draft.expression.InOrder ∧
      Text.hasAdjacentOperators s.draft.expression.trim.compact = false ∧
      (s.draft.expression.trim.compact.head?.any fun c => c ∈ ['+', 'x', '/', '*']) = false ∧
      ∀ e, (s.step e).draft.expression.InOrder ↔ s.misplaces e = false := by
  intro s
  have horder : s.draft.expression.InOrder :=
    run_of_along (P := fun s => s.draft.expression.InOrder) Text.inOrder_nil
      (fun before e _ h hkept => (inOrder_step (isShown_run p before) h e).mpr hkept) hkept
  obtain ⟨hadjacent, hhead⟩ := (Text.inOrder_iff (star_not_mem_run p events)).mp horder
  exact ⟨horder, hadjacent, hhead, inOrder_step (isShown_run p events) horder⟩

/-- After `3 - 5 =` an operator continues from `-2` in order, and a percent sign behind it copies the `-2`
behind the operator. -/
theorem order_of_minus_two :
    let events : List Event := [.press (.digit 3) 0, .press (.op .sub) 0, .press (.digit 5) 0,
      .press .equals 0, .advance (Time.ofMillis 50), .press (.op .mul) (Time.ofMillis 60)]
    let percent : Event := .press .percent (Time.ofMillis 70)
    (new {}).Along (fun s e => s.misplaces e = false) events ∧
      ((new {}).run events).draft.expression = ['-', '2', ' ', 'x', ' '] ∧
      ((new {}).run events).draft.expression.InOrder ∧
      ¬ (((new {}).run events).step percent).draft.expression.InOrder := by
  intro events percent
  have hkept : (new {}).Along (fun s e => s.misplaces e = false) events := by decide +kernel
  obtain ⟨horder, -, -, hnext⟩ := operators_in_order {} events hkept
  refine ⟨hkept, by decide +kernel, horder, ?_⟩
  rw [hnext percent]
  decide +kernel

/-- The operators are not always in order. A plus as the first key stands in front; and when backspace has
left a lone minus of the `-2` after `3 - 5 =`, a plus is written right behind it. -/
theorem not_operators_in_order :
    (¬ ∀ (p : Parameters) (events : List Event),
      ∀ c ∈ ((new p).run events).draft.expression.compact.head?, isGlyph c = true → c = '-') ∧
    ¬ ∀ (p : Parameters) (events : List Event),
      ((new p).run events).draft.expression.compact.IsChain fun c d =>
        isGlyph c = true → isGlyph d = false := by
  constructor
  · intro h
    have hlead := h {} [.press (.op .add) 0] '+' (by decide +kernel) rfl
    cases hlead
  · intro h
    let events : List Event := [.press (.digit 3) 0, .press (.op .sub) 0, .press (.digit 5) 0,
      .press .equals 0, .advance (Time.ofMillis 50), .press .backspace (Time.ofMillis 60),
      .press (.op .add) (Time.ofMillis 60)]
    have hexpression : ((new {}).run events).draft.expression.compact = ['-', '+'] := by decide +kernel
    have happart := h {} events
    rw [hexpression] at happart
    cases List.IsChain.rel happart rfl

end Session
end KeypadCalc
