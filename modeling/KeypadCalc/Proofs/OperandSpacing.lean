import KeypadCalc.Proofs.ReachedDraft

/-!
# Blanks between operands

An expression is evaluated without its blanks, so a blank may stand between two characters only if one of
them is an operator: two operands with nothing but a blank between them become one number. The keys that
type write blanks around operators only, and the expression keeps its operands apart as long as every
operator stays. Backspace does not always leave it. Pressed behind an operator it shortens the display
first, but from then on it takes the end of the expression too, the space and then the operator. What is
left has a blank behind an operand, and the next digit is read as part of that operand.
-/
namespace KeypadCalc

/-- The operators of the keypad. -/
def isGlyph (c : Char) : Bool :=
  c ∈ ['+', '-', 'x', '/']

namespace Text

/-- Where blanks stand between two characters that are not blank, one of the two is an operator. -/
def KeepsApart (s : Text) : Prop :=
  ∀ c blanks d, c :: (blanks ++ [d]) <:+: s → blanks ≠ [] → (∀ b ∈ blanks, isBlank b = true) →
    isBlank c = false → isBlank d = false → isGlyph c = true ∨ isGlyph d = true

/-- Whether the text ends with a blank behind a character that is no operator. -/
def dangles (s : Text) : Bool :=
  s.getLast?.any isBlank && s.trimEnd.getLast?.any fun c => !isGlyph c

theorem keepsApart_nil : KeepsApart [] := fun c blanks d h =>
  absurd (List.infix_nil.mp h) (List.cons_ne_nil c (blanks ++ [d]))

theorem KeepsApart.of_isInfix {s t : Text} (h : t.KeepsApart) (hoccurs : s <:+: t) : s.KeepsApart :=
  fun c blanks d hs => h c blanks d (hs.trans hoccurs)

theorem KeepsApart.of_isPrefix {s t : Text} (h : t.KeepsApart) (hfront : s <+: t) : s.KeepsApart :=
  h.of_isInfix hfront.isInfix

theorem dangles_concat (s : Text) {c : Char} (h : isBlank c = false) : dangles (s ++ [c]) = false := by
  simp [dangles, h]

theorem dangles_blanks (s : Text) {c : Char} {blanks : Text} (hc : isBlank c = false)
    (h : ∀ b ∈ blanks, isBlank b = true) (hne : blanks ≠ []) :
    dangles (s ++ c :: blanks) = !isGlyph c := by
  have hsplit : s ++ c :: blanks = s ++ [c] ++ blanks := by simp
  have hlast : isBlank (blanks.getLast hne) = true := h _ (List.getLast_mem hne)
  rw [dangles, hsplit, trimEnd_blanks _ h, trimEnd_concat s hc, List.getLast?_concat,
    List.getLast?_append_of_ne_nil _ hne, List.getLast?_eq_some_getLast hne]
  simp [hlast]

/-- A character may be written behind the text unless it is taken for a part of the operand at its
end. -/
theorem KeepsApart.concat {s : Text} (h : s.KeepsApart) {c : Char}
    (hc : isBlank c = true ∨ isGlyph c = true ∨ dangles s = false) : (s ++ [c]).KeepsApart := by
  intro a blanks d hoccurs hne hblanks ha hd
  rcases List.infix_concat_iff.mp hoccurs with ⟨front, hsuffix⟩ | hoccurs
  · have hsplit : front ++ a :: blanks ++ [d] = s ++ [c] := by simpa using hsuffix
    obtain ⟨rfl, hd'⟩ := List.append_inj' hsplit rfl
    obtain rfl : d = c := List.singleton_inj.mp hd'
    rw [dangles_blanks front ha hblanks hne, hd] at hc
    simpa [or_comm] using hc
  · exact h a blanks d hoccurs hne hblanks ha hd

theorem isBlank_of_trimEnd {s front : Text} {c : Char} (h : trimEnd s = front ++ [c]) :
    isBlank c = false := by
  apply getLast?_dropEndWhile isBlank s
  rw [← trimEnd, h]
  simp

theorem exists_of_dangles {s : Text} (h : dangles s = true) :
    ∃ front c blanks, s = front ++ c :: blanks ∧ blanks ≠ [] ∧ (∀ b ∈ blanks, isBlank b = true) ∧
      isBlank c = false ∧ isGlyph c = false := by
  rw [dangles, Bool.and_eq_true] at h
  obtain ⟨hlast, hend⟩ := h
  obtain ⟨blanks, hblanks, hsplit⟩ := s.exists_trimEnd
  rcases List.eq_nil_or_concat' (trimEnd s) with hnone | ⟨front, c, htrim⟩
  · rw [hnone] at hend
    cases hend
  · have hblank := isBlank_of_trimEnd htrim
    have hfront : s = front ++ c :: blanks := hsplit.trans (by simp [htrim])
    refine ⟨front, c, blanks, hfront, ?_, hblanks, hblank, ?_⟩
    · rintro rfl
      simp [hfront, hblank] at hlast
    · simpa [htrim] using hend

/-- The operand at the end continues across the blanks. -/
theorem not_keepsApart_concat {s : Text} (h : dangles s = true) {c : Char} (hblank : isBlank c = false)
    (hglyph : isGlyph c = false) : ¬ (s ++ [c]).KeepsApart := by
  intro happart
  obtain ⟨front, a, blanks, rfl, hne, hblanks, ha, hoperand⟩ := exists_of_dangles h
  have hoccurs : a :: (blanks ++ [c]) <:+: front ++ a :: blanks ++ [c] := by
    simpa using (List.suffix_append front (a :: (blanks ++ [c]))).isInfix
  rcases happart a blanks c hoccurs hne hblanks ha hblank with h | h
  · rw [hoperand] at h
    cases h
  · rw [hglyph] at h
    cases h

/-- An expression that operands and operators can be written behind: it keeps its operands apart, and
the one at its end has no blank behind it. -/
structure IsSettled (s : Text) : Prop where
  apart : s.KeepsApart
  not_dangling : dangles s = false

theorem isSettled_nil : IsSettled [] := ⟨keepsApart_nil, rfl⟩

theorem IsSettled.append {s run : Text} (h : s.IsSettled) (hrun : ∀ c ∈ run, isBlank c = false) :
    (s ++ run).IsSettled := by
  induction run using List.reverseRecOn with
  | nil => rwa [List.append_nil]
  | append_singleton run c ih =>
    have hc : isBlank c = false := hrun c (by simp)
    rw [← List.append_assoc]
    have hfront := ih fun a ha => hrun a (List.mem_append_left _ ha)
    exact ⟨hfront.apart.concat (.inr (.inr hfront.not_dangling)), dangles_concat _ hc⟩

/-- An operator between two spaces may stand behind every text. -/
theorem KeepsApart.operator {s : Text} (h : s.KeepsApart) (o : BinaryOp) :
    (s ++ [' ', o.glyph, ' ']).IsSettled := by
  have hglyph : isGlyph o.glyph = true ∧ isBlank o.glyph = false := by cases o <;> decide
  have hspaces : ∀ b ∈ [' '], isBlank b = true := by simp; decide
  constructor
  · have hsplit : s ++ [' ', o.glyph, ' '] = s ++ [' '] ++ [o.glyph] ++ [' '] := by simp
    rw [hsplit]
    exact ((h.concat (.inl rfl)).concat (.inr (.inl hglyph.1))).concat (.inl rfl)
  · have hsplit : s ++ [' ', o.glyph, ' '] = s ++ [' '] ++ o.glyph :: [' '] := by simp
    rw [hsplit, dangles_blanks _ hglyph.2 hspaces (List.cons_ne_nil _ _), hglyph.1]
    rfl

/-- What a character of an operand was written behind is left settled when that is taken away. -/
theorem IsSettled.of_concat {s : Text} {c : Char} (h : (s ++ [c]).IsSettled) (hblank : isBlank c = false)
    (hglyph : isGlyph c = false) : s.IsSettled := by
  refine ⟨h.apart.of_isPrefix (List.prefix_append s [c]), ?_⟩
  by_contra hdangles
  exact not_keepsApart_concat (by simpa using hdangles) hblank hglyph h.apart

theorem IsSettled.of_append {s run : Text} (h : (s ++ run).IsSettled)
    (hrun : ∀ c ∈ run, isBlank c = false ∧ isGlyph c = false) : s.IsSettled := by
  induction run using List.reverseRecOn with
  | nil => rwa [List.append_nil] at h
  | append_singleton run c ih =>
    rw [← List.append_assoc] at h
    obtain ⟨hblank, hglyph⟩ := hrun c (by simp)
    exact ih (h.of_concat hblank hglyph) fun a ha => hrun a (List.mem_append_left _ ha)

theorem IsSettled.dropLast {s : Text} (h : s.IsSettled)
    (hglyph : s.getLast?.any isGlyph = true → dangles s.dropLast = false) : IsSettled s.dropLast := by
  rcases List.eq_nil_or_concat' s with rfl | ⟨front, c, rfl⟩
  · exact isSettled_nil
  rw [List.dropLast_concat] at hglyph ⊢
  rw [List.getLast?_concat] at hglyph
  cases hoperator : isGlyph c with
  | true => exact ⟨h.apart.of_isPrefix (List.prefix_append front [c]), hglyph hoperator⟩
  | false =>
    cases hblank : isBlank c with
    | false => exact h.of_concat hblank hoperator
    | true =>
      refine ⟨h.apart.of_isPrefix (List.prefix_append front [c]), ?_⟩
      -- a blank more behind the operand changes nothing
      by_contra hdangles
      obtain ⟨s, a, blanks, rfl, -, hblanks, ha, hoperand⟩ := exists_of_dangles (by simpa using hdangles)
      have hmore : ∀ b ∈ blanks ++ [c], isBlank b = true := by
        intro b hb
        rcases List.mem_append.mp hb with h | h
        · exact hblanks b h
        · rwa [List.mem_singleton.mp h]
      have hend := h.not_dangling
      rw [List.append_assoc, List.cons_append, dangles_blanks s ha hmore (by simp), hoperand] at hend
      cases hend

theorem KeepsApart.trimEnd {s : Text} (h : s.KeepsApart) : s.trimEnd.IsSettled := by
  refine ⟨h.of_isPrefix (dropEndWhile_isPrefix _ s), ?_⟩
  rcases List.eq_nil_or_concat' s.trimEnd with hnone | ⟨front, c, htrim⟩
  · rw [hnone]
    rfl
  · rw [htrim]
    exact dangles_concat front (isBlank_of_trimEnd htrim)

/-- Without an operator in it, a text that keeps its operands apart has blanks at its ends only. -/
theorem KeepsApart.exists_compact {s : Text} (h : s.KeepsApart)
    (hoperand : ∀ c ∈ compact s, isGlyph c = false) :
    ∃ front back, compact front = [] ∧ s = front ++ (compact s ++ back) := by
  induction s with
  | nil => exact ⟨[], [], rfl, rfl⟩
  | cons c s ih =>
    have hsuffix : KeepsApart s := h.of_isInfix (List.suffix_cons c s).isInfix
    cases hc : isBlank c with
    | true =>
      have hskip : compact (c :: s) = compact s := List.filter_cons_of_neg (by simp [hc])
      rw [hskip] at hoperand ⊢
      obtain ⟨front, back, hfront, hsplit⟩ := ih hsuffix hoperand
      exact ⟨c :: front, back, compact_eq_nil.mpr (by simpa [hc] using compact_eq_nil.mp hfront),
        congrArg (c :: ·) hsplit⟩
    | false =>
      have hcons : compact (c :: s) = c :: compact s := List.filter_cons_of_pos (by simp [hc])
      rw [hcons] at hoperand ⊢
      obtain ⟨front, back, hfront, hsplit⟩ := ih hsuffix fun a ha => hoperand a (List.mem_cons_of_mem c ha)
      rcases hword : compact s with _ | ⟨d, word⟩
      · exact ⟨[], s, rfl, rfl⟩
      · -- the blanks between `c` and `d` would join two operands
        have hd : isBlank d = false := by
          have hmem : d ∈ compact s := by simp [hword]
          simpa using (List.mem_filter.mp hmem).2
        have hoccurs : c :: (front ++ [d]) <:+: c :: s := by
          refine ⟨[], word ++ back, ?_⟩
          rw [hsplit, hword]
          simp
        have hnone : front = [] := by
          by_contra hne
          rcases h c front d hoccurs hne (compact_eq_nil.mp hfront) hc hd with hglyph | hglyph
          · rw [hoperand c List.mem_cons_self] at hglyph
            cases hglyph
          · rw [hoperand d (by simp [hword])] at hglyph
            cases hglyph
        refine ⟨[], back, rfl, ?_⟩
        rw [hnone, hword] at hsplit
        exact congrArg (c :: ·) hsplit

/-- In a text that keeps its operands apart, what stands together without the blanks and is no operator
stands together with them. -/
theorem KeepsApart.infix_of_compact {s run : Text} (h : s.KeepsApart) (hoccurs : run <:+: compact s)
    (hrun : ∀ c ∈ run, isGlyph c = false) : run <:+: s := by
  obtain ⟨front, back, hsplit⟩ := hoccurs
  obtain ⟨before, after, rfl, hbefore, -⟩ := List.filter_eq_append_iff.mp hsplit.symm
  obtain ⟨before, word, rfl, -, rfl⟩ := List.filter_eq_append_iff.mp hbefore
  have hword : word <:+: before ++ word ++ after := List.infix_append before word after
  obtain ⟨front, back, -, hword'⟩ := (h.of_isInfix hword).exists_compact hrun
  exact List.IsInfix.trans ⟨front, back, (List.append_assoc _ _ _).trans hword'.symm⟩ hword

end Text

theorem separate_of_isNumeral {c : Char} (h : Token.isNumeral c = true) :
    isBlank c = false ∧ isGlyph c = false :=
  ⟨Token.isBlank_of_isNumeral h,
    decide_eq_false (not_mem_of_isOperatorChar (by simp) (isOperatorChar_of_isNumeral h))⟩

namespace Draft

theorem separate_display {s : Text} (h : s.IsShown) : ∀ c ∈ s, isBlank c = false := by
  intro c hc
  rcases h.mem hc with h | rfl | rfl
  · exact (separate_of_isNumeral h).1
  · decide
  · decide

theorem isSettled_dropNumeral {s : Text} (h : s.IsSettled) : (dropNumeral s).IsSettled := by
  obtain ⟨run, hrun, hsplit⟩ := Text.exists_dropEndWhile Token.isNumeral s
  rw [hsplit] at h
  exact h.of_append fun c hc => separate_of_isNumeral (hrun c hc)

theorem isSettled_dropZero {s : Text} (h : s.IsSettled) : (dropZero s).IsSettled := by
  unfold dropZero
  split
  · rename_i hlast
    exact h.dropLast fun hglyph => by rw [hlast] at hglyph; cases hglyph
  · exact h

/-- A key keeps the operands apart, if it is not backspace taking an operator from behind an operand. -/
theorem Edit.isSettled {d d' : Draft} {key : Key} (h : d.Edit key d') (hd : d.Coherent)
    (hshown : d.display.IsShown) (hsettled : d.expression.IsSettled)
    (hkept : key = .backspace → d.awaitingOperand = false → d.expression.getLast?.any isGlyph = true →
      Text.dangles d.expression.dropLast = false) : d'.expression.IsSettled := by
  have hdisplay := separate_display hshown
  have hdigit {value : Nat} (hvalue : value < 10) : ∀ c ∈ [value.digitChar], isBlank c = false :=
    fun c hc => List.mem_singleton.mp hc ▸ (separate_of_isNumeral (isNumeral_digitChar hvalue)).1
  have hpoint : ∀ c ∈ ['0', '.'], isBlank c = false := fun c hc =>
    (separate_of_isNumeral (List.all_eq_true.mp rfl c hc)).1
  have hpercent : ∀ c ∈ ['%'], isBlank c = false := List.forall_mem_singleton.mpr (by decide)
  cases h with
  | digitBehindOperator hvalue => exact hsettled.append (hdigit hvalue)
  | digitForResult hvalue => exact Text.isSettled_nil.append (hdigit hvalue)
  | digitForZero hvalue => exact (isSettled_dropZero hsettled).append (hdigit hvalue)
  | digit hvalue => exact hsettled.append (hdigit hvalue)
  | pointFirst => exact hsettled.append hpoint
  | pointApart hfresh hempty hblank =>
    rw [(hd.spaced hfresh).resolve_left hempty] at hblank
    cases hblank
  | point => exact hsettled.append (List.forall_mem_singleton.mpr (by decide))
  | operatorForOperator o =>
    have hleft : Text.trimEnd d.expression.trimEnd.dropLast <+: d.expression :=
      (Text.dropEndWhile_isPrefix _ _).trans
        ((List.dropLast_prefix _).trans (Text.dropEndWhile_isPrefix _ _))
    exact (hsettled.apart.of_isPrefix hleft).operator o
  | operatorBehindDisplay o => exact (Text.isSettled_nil.append hdisplay).apart.operator o
  | operator o => exact hsettled.apart.operator o
  | percentOfDisplay =>
    have hoperand : ∀ c ∈ (if d.display.isEmpty then ['0'] else d.display), isBlank c = false := by
      split
      · exact List.forall_mem_singleton.mpr (by decide)
      · exact hdisplay
    exact (hsettled.append hoperand).append hpercent
  | percent => exact hsettled.append hpercent
  | backspaceBehindOperator =>
    dsimp only
    split
    · exact isSettled_dropNumeral hsettled.apart.trimEnd
    · exact hsettled
  | backspace _ hawaiting => exact hsettled.dropLast (hkept rfl hawaiting)

/-- A digit or a point continues the operand across a blank. -/
theorem Edit.not_keepsApart {d d' : Draft} {key : Key} (h : d.Edit key d')
    (hkey : key.writesNumeral = true) (hdangles : Text.dangles d.expression = true)
    (hawaiting : d.awaitingOperand = false) (hcomputed : d.justComputed = false)
    (hequals : d.lastKey ≠ some .equals) : ¬ d'.expression.KeepsApart := by
  have hjoin {c : Char} (hc : Token.isNumeral c = true) : ¬ Text.KeepsApart (d.expression ++ [c]) :=
    Text.not_keepsApart_concat hdangles (separate_of_isNumeral hc).1 (separate_of_isNumeral hc).2
  cases h with
  | digitBehindOperator _ h =>
    rw [hawaiting] at h
    cases h
  | digitForResult _ _ h =>
    rw [hcomputed] at h
    exact absurd (h.resolve_left nofun) hequals
  | digitForZero hvalue =>
    have hblank : d.expression.getLast?.any isBlank = true := (Bool.and_eq_true_iff.mp hdangles).1
    have hzero : dropZero d.expression = d.expression := by
      rw [dropZero, if_neg]
      intro hlast
      rw [hlast] at hblank
      cases hblank
    dsimp only
    rw [hzero]
    exact hjoin (isNumeral_digitChar hvalue)
  | digit hvalue => exact hjoin (isNumeral_digitChar hvalue)
  | pointFirst h => simp [hawaiting, hcomputed] at h
  | pointApart h => simp [hawaiting, hcomputed] at h
  | point => exact hjoin rfl
  | _ => cases hkey

theorem keepsApart_toEvaluate {d : Draft} (hshown : d.display.IsShown)
    (hsettled : d.expression.IsSettled) : d.toEvaluate.KeepsApart := by
  unfold toEvaluate
  split
  · exact (hsettled.append (separate_display hshown)).apart
  · split
    · exact (Text.isSettled_nil.append (separate_display hshown)).apart
    · exact hsettled.apart

end Draft

namespace Session

/-- Whether the event is a backspace that takes an operator away and leaves the blank in front of it
behind an operand. -/
def uncouples (s : Session) : Event → Bool
  | .press .backspace _ =>
    !s.isCalculating && !s.draft.awaitingOperand && !s.draft.display.isEmpty
      && s.draft.expression.getLast?.any isGlyph && Text.dangles s.draft.expression.dropLast
  | _ => false

theorem settled_step {s : Session} {e : Event} (hcoherent : s.draft.Coherent)
    (hshown : s.draft.display.IsShown) (hsettled : s.draft.expression.IsSettled)
    (hkept : s.uncouples e = false) : (s.step e).draft.expression.IsSettled := by
  have hchange := s.change_step e
  generalize (s.step e).draft = d at hchange ⊢
  cases hchange with
  | kept => exact hsettled
  | typed now hcalculating hkey =>
    have hedit := Draft.edit_of_typeKey hkey
    refine hedit.isSettled hcoherent hshown hsettled ?_
    rintro rfl hawaiting hglyph
    have hdisplay : s.draft.display ≠ [] := by
      cases hedit <;> assumption
    simpa [uncouples, hcalculating, hawaiting, hglyph, hdisplay] using hkept
  | entryCleared => exact Draft.isSettled_dropNumeral hsettled
  | allCleared => exact Text.isSettled_nil
  | computed => exact Text.isSettled_nil

theorem settled_run (p : Parameters) {events : List Event}
    (hkept : (new p).Along (fun s e => s.uncouples e = false) events) :
    ((new p).run events).draft.expression.IsSettled :=
  run_of_along (P := fun s => s.draft.expression.IsSettled) Text.isSettled_nil
    (fun before _ _ h hkept => settled_step (coherent_run p before) (isShown_run p before) h hkept) hkept

/-- As long as backspace takes no operator from behind an operand, the blanks of the expression stand next
to operators only, and every number in what is evaluated is written in it without a blank. Once it has
taken one, the next digit or point joins two operands. -/
theorem operands_kept_apart (p : Parameters) (events : List Event)
    (hkept : (new p).Along (fun s e => s.uncouples e = false) events) :
    let s := (new p).run events
    s.draft.expression.KeepsApart ∧
      (∀ run : Text, (∀ c ∈ run, Token.isNumeral c = true) → run <:+: s.draft.toEvaluate.compact →
        run <:+: s.draft.toEvaluate) ∧
      ∀ (key : Key) (t u : Time), s.uncouples (.press .backspace t) = true →
        key.writesNumeral = true →
        let s' := (s.press .backspace t).press key u
        s'.draft.lastKey = some key → ¬ s'.draft.expression.KeepsApart := by
  intro s
  have hshown : s.draft.display.IsShown := isShown_run p events
  have hsettled : s.draft.expression.IsSettled := settled_run p hkept
  refine ⟨hsettled.apart, ?_, ?_⟩
  · intro run hrun hoccurs
    exact (Draft.keepsApart_toEvaluate hshown hsettled).infix_of_compact hoccurs fun c hc =>
      (separate_of_isNumeral (hrun c hc)).2
  · intro key t u huncouples hkey s' hlast
    simp only [uncouples, Bool.and_eq_true, Bool.not_eq_true', List.isEmpty_eq_false_iff] at huncouples
    obtain ⟨⟨⟨⟨hcalculating, hawaiting⟩, hdisplay⟩, -⟩, hdangles⟩ := huncouples
    have hspelled := (isSpelled_run p events).2
    obtain ⟨d, hbackspace, hedit⟩ :=
      exists_edit_backspace hshown.isSpelled hspelled hdisplay hcalculating hkey hlast
    cases hbackspace with
    | backspaceBehindOperator _ h =>
      rw [hawaiting] at h
      cases h
    | backspace => exact hedit.not_keepsApart hkey hdangles rfl rfl nofun

/-- `12 + 34` is evaluated as it is written. After `123 +` two presses of backspace are harmless; a third
one takes the operator, and a `4` continues the `123`. -/
theorem operands_of_twelve_plus :
    let typed : List Event := [.digit 1, .digit 2, .op .add, .digit 3, .digit 4].map fun key =>
      .press key 0
    let shortened : List Event := [.digit 1, .digit 2, .digit 3, .op .add, .backspace, .backspace].map
      fun key => .press key 0
    (new {}).Along (fun s e => s.uncouples e = false) typed ∧
      (new {}).Along (fun s e => s.uncouples e = false) shortened ∧
      ((new {}).run typed).draft.expression.KeepsApart ∧
      ¬ ((((new {}).run shortened).press .backspace 0).press (.digit 4) 0).draft.expression.KeepsApart := by
  intro typed shortened
  have htyped : (new {}).Along (fun s e => s.uncouples e = false) typed := by decide +kernel
  have hshortened : (new {}).Along (fun s e => s.uncouples e = false) shortened := by decide +kernel
  refine ⟨htyped, hshortened, (operands_kept_apart {} typed htyped).1, ?_⟩
  exact (operands_kept_apart {} shortened hshortened).2.2 (.digit 4) 0 0 (by decide +kernel) rfl
    (by decide +kernel)

/-- Operands are not always kept apart: three presses of backspace after `123 +` empty the display and
take the operator, and with a `4` behind them the expression is `123 4`. -/
theorem not_operands_kept_apart :
    ¬ ∀ (p : Parameters) (events : List Event), ((new p).run events).draft.expression.KeepsApart := by
  intro h
  have happart := h {} ([.digit 1, .digit 2, .digit 3, .op .add, .backspace, .backspace, .backspace,
    .digit 4].map fun key => .press key 0)
  have hoccurs : '3' :: ([' '] ++ ['4']) <:+:
      ((new {}).run ([.digit 1, .digit 2, .digit 3, .op .add, .backspace, .backspace, .backspace,
        .digit 4].map fun key => .press key 0)).draft.expression := ⟨['1', '2'], [], by decide +kernel⟩
  have hspace : ∀ b ∈ [' '], isBlank b = true := List.forall_mem_singleton.mpr rfl
  rcases happart '3' [' '] '4' hoccurs (List.cons_ne_nil _ _) hspace (by decide) (by decide) with h | h
  · cases h
  · cases h

end Session
end KeypadCalc
