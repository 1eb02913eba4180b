import KeypadCalc.Proofs.OperatorOrder
import KeypadCalc.Proofs.PendingCalculation
import KeypadCalc.Proofs.ShownOperand

/-!
# What clearing an entry leaves

The key for clearing an entry empties the display and takes the digits and points away that the expression
ends with. It looks for nothing else: a percent sign that was the end of the operand stays, and so does an
infinity sign, so what is left need not end with an operator.

That blanks alone are never left rests on how an expression can begin. One that begins with a blank begins
with an operator that was typed on an empty draft. From then on the display is shorter than the expression,
blanks apart, and backspace, which needs something on the display, does not get back to that operator.
-/
namespace KeypadCalc

namespace Text

/-- Whether the first character that is no blank is an operator. -/
def startsWithOperator (s : Text) : Bool :=
  s.compact.head?.any isGlyph

/-- A blank at the beginning stands before an operator. -/
def IsLed (s : Text) : Prop :=
  s.head?.any isBlank = true → s.startsWithOperator = true

theorem compact_ne_nil_of_startsWithOperator {s : Text} (h : s.startsWithOperator = true) :
    s.compact ≠ [] := by
  intro hempty
  rw [startsWithOperator, hempty] at h
  cases h

theorem startsWithOperator_append {s : Text} (h : s.compact ≠ []) (run : Text) :
    startsWithOperator (s ++ run) = s.startsWithOperator := by
  rw [startsWithOperator, startsWithOperator, compact_append, List.head?_append_of_ne_nil _ h]

theorem compact_ne_nil_of_append {s run : Text} (hrun : ∀ c ∈ run, isGlyph c = false)
    (h : startsWithOperator (s ++ run) = true) : s.compact ≠ [] := by
  intro hempty
  rw [startsWithOperator, compact_append, hempty, List.nil_append] at h
  obtain ⟨c, hc, hglyph⟩ := (Option.any_eq_true _ _).mp h
  rw [hrun c (List.mem_of_mem_filter (List.mem_of_mem_head? hc))] at hglyph
  cases hglyph

theorem head?_blank {s : Text} (hne : s ≠ []) (hblank : s.compact = []) :
    s.head?.any isBlank = true := by
  obtain ⟨c, rest, rfl⟩ := List.exists_cons_of_ne_nil hne
  exact compact_eq_nil.mp hblank c List.mem_cons_self

theorem isLed_nil : IsLed [] := nofun

theorem isLed_of_not_blank {s : Text} (h : ∀ c ∈ s, isBlank c = false) : s.IsLed := by
  intro hhead
  cases s with
  | nil => cases hhead
  | cons c rest =>
    rw [List.head?_cons, Option.any_some, h c List.mem_cons_self] at hhead
    cases hhead

theorem isLed_operator (o : BinaryOp) : IsLed [' ', o.glyph, ' '] := by
  intro _
  cases o <;> rfl

theorem IsLed.compact_ne_nil {s : Text} (h : s.IsLed) (hne : s ≠ []) : s.compact ≠ [] := fun hempty =>
  compact_ne_nil_of_startsWithOperator (h (head?_blank hne hempty)) hempty

theorem IsLed.append {s run : Text} (h : s.IsLed) (hrun : run.IsLed) : IsLed (s ++ run) := by
  by_cases hempty : s = []
  · rw [hempty, List.nil_append]
    exact hrun
  · intro hhead
    rw [List.head?_append_of_ne_nil _ hempty] at hhead
    rw [startsWithOperator_append (h.compact_ne_nil hempty)]
    exact h hhead

theorem IsLed.of_isPrefix {s t : Text} (h : t.IsLed) (hfront : s <+: t)
    (hne : s ≠ [] → s.compact ≠ []) : s.IsLed := by
  obtain ⟨rest, rfl⟩ := hfront
  by_cases hempty : s = []
  · rw [hempty]
    exact isLed_nil
  · intro hhead
    have hstart := h (by rwa [List.head?_append_of_ne_nil _ hempty])
    rwa [startsWithOperator_append (hne hempty)] at hstart

/-- Blanks at the beginning belong to an operator behind them. -/
theorem IsLed.startsWithOperator {s run : Text} (h : IsLed (s ++ run)) (hne : s ≠ [])
    (hblank : s.compact = []) : Text.startsWithOperator (s ++ run) = true :=
  h (by rw [List.head?_append_of_ne_nil _ hne]; exact head?_blank hne hblank)

theorem IsLed.of_append {s run : Text} (h : IsLed (s ++ run)) (hrun : ∀ c ∈ run, isGlyph c = false) :
    s.IsLed :=
  h.of_isPrefix (List.prefix_append s run) fun hne hblank =>
    compact_ne_nil_of_append hrun (h.startsWithOperator hne hblank) hblank

theorem compact_trimEnd_ne_nil {s : Text} (hne : s.trimEnd ≠ []) : s.trimEnd.compact ≠ [] := by
  intro hempty
  rw [compact_trimEnd] at hempty
  exact hne (trimEnd_blanks [] (compact_eq_nil.mp hempty))

theorem compact_operator (s : Text) (o : BinaryOp) :
    compact (s ++ [' ', o.glyph, ' ']) = s.compact ++ [o.glyph] := by
  rw [compact_append]
  cases o <;> rfl

end Text

namespace Draft

/-- The expression begins with a blank only if an operator comes next; and if it begins with an operator,
blanks apart, then the display is shorter than what it has besides blanks. -/
structure Anchored (d : Draft) : Prop where
  led : d.expression.IsLed
  covers : d.expression.startsWithOperator = true → d.display.length < d.expression.compact.length

theorem anchored_of_isLed {d : Draft} (hled : d.expression.IsLed) (hdisplay : d.display = []) :
    d.Anchored := by
  refine ⟨hled, fun hstart => ?_⟩
  rw [hdisplay]
  exact List.length_pos_iff.mpr (Text.compact_ne_nil_of_startsWithOperator hstart)

theorem anchored_new : Anchored {} := anchored_of_isLed Text.isLed_nil rfl

/-- What an operand is written with may be typed behind the expression. -/
theorem Anchored.append {d d' : Draft} (h : d.Anchored) {run : Text}
    (hrun : ∀ c ∈ run, isBlank c = false ∧ isGlyph c = false)
    (hexpression : d'.expression = d.expression ++ run)
    (hdisplay : d'.display.length ≤ d.display.length + run.length) : d'.Anchored := by
  constructor
  · rw [hexpression]
    exact h.led.append (Text.isLed_of_not_blank fun c hc => (hrun c hc).1)
  · rw [hexpression]
    intro hstart
    have hne := Text.compact_ne_nil_of_append (fun c hc => (hrun c hc).2) hstart
    rw [Text.startsWithOperator_append hne] at hstart
    have hcovers := h.covers hstart
    rw [Text.compact_append, Text.compact_eq_self fun c hc => (hrun c hc).1, List.length_append]
    omega

theorem isLed_dropNumeral {s : Text} (h : s.IsLed) : (dropNumeral s).IsLed := by
  obtain ⟨run, hrun, hsplit⟩ := Text.exists_dropEndWhile Token.isNumeral s
  rw [hsplit] at h
  exact h.of_append fun c hc => (separate_of_isNumeral (hrun c hc)).2

theorem isLed_dropZero {s : Text} (h : s.IsLed) : (dropZero s).IsLed := by
  unfold dropZero
  split
  · rename_i hzero
    obtain ⟨front, rfl⟩ := List.getLast?_eq_some_iff.mp hzero
    rw [List.dropLast_concat]
    exact h.of_append (List.forall_mem_singleton.mpr rfl)
  · exact h

/-- An operator in the place of another one. -/
theorem Anchored.overwrite {d d' : Draft} (h : d.Anchored) (hoperator : d.expression.endsWithOperator = true)
    {o : BinaryOp}
    (hexpression : d'.expression = Text.trimEnd d.expression.trimEnd.dropLast ++ [' ', o.glyph, ' '])
    (hdisplay : d'.display = d.display) : d'.Anchored := by
  obtain ⟨s, c, htrim, hglyph, -⟩ := exists_front hoperator
  have hold : d.expression.compact = s.compact ++ [c] := Text.compact_of_trimEnd htrim
  have hfront : s.trimEnd <+: d.expression := by
    have hs : s <+: d.expression.trimEnd := htrim ▸ List.prefix_append s [c]
    exact (Text.dropEndWhile_isPrefix _ s).trans (hs.trans (Text.dropEndWhile_isPrefix _ _))
  rw [htrim, List.dropLast_concat] at hexpression
  have hnew : d'.expression.compact = s.compact ++ [o.glyph] := by
    rw [hexpression, Text.compact_operator, Text.compact_trimEnd]
  have hstart : d'.expression.startsWithOperator = d.expression.startsWithOperator := by
    rw [Text.startsWithOperator, Text.startsWithOperator, hnew, hold]
    -- with nothing before it, the operator is what the expression begins with, now as before
    cases s.compact with
    | nil => cases o <;> exact hglyph.symm
    | cons => rfl
  constructor
  · rw [hexpression]
    exact (h.led.of_isPrefix hfront Text.compact_trimEnd_ne_nil).append (Text.isLed_operator o)
  · intro hlead
    have hcovers := h.covers (hstart ▸ hlead)
    rw [hold, List.length_append] at hcovers
    rw [hdisplay, hnew, List.length_append]
    exact hcovers

/-- Backspace does not reach the operator that the expression begins with. -/
theorem Anchored.dropLast {d d' : Draft} (h : d.Anchored) (hne : d.display ≠ [])
    (hexpression : d'.expression = d.expression.dropLast) (hdisplay : d'.display = d.display.dropLast) :
    d'.Anchored := by
  have hpos : 0 < d.display.length := List.length_pos_iff.mpr hne
  have hled := h.led
  have hcovers := h.covers
  rcases List.eq_nil_or_concat' d.expression with hempty | ⟨s, c, hsplit⟩
  · rw [hempty] at hexpression
    constructor
    · rw [hexpression]
      exact Text.isLed_nil
    · rw [hexpression]
      nofun
  rw [hsplit, List.dropLast_concat] at hexpression
  rw [hsplit] at hled hcovers
  have hone : (Text.compact [c]).length ≤ 1 := List.length_filter_le _ _
  rw [Text.compact_append, List.length_append] at hcovers
  constructor
  · rw [hexpression]
    refine hled.of_isPrefix (List.prefix_append s [c]) fun hs hblank => ?_
    -- `c` would be the operator that the blanks belong to, and the display would be empty
    have hlong := hcovers (hled.startsWithOperator hs hblank)
    rw [hblank, List.length_nil] at hlong
    omega
  · intro hstart
    rw [hexpression] at hstart ⊢
    have hs : Text.compact s ≠ [] := Text.compact_ne_nil_of_startsWithOperator hstart
    have hlong := hcovers (by rwa [Text.startsWithOperator_append hs])
    rw [hdisplay, List.length_dropLast]
    omega

theorem Edit.anchored {d d' : Draft} {key : Key} (h : d.Edit key d') (hd : d.Coherent)
    (hshown : d.display.IsShown) (hanchored : d.Anchored) : d'.Anchored := by
  have hdigit {value : Nat} (hvalue : value < 10) :
      ∀ c ∈ [value.digitChar], isBlank c = false ∧ isGlyph c = false := fun c hc =>
    List.mem_singleton.mp hc ▸ separate_of_isNumeral (isNumeral_digitChar hvalue)
  have hpoint : ∀ c ∈ ['0', '.'], isBlank c = false ∧ isGlyph c = false := fun c hc =>
    separate_of_isNumeral (List.all_eq_true.mp rfl c hc)
  have hpercent : ∀ c ∈ ['%'], isBlank c = false := List.forall_mem_singleton.mpr (by decide)
  have hdisplay := separate_display hshown
  cases h with
  | digitBehindOperator hvalue => exact hanchored.append (hdigit hvalue) rfl (by simp)
  | digitForResult hvalue => exact anchored_new.append (hdigit hvalue) rfl (by simp)
  | digitForZero hvalue =>
    have hrest : Anchored { d with display := [], expression := dropZero d.expression } :=
      anchored_of_isLed (isLed_dropZero hanchored.led) rfl
    exact hrest.append (hdigit hvalue) rfl (by simp)
  | digit hvalue => exact hanchored.append (hdigit hvalue) rfl (by simp)
  | pointFirst => exact hanchored.append hpoint rfl (by simp)
  | pointApart hfresh hempty hblank =>
    rw [(hd.spaced hfresh).resolve_left hempty] at hblank
    cases hblank
  | point =>
    exact hanchored.append (List.forall_mem_singleton.mpr (by decide)) rfl (by simp)
  | operatorForOperator o hoperator => exact hanchored.overwrite hoperator rfl rfl
  | operatorBehindDisplay o =>
    refine ⟨(Text.isLed_of_not_blank hdisplay).append (Text.isLed_operator o), fun _ => ?_⟩
    dsimp only
    rw [Text.compact_operator, Text.compact_eq_self hdisplay, List.length_append]
    exact Nat.lt_succ_self _
  | operator o hempty =>
    refine ⟨hanchored.led.append (Text.isLed_operator o), fun hstart => ?_⟩
    dsimp only at hstart ⊢
    rw [Text.startsWithOperator_append (hanchored.led.compact_ne_nil hempty)] at hstart
    rw [Text.compact_operator, List.length_append]
    exact Nat.lt_succ_of_lt (hanchored.covers hstart)
  | percentOfDisplay =>
    have hoperand : ∀ c ∈ (if d.display.isEmpty then ['0'] else d.display), isBlank c = false := by
      split
      · exact List.forall_mem_singleton.mpr (by decide)
      · exact hdisplay
    have hlength : d.display.length ≤ (if d.display.isEmpty then ['0'] else d.display).length := by
      split
      · rename_i hempty
        simp [List.isEmpty_iff.mp hempty]
      · exact le_rfl
    refine ⟨(hanchored.led.append (Text.isLed_of_not_blank hoperand)).append
      (Text.isLed_of_not_blank hpercent), fun _ => ?_⟩
    dsimp only
    rw [Text.compact_append, Text.compact_append, Text.compact_eq_self hoperand,
      Text.compact_eq_self hpercent, List.length_append, List.length_append, List.length_singleton]
    omega
  | percent => exact hanchored.append (List.forall_mem_singleton.mpr (by decide)) rfl (by simp)
  | backspaceBehindOperator _ hawaiting =>
    refine hanchored.append (List.forall_mem_nil _) ?_ (by simp)
    dsimp only
    rw [hd.endsWithNumeral_eq_false hawaiting, if_neg Bool.false_ne_true, List.append_nil]
  | backspace hne => exact hanchored.dropLast hne rfl rfl

theorem eq_append_lastNumeral (s : Text) : s = dropNumeral s ++ lastNumeral s :=
  (List.rdropWhile_append_rtakeWhile).symm

/-- Behind a text that ends with no number a numeral is the whole last number. -/
theorem lastNumeral_compact {left numeral : Text} (hnumeral : ∀ c ∈ numeral, Token.isNumeral c = true)
    (hleft : ∀ c ∈ left.compact.getLast?, Token.isNumeral c = false) :
    lastNumeral (left ++ numeral).compact = numeral := by
  have hcompact : Text.compact numeral = numeral :=
    Text.compact_eq_self fun c hc => Token.isBlank_of_isNumeral (hnumeral c hc)
  have hnone : lastNumeral left.compact = [] := by
    rcases List.eq_nil_or_concat' left.compact with hempty | ⟨front, c, hsplit⟩
    · rw [hempty]
      rfl
    · rw [hsplit, List.getLast?_concat] at hleft
      rw [hsplit]
      exact lastNumeral_concat front (hleft c rfl)
  rw [Text.compact_append, hcompact, lastNumeral_append _ hnumeral, hnone, List.nil_append]

theorem isNumeral_eq_false_of_mark {c : Char} (h : isGlyph c = true ∨ c = '%' ∨ c = '∞') :
    Token.isNumeral c = false := by
  rcases h with hglyph | rfl | rfl
  · by_contra hnumeral
    rw [(separate_of_isNumeral (by simpa using hnumeral)).2] at hglyph
    cases hglyph
  · rfl
  · rfl

theorem mark_of_spelled {c : Char} (hspelled : isExpressionChar c = true ∨ c = '∞') (hstar : c ≠ '*')
    (hblank : isBlank c = false) (hnumeral : Token.isNumeral c = false) :
    isGlyph c = true ∨ c = '%' ∨ c = '∞' := by
  rcases hspelled with h | h
  · simp only [Token.isNumeral, Bool.or_eq_false_iff, decide_eq_false_iff_not] at hnumeral
    simp only [isExpressionChar, hblank, hnumeral.1, Bool.false_or, Bool.or_false, decide_eq_true_eq,
      List.mem_cons, List.not_mem_nil, or_false, hstar, hnumeral.2] at h
    simp only [isGlyph, List.mem_cons, List.not_mem_nil, or_false, decide_eq_true_eq]
    tauto
  · exact .inr (.inr h)

/-- With a digit or a point as its last character that is no blank, a text ends with a number or with a
blank behind an operand. -/
theorem isNumeral_eq_false_of_trimEnd {s front : Text} {c : Char} (htrim : s.trimEnd = front ++ [c])
    (hnone : lastNumeral s = []) (hdangles : s.dangles = false) : Token.isNumeral c = false := by
  by_contra hnumeral
  have hnumeral : Token.isNumeral c = true := by simpa using hnumeral
  obtain ⟨blanks, hblanks, hsplit⟩ := s.exists_trimEnd
  have hfront : s = front ++ c :: blanks := hsplit.trans (by simp [htrim])
  by_cases hend : blanks = []
  · rw [hfront, hend, lastNumeral_append front (List.forall_mem_singleton.mpr hnumeral)] at hnone
    exact List.append_ne_nil_of_right_ne_nil _ (List.cons_ne_nil c []) hnone
  · rw [hfront, Text.dangles_blanks front (Text.isBlank_of_trimEnd htrim) hblanks hend,
      (separate_of_isNumeral hnumeral).2] at hdangles
    cases hdangles

/-- A text without a number at its end, and without a blank behind an operand there, ends with an operator,
a percent sign or an infinity sign, if it is not empty. -/
theorem eq_nil_or_marked {s : Text} (hled : s.IsLed) (hspelled : s.IsSpelled) (hstar : '*' ∉ s)
    (hnone : lastNumeral s = []) (hdangles : s.dangles = false) :
    s = [] ∨ ∃ c, s.compact.getLast? = some c ∧ (isGlyph c = true ∨ c = '%' ∨ c = '∞') := by
  refine or_iff_not_imp_left.mpr fun hne => ?_
  rcases List.eq_nil_or_concat' s.trimEnd with hempty | ⟨front, c, htrim⟩
  · have hcompact := hled.compact_ne_nil hne
    rw [← Text.compact_trimEnd, hempty] at hcompact
    exact absurd rfl hcompact
  · have hmem : c ∈ s := mem_of_mem_trimEnd (by simp [htrim])
    refine ⟨c, by rw [Text.getLast?_compact, htrim, List.getLast?_concat], ?_⟩
    exact mark_of_spelled (hspelled c hmem) (fun h => hstar (h ▸ hmem)) (Text.isBlank_of_trimEnd htrim)
      (isNumeral_eq_false_of_trimEnd htrim hnone hdangles)

/-- A number is typed behind `left`, and the display shows it. -/
structure TypesBehind (d : Draft) (left : Text) : Prop where
  expression_eq : d.expression = left ++ d.display
  numeral : ∀ c ∈ d.display, Token.isNumeral c = true
  not_computed : d.justComputed = false
  not_awaiting : d.awaitingOperand = false
  equals : d.lastKey = some .equals → left = [] ∧ d.display = []

theorem Coherent.typesBehind_clearEntry {d : Draft} (h : d.Coherent) :
    d.clearEntry.TypesBehind d.clearEntry.expression where
  expression_eq := (List.append_nil _).symm
  numeral := nofun
  not_computed := rfl
  not_awaiting := rfl
  equals hequals := ⟨h.clearEntry.equals hequals, rfl⟩

theorem Edit.typesBehind {d d' : Draft} {key : Key} {left : Text} (h : d.Edit key d')
    (hkey : key.writesNumeral = true) (hd : d.TypesBehind left) : d'.TypesBehind left := by
  have hbehind {run : Text} (hrun : ∀ c ∈ run, Token.isNumeral c = true) :
      ∀ c ∈ d.display ++ run, Token.isNumeral c = true := fun c hc =>
    (List.mem_append.mp hc).elim (hd.numeral c) (hrun c)
  have hdigit {value : Nat} (hvalue : value < 10) : ∀ c ∈ [value.digitChar], Token.isNumeral c = true :=
    List.forall_mem_singleton.mpr (isNumeral_digitChar hvalue)
  cases h with
  | digitBehindOperator _ hawaiting =>
    rw [hd.not_awaiting] at hawaiting
    cases hawaiting
  | digitForResult hvalue _ hresult =>
    rw [hd.not_computed] at hresult
    obtain ⟨rfl, -⟩ := hd.equals (hresult.resolve_left Bool.false_ne_true)
    exact ⟨rfl, hdigit hvalue, rfl, rfl, fun h => by cases h⟩
  | digitForZero hvalue _ _ hzero =>
    refine ⟨?_, hdigit hvalue, rfl, rfl, fun h => by cases h⟩
    dsimp only
    rw [hd.expression_eq, hzero, dropZero, if_pos List.getLast?_concat, List.dropLast_concat]
  | digit hvalue =>
    refine ⟨?_, hbehind (hdigit hvalue), rfl, rfl, fun h => by cases h⟩
    dsimp only
    rw [hd.expression_eq, List.append_assoc]
  | pointFirst hfresh => simp [hd.not_computed, hd.not_awaiting] at hfresh
  | pointApart hfresh => simp [hd.not_computed, hd.not_awaiting] at hfresh
  | point =>
    refine ⟨?_, hbehind (List.forall_mem_singleton.mpr rfl), rfl, rfl, fun h => by cases h⟩
    dsimp only
    rw [hd.expression_eq, List.append_assoc]
  | _ => cases hkey

/-- On an empty display a digit begins a number, as long as there is room for it in the expression. -/
theorem typeDigit_of_typesBehind {d : Draft} {left : Text} (h : d.TypesBehind left)
    (hempty : d.display = []) (hleft : left.IsSpelled) (hroom : left.length < expressionLimit)
    {value : Nat} (hvalue : value < 10) :
    ∃ d', d.typeKey (.digit value) = some d' ∧ d'.display = [value.digitChar] := by
  have hexpression : d.expression = left := by rw [h.expression_eq, hempty, List.append_nil]
  have hdigit : Text.IsSpelled [value.digitChar] := List.forall_mem_singleton.mpr
    (.inl (isExpressionChar_of_isNumeral (isNumeral_digitChar hvalue)))
  have hwritten : (if d.awaitingOperand then d.expression ++ [value.digitChar]
      else if d.justComputed || d.lastKey = some .equals then [value.digitChar]
      else if d.display = ['0'] then dropZero d.expression ++ [value.digitChar]
      else d.expression ++ [value.digitChar]) = left ++ [value.digitChar] := by
    rw [h.not_awaiting, h.not_computed, hempty, hexpression]
    by_cases hequals : d.lastKey = some .equals
    · simp [hequals, (h.equals hequals).1]
    · simp [hequals]
  have hshown : (if d.beginsOperand then [value.digitChar] else d.display ++ [value.digitChar]) =
      [value.digitChar] := by
    rw [hempty, List.nil_append, ite_self]
  have hdisplay : ¬ displayLimit ≤ d.display.length := by
    rw [hempty]
    decide
  let begun : Draft :=
    { display := [value.digitChar]
      expression := left ++ [value.digitChar]
      lastKey := some (.digit value) }
  refine ⟨begun, ?_, rfl⟩
  rw [typeKey, typeDigit, if_neg (Nat.not_lt.mpr (Nat.le_of_lt_succ hvalue)), if_neg hdisplay]
  dsimp only
  rw [hwritten, hshown]
  exact accept_of_isSpelled hdigit (by simp [displayLimit]) (hleft.append hdigit) (by simpa using hroom)

end Draft

namespace Session

theorem anchored_run (p : Parameters) (events : List Event) : ((new p).run events).draft.Anchored := by
  refine (draft_run (P := fun d => d.Coherent ∧ d.display.IsShown ∧ d.Anchored)
    ⟨Draft.coherent_of_typed rfl rfl nofun, Text.isShown_nil, Draft.anchored_new⟩ ?_ ?_ ?_ p events).2.2
  · rintro d d' key ⟨hcoherent, hshown, hanchored⟩ hkey
    have hedit := Draft.edit_of_typeKey hkey
    exact ⟨hedit.coherent, hedit.isShown hshown, hedit.anchored hcoherent hshown hanchored⟩
  · rintro d ⟨hcoherent, -, hanchored⟩
    exact ⟨hcoherent.clearEntry, Text.isShown_nil,
      Draft.anchored_of_isLed (Draft.isLed_dropNumeral hanchored.led) rfl⟩
  · intro v
    exact ⟨Draft.coherent_afterResult v, Draft.isShown_shown v, Text.isLed_nil, nofun⟩

/-- Whether nothing is typed at the event but a digit or a point. -/
def Event.withinNumeral : Event → Bool
  | .press key _ => key.writesNumeral
  | _ => true

theorem typesBehind_step {s : Session} {left : Text} {e : Event} (he : e.withinNumeral = true)
    (hidle : s.isCalculating = false) (hs : s.draft.TypesBehind left) :
    (s.step e).isCalculating = false ∧ (s.step e).draft.TypesBehind left := by
  have htransition := s.transition_step e
  generalize s.step e = s' at htransition ⊢
  cases htransition with
  | ignored => exact ⟨hidle, hs⟩
  | edited key now =>
    refine ⟨hidle, ?_⟩
    cases hkey : s.draft.typeKey key with
    | none => exact hs
    | some d => exact (Draft.edit_of_typeKey hkey).typesBehind he hs
  | entryCleared => cases he
  | allCleared => cases he
  | asked => cases he
  | waited now =>
    rw [isCalculating_expire, draft_expire]
    exact ⟨hidle, hs⟩
  | historyCleared => exact ⟨hidle, hs⟩
  | closed => exact ⟨rfl, hs⟩
  | blank now hdue =>
    rw [isCalculating_of_isDue hdue] at hidle
    cases hidle
  | committed now hdue =>
    rw [isCalculating_of_isDue hdue] at hidle
    cases hidle
  | failed now hdue =>
    rw [isCalculating_of_isDue hdue] at hidle
    cases hidle

theorem typesBehind_run {s : Session} {left : Text} (hidle : s.isCalculating = false)
    (hs : s.draft.TypesBehind left) {typed : List Event} (htyped : ∀ e ∈ typed, e.withinNumeral = true) :
    (s.run typed).draft.TypesBehind left :=
  (run_of_step (P := fun s => s.isCalculating = false ∧ s.draft.TypesBehind left)
    (fun _ e he h => typesBehind_step (htyped e he) h.1 h.2) ⟨hidle, hs⟩).2

theorem press_clearEntry (s : Session) (t : Time) :
    s.press .clearEntry t =
      { s.dismissError with calculation := .idle, draft := s.draft.clearEntry } := by
  rw [press, Key.isClearing, Bool.not_true, Bool.and_false, if_neg Bool.false_ne_true]
  rfl

theorem isSpelled_clearEntry (p : Parameters) (events : List Event) :
    ((new p).run events).draft.clearEntry.expression.IsSpelled := fun c hc =>
  (isSpelled_run p events).2 c (Draft.mem_of_mem_dropNumeral hc)

theorem eq_nil_or_marked_clearEntry (p : Parameters) (events : List Event)
    (hdangles : ((new p).run events).draft.clearEntry.expression.dangles = false) :
    ((new p).run events).draft.clearEntry.expression = [] ∨
      ∃ c, ((new p).run events).draft.clearEntry.expression.compact.getLast? = some c ∧
        (isGlyph c = true ∨ c = '%' ∨ c = '∞') := by
  have hled : ((new p).run events).draft.clearEntry.expression.IsLed :=
    Draft.isLed_dropNumeral (anchored_run p events).led
  have hstar : '*' ∉ ((new p).run events).draft.clearEntry.expression := fun hstar =>
    star_not_mem_run p events (Draft.mem_of_mem_dropNumeral hstar)
  exact Draft.eq_nil_or_marked hled (isSpelled_clearEntry p events) hstar
    (Draft.lastNumeral_dropNumeral _) hdangles

/-- Clearing an entry empties the display, and takes the longest suffix of digits and points, and nothing
else, away from the expression. No blank is left behind an operand by that, if backspace has not left one
there by taking an operator. Then what is left is nothing, or it ends with an operator, a percent sign or an
infinity sign; and the number typed next is an operand of its own: it is written behind what is left, and it
is both the display and the whole last number of the expression without its blanks. -/
theorem entry_cleared (p : Parameters) (events : List Event) (t : Time) :
    let s := (new p).run events
    let cleared := s.press .clearEntry t
    let left := cleared.draft.expression
    cleared.draft.display = [] ∧
      s.draft.expression = left ++ Draft.lastNumeral s.draft.expression ∧
      ((new p).Along (fun s e => s.uncouples e = false) events → Text.dangles left = false) ∧
      (Text.dangles left = false →
        (left = [] ∨
          ∃ c, left.compact.getLast? = some c ∧ (isGlyph c = true ∨ c = '%' ∨ c = '∞')) ∧
        (left.length < expressionLimit → ∀ value < 10, ∀ u,
          (cleared.press (.digit value) u).draft.display = [value.digitChar]) ∧
        ∀ typed : List Event, (∀ e ∈ typed, e.withinNumeral = true) →
          let d := (cleared.run typed).draft
          d.expression = left ++ d.display ∧
            (∀ c ∈ d.display, Token.isNumeral c = true) ∧
            Draft.lastNumeral d.expression.compact = d.display) := by
  intro s cleared left
  have hcoherent : s.draft.Coherent := coherent_run p events
  have hcleared : cleared = { s.dismissError with calculation := .idle, draft := s.draft.clearEntry } :=
    s.press_clearEntry t
  have hdraft : cleared.draft = s.draft.clearEntry := by rw [hcleared]
  have hidle : cleared.isCalculating = false := by
    rw [hcleared]
    rfl
  have hleft : left = s.draft.clearEntry.expression := congrArg Draft.expression hdraft
  have hbehind : cleared.draft.TypesBehind left := by
    rw [hleft, hdraft]
    exact hcoherent.typesBehind_clearEntry
  have hempty : cleared.draft.display = [] := congrArg Draft.display hdraft
  refine ⟨hempty, ?_, fun hkept => ?_, fun hdangles => ?_⟩
  · rw [hleft]
    exact Draft.eq_append_lastNumeral _
  · rw [hleft]
    exact (Draft.isSettled_dropNumeral (settled_run p hkept)).not_dangling
  have hends : left = [] ∨
      ∃ c, left.compact.getLast? = some c ∧ (isGlyph c = true ∨ c = '%' ∨ c = '∞') := by
    rw [hleft] at hdangles ⊢
    exact eq_nil_or_marked_clearEntry p events hdangles
  refine ⟨hends, fun hroom value hvalue u => ?_, fun typed htyped => ?_⟩
  · have hspelled : left.IsSpelled := hleft ▸ isSpelled_clearEntry p events
    obtain ⟨d, hkey, hdisplay⟩ := Draft.typeDigit_of_typesBehind hbehind hempty hspelled hroom hvalue
    rw [press_of_typeKey (calculation_eq_idle hidle) hkey]
    exact hdisplay
  · intro d
    have htypes : d.TypesBehind left := typesBehind_run hidle hbehind htyped
    refine ⟨htypes.expression_eq, htypes.numeral, ?_⟩
    rw [htypes.expression_eq]
    refine Draft.lastNumeral_compact htypes.numeral fun c hc => ?_
    rcases hends with hnone | ⟨a, ha, hmark⟩
    · rw [hnone] at hc
      cases hc
    · obtain rfl : a = c := Option.some.inj (ha.symm.trans hc)
      exact Draft.isNumeral_eq_false_of_mark hmark

/-- Clearing the `34` of `12 + 34` leaves `12 + `, and with a `5` typed next the expression is `12 + 5`. -/
theorem entry_cleared_of_twelve_plus :
    let events : List Event := [.digit 1, .digit 2, .op .add, .digit 3, .digit 4].map fun key =>
      .press key 0
    let cleared := ((new {}).run events).press .clearEntry 0
    let typed : List Event := [.press (.digit 5) 0]
    (new {}).Along (fun s e => s.uncouples e = false) events ∧
      cleared.draft.expression.dangles = false ∧ cleared.draft.expression = "12 + ".toList ∧
      (∀ e ∈ typed, e.withinNumeral = true) ∧ (cleared.run typed).draft.display = ['5'] ∧
      (cleared.run typed).draft.expression = "12 + 5".toList := by
  intro events cleared typed
  have hkept : (new {}).Along (fun s e => s.uncouples e = false) events := by decide +kernel
  obtain ⟨-, -, hdangles, hfresh⟩ := entry_cleared {} events 0
  obtain ⟨-, hdigit, htyping⟩ := hfresh (hdangles hkept)
  have hleft : cleared.draft.expression = "12 + ".toList := by decide +kernel
  have htyped : ∀ e ∈ typed, e.withinNumeral = true := List.forall_mem_singleton.mpr rfl
  have hdisplay : (cleared.run typed).draft.display = ['5'] := hdigit (by decide +kernel) 5 (by decide) 0
  refine ⟨hkept, hdangles hkept, hleft, htyped, hdisplay, ?_⟩
  have hexpression := (htyping typed htyped).1
  rw [hexpression, hdisplay, hleft]
  rfl

/-- What is left need not end with an operator: of `5%` clearing the entry takes nothing away. -/
theorem not_operator_before_cleared :
    ¬ ∀ (p : Parameters) (events : List Event) (t : Time),
      let d := (((new p).run events).press .clearEntry t).draft
      d.display = [] ∧
        (d.expression = [] ∨ ∃ c, d.expression.compact.getLast? = some c ∧ isGlyph c = true) := by
  intro h
  let events : List Event := [.press (.digit 5) 0, .press .percent 0]
  have hexpression : (((new {}).run events).press .clearEntry 0).draft.expression = ['5', '%'] := by
    decide +kernel
  obtain ⟨-, hend⟩ := h {} events 0
  rw [hexpression] at hend
  rcases hend with hempty | ⟨c, hlast, hglyph⟩
  · cases hempty
  · obtain rfl : '%' = c := Option.some.inj hlast
    cases hglyph

end Session
end KeypadCalc
