import KeypadCalc.Proofs.DraftEdits

/-!
# Operators pressed in a row

An operator key that follows another one takes the place of its operator. It writes its own behind the same
text, from which at most blanks at the end have been taken away, so it is never refused for its length; and
since no forbidden word has a blank, an operator between blanks cannot complete one. Operators pressed in a
row are therefore accepted all together or not at all, in any state of the texts, and they leave what the
last of them alone would have left.
-/
namespace KeypadCalc

namespace Text

/-- A word without `c` lies on one side of it. -/
theorem infix_of_append_cons {word l r : Text} {c : Char} (hc : c ∉ word) (h : word <:+: l ++ c :: r) :
    word <:+: l ∨ word <:+: r := by
  obtain ⟨before, after, hsplit⟩ := h
  rcases List.append_eq_append_iff.mp hsplit with ⟨middle, hl, -⟩ | ⟨middle, hword, hr⟩
  · exact .inl ⟨before, middle, hl.symm⟩
  · rcases List.cons_eq_append_iff.mp hr with ⟨rfl, -⟩ | ⟨middle, rfl, rfl⟩
    · exact .inl ⟨before, [], by simpa using hword⟩
    · rcases List.append_eq_append_iff.mp hword with ⟨inner, -, rfl⟩ | ⟨inner, -, hmiddle⟩
      · exact absurd (List.mem_append_right inner List.mem_cons_self) hc
      · rcases List.cons_eq_append_iff.mp hmiddle with ⟨-, rfl⟩ | ⟨inner, -, rfl⟩
        · exact absurd List.mem_cons_self hc
        · exact .inr ⟨inner, after, rfl⟩

theorem IsHarmless.of_isPrefix {s t : Text} (ht : t.IsHarmless) (hfront : s <+: t) : s.IsHarmless := by
  have hlower : s.map Char.toLower <:+: t.map Char.toLower := (hfront.map Char.toLower).isInfix
  exact
    { no_open := fun hopen => ht.no_open (hfront.subset hopen)
      no_close := fun hclose => ht.no_close (hfront.subset hclose)
      no_script := fun hscript => ht.no_script (hscript.trans hlower)
      no_word := fun word hword hoccurs => ht.no_word word hword (hoccurs.trans hlower) }

/-- A word of two letters or more, none of them a blank, is not completed by an operator between blanks. -/
theorem infix_of_operator {s word : Text} {o : BinaryOp} (hblank : ' ' ∉ word) (hlong : 2 ≤ word.length)
    (h : word <:+: (s ++ [' ', o.glyph, ' ']).map Char.toLower) : word <:+: s.map Char.toLower := by
  have hlower : (s ++ [' ', o.glyph, ' ']).map Char.toLower =
      s.map Char.toLower ++ ' ' :: ([o.glyph] ++ [' ']) := by
    rw [List.map_append]
    cases o <;> rfl
  rw [hlower] at h
  refine (infix_of_append_cons hblank h).resolve_right fun htail => ?_
  have hshort : word.length ≤ 1 := by
    rcases infix_of_append_cons hblank htail with hglyph | hnothing
    · exact hglyph.length_le
    · exact hnothing.length_le.trans (Nat.zero_le 1)
  omega

/-- An operator between blanks is no part of what is forbidden. -/
theorem isHarmless_operator (s : Text) (o : BinaryOp) :
    (s ++ [' ', o.glyph, ' ']).IsHarmless ↔ s.IsHarmless := by
  constructor
  · intro h
    exact h.of_isPrefix (List.prefix_append s _)
  · intro h
    have hbracket {c : Char} (hc : c = '<' ∨ c = '>') : c ∉ [' ', o.glyph, ' '] := by
      rcases hc with rfl | rfl <;> cases o <;> decide
    have hwords : ∀ word ∈ forbiddenWords, ' ' ∉ word.toList ∧ 2 ≤ word.toList.length := by decide
    exact
      { no_open := fun hopen => (List.mem_append.mp hopen).elim h.no_open (hbracket (.inl rfl))
        no_close := fun hclose => (List.mem_append.mp hclose).elim h.no_close (hbracket (.inr rfl))
        no_script := fun hscript => h.no_script (infix_of_operator (by decide) (by decide) hscript)
        no_word := fun word hword hoccurs =>
          h.no_word word hword (infix_of_operator (hwords word hword).1 (hwords word hword).2 hoccurs) }

theorem trimEnd_operator (s : Text) (o : BinaryOp) :
    trimEnd (s ++ [' ', o.glyph, ' ']) = s ++ [' '] ++ [o.glyph] := by
  have hsplit : s ++ [' ', o.glyph, ' '] = s ++ [' '] ++ [o.glyph] ++ [' '] := by simp
  have hglyph : isBlank o.glyph = false := by cases o <;> decide
  rw [hsplit, trimEnd_blanks _ (List.forall_mem_singleton.mpr rfl), trimEnd_concat _ hglyph]

end Text

namespace Draft

/-- The draft with an operator written behind `left`. -/
def withOperator (d : Draft) (left : Text) (o : BinaryOp) : Draft :=
  { d with
    expression := left ++ [' ', o.glyph, ' ']
    lastKey := some (.op o)
    justComputed := false
    awaitingOperand := true }

/-- What an operator key writes its operator behind. -/
def operatorLeft (d : Draft) : Text :=
  if d.expression.endsWithOperator then Text.trimEnd d.expression.trimEnd.dropLast
  else if d.expression.isEmpty then d.display
  else d.expression

theorem endsWithOperator_operator (s : Text) (o : BinaryOp) :
    (s ++ [' ', o.glyph, ' ']).endsWithOperator = true := by
  rw [Text.endsWithOperator, Text.trimEnd_operator, List.getLast?_concat]
  cases o <;> rfl

/-- Behind an operator the next one is written behind the same text, blanks at its end apart. -/
theorem operatorLeft_withOperator (d : Draft) (left : Text) (o : BinaryOp) :
    (d.withOperator left o).operatorLeft = left.trimEnd := by
  have hspace : ∀ b ∈ [' '], isBlank b = true := List.forall_mem_singleton.mpr rfl
  rw [operatorLeft, withOperator, if_pos (endsWithOperator_operator left o), Text.trimEnd_operator,
    List.dropLast_concat, Text.trimEnd_blanks _ hspace]

/-- Which texts an operator can be written behind; the operator does not matter. -/
structure TakesOperator (d : Draft) (left : Text) : Prop where
  display_harmless : d.display.IsHarmless
  left_harmless : left.IsHarmless
  length_le : left.length + 3 ≤ max expressionLimit d.expression.length

theorem takesOperator_iff {d : Draft} {left : Text} (o : BinaryOp) :
    (mayReplace Text.isDisplayable d.display d.display &&
      mayReplace Text.isTypable d.expression (d.withOperator left o).expression) = true ↔
        d.TakesOperator left := by
  have hlength : (left ++ [' ', o.glyph, ' ']).length = left.length + 3 := List.length_append
  rw [Bool.and_eq_true, withOperator]
  unfold Text.isDisplayable Text.isTypable
  rw [mayReplace_iff, mayReplace_iff, Text.isHarmless_operator, hlength]
  constructor
  · rintro ⟨⟨-, hdisplay⟩, hlimit, hleft⟩
    exact ⟨hdisplay, hleft, hlimit⟩
  · rintro ⟨hdisplay, hleft, hlimit⟩
    exact ⟨⟨le_max_right _ _, hdisplay⟩, hlimit, hleft⟩

theorem TakesOperator.typeKey {d : Draft} {left : Text} (h : d.TakesOperator left)
    (hleft : d.operatorLeft = left) (o : BinaryOp) :
    d.typeKey (.op o) = some (d.withOperator left o) := by
  subst hleft
  exact if_pos ((takesOperator_iff o).mpr h)

theorem typeKey_of_not_takesOperator {d : Draft} (h : ¬d.TakesOperator d.operatorLeft) (o : BinaryOp) :
    d.typeKey (.op o) = none :=
  if_neg fun haccept => h ((takesOperator_iff o).mp haccept)

/-- An operator key that follows another one is accepted. -/
theorem TakesOperator.trimEnd {d : Draft} {left : Text} (h : d.TakesOperator left) (o : BinaryOp) :
    (d.withOperator left o).TakesOperator left.trimEnd := by
  have hprefix := Text.dropEndWhile_isPrefix isBlank left
  refine ⟨h.display_harmless, h.left_harmless.of_isPrefix hprefix, ?_⟩
  have hlength : left.trimEnd.length ≤ left.length := hprefix.length_le
  rw [withOperator, List.length_append]
  exact le_max_of_le_right (Nat.add_le_add_right hlength 3)

/-- What a row of accepted operator keys leaves: the last operator, behind what the first one was written
behind, blanks apart. The induction is on the keys before the last one. -/
theorem TakesOperator.typeKeys {d : Draft} (h : d.TakesOperator d.operatorLeft) (ops : List BinaryOp)
    (o : BinaryOp) :
    ∃ left : Text, left.compact = d.operatorLeft.compact ∧ (d.withOperator left o).TakesOperator left.trimEnd ∧
      d.typeKeys ((ops ++ [o]).map Key.op) = some (d.withOperator left o) := by
  induction ops using List.reverseRecOn generalizing o with
  | nil => exact ⟨d.operatorLeft, rfl, h.trimEnd o, typeKeys_cons (h.typeKey rfl o) []⟩
  | append_singleton ops p ih =>
    obtain ⟨left, hcompact, htakes, hkeys⟩ := ih p
    have hkey : (d.withOperator left p).typeKey (.op o) = some (d.withOperator left.trimEnd o) :=
      htakes.typeKey (d.operatorLeft_withOperator left p) o
    refine ⟨left.trimEnd, (Text.compact_trimEnd left).trans hcompact, htakes.trimEnd o, ?_⟩
    rw [List.map_append, typeKeys_append, hkeys]
    exact typeKeys_cons hkey []

theorem typeKeys_of_not_takesOperator {d : Draft} (h : ¬d.TakesOperator d.operatorLeft) (ops : List BinaryOp)
    (o : BinaryOp) : d.typeKeys ((ops ++ [o]).map Key.op) = none := by
  obtain ⟨p, rest, hsplit⟩ := List.exists_cons_of_ne_nil (List.concat_ne_nil o ops)
  rw [hsplit, List.map_cons, typeKeys, typeKey_of_not_takesOperator h]
  rfl

end Draft

namespace Session

/-- Operator keys pressed one after the other. -/
def operatorEvents (keys : List (BinaryOp × Time)) : List Event :=
  keys.map fun key => .press (.op key.1) key.2

theorem press_operator {s : Session} (hidle : s.isCalculating = false) (o : BinaryOp) (now : Time) :
    s.press (.op o) now = s.dismissError.edit (s.draft.typeKey (.op o)) :=
  press_eq_edit hidle rfl Key.noConfusion now

/-- A row of operator keys is accepted as a whole, and the session takes over what the keys leave, or each of
them is refused, and only the error is dismissed. The induction is on the keys before the last one. -/
theorem run_operatorEvents {s : Session} (hidle : s.isCalculating = false) (keys : List (BinaryOp × Time))
    (last : BinaryOp × Time) :
    s.run (operatorEvents (keys ++ [last])) =
      s.dismissError.edit (s.draft.typeKeys ((keys.map Prod.fst ++ [last.1]).map Key.op)) := by
  induction keys using List.reverseRecOn generalizing last with
  | nil =>
    have hrun : s.run (operatorEvents ([] ++ [last])) = s.press (.op last.1) last.2 := rfl
    have hkeys : s.draft.typeKeys ([last.1].map Key.op) = s.draft.typeKey (.op last.1) :=
      Option.bind_fun_some _
    rw [hrun, press_operator hidle, List.map_nil, List.nil_append, hkeys]
  | append_singleton keys p ih =>
    have hrun : s.run (operatorEvents (keys ++ [p] ++ [last])) =
        (s.run (operatorEvents (keys ++ [p]))).press (.op last.1) last.2 := by
      rw [operatorEvents, List.map_append, run_append]
      rfl
    have hfst : (keys ++ [p]).map Prod.fst = keys.map Prod.fst ++ [p.1] := List.map_append
    rw [hrun, ih, hfst]
    by_cases h : s.draft.TakesOperator s.draft.operatorLeft
    · obtain ⟨left, -, htakes, hkeys⟩ := h.typeKeys (keys.map Prod.fst) p.1
      have hkey := htakes.typeKey (s.draft.operatorLeft_withOperator left p.1) last.1
      have hall : s.draft.typeKeys ((keys.map Prod.fst ++ [p.1] ++ [last.1]).map Key.op) =
          some ((s.draft.withOperator left p.1).withOperator left.trimEnd last.1) := by
        rw [List.map_append, Draft.typeKeys_append, hkeys]
        exact Draft.typeKeys_cons hkey []
      have hpress := press_operator (s := s.dismissError.edit (some (s.draft.withOperator left p.1))) hidle
        last.1 last.2
      rw [hkeys, hall, hpress]
      exact congrArg (Session.edit _) hkey
    · rw [Draft.typeKeys_of_not_takesOperator h, Draft.typeKeys_of_not_takesOperator h]
      have hpress := press_operator (s := s.dismissError) hidle last.1 last.2
      exact hpress.trans (congrArg (Session.edit _) (Draft.typeKey_of_not_takesOperator h last.1))

/-- Operator keys in a row, in any session without a pending calculation: blanks in the expression apart, they
leave what the last of them alone would leave. They are accepted where the last one alone would be, and where
it would not be, only the error is dismissed. -/
theorem operators_overwrite (s : Session) (keys : List (BinaryOp × Time)) (o : BinaryOp) (now : Time)
    (hidle : s.isCalculating = false) :
    let ops := keys.map Prod.fst ++ [o]
    let all := s.run (operatorEvents (keys ++ [(o, now)]))
    let alone := s.press (.op o) now
    (all.draft.expression.compact = alone.draft.expression.compact ∧
      all = { alone with draft := { alone.draft with expression := all.draft.expression } }) ∧
    (all =
        { s with
          error := none
          errorExpiry := .idle
          draft := (s.draft.typeKeys (ops.map .op)).getD s.draft } ∧
      alone =
        { s with
          error := none
          errorExpiry := .idle
          draft := (s.draft.typeKey (.op o)).getD s.draft }) ∧
    (s.draft.typeKeys (ops.map .op)).isSome = (s.draft.typeKey (.op o)).isSome ∧
    (s.draft.typeKey (.op o) = none →
      all = { s with error := none, errorExpiry := .idle } ∧
        alone = { s with error := none, errorExpiry := .idle }) := by
  intro ops all alone
  have hall : all = s.dismissError.edit (s.draft.typeKeys (ops.map .op)) :=
    run_operatorEvents hidle keys (o, now)
  have halone : alone = s.dismissError.edit (s.draft.typeKey (.op o)) := press_operator hidle o now
  by_cases h : s.draft.TakesOperator s.draft.operatorLeft
  · obtain ⟨left, hcompact, -, hkeys⟩ := h.typeKeys (keys.map Prod.fst) o
    have hkey := h.typeKey rfl o
    refine ⟨?_, ⟨hall, halone⟩, by rw [hkeys, hkey]; rfl, fun hrefused => ?_⟩
    · rw [hall, halone, hkeys, hkey]
      have hexpression : Text.compact (left ++ [' ', o.glyph, ' ']) =
          Text.compact (s.draft.operatorLeft ++ [' ', o.glyph, ' ']) := by
        rw [Text.compact_append, Text.compact_append, hcompact]
      exact ⟨hexpression, rfl⟩
    · rw [hkey] at hrefused
      cases hrefused
  · have hkeys := Draft.typeKeys_of_not_takesOperator h (keys.map Prod.fst) o
    have hkey := Draft.typeKey_of_not_takesOperator h o
    have hboth : all = s.dismissError ∧ alone = s.dismissError := by
      rw [hall, halone, hkeys, hkey]
      exact ⟨rfl, rfl⟩
    refine ⟨?_, ⟨hall, halone⟩, by rw [hkeys, hkey], fun _ => hboth⟩
    rw [hboth.1, hboth.2]
    exact ⟨rfl, rfl⟩

/-- Behind `5` and two blanks, which no run leaves there, the keys `+` and `x` take the blanks away, and the
key `x` alone keeps them. -/
theorem operators_behind_blanks :
    let s : Session :=
      { Session.new {} with draft := { expression := "5  ".toList, display := "5".toList } }
    let all := s.run (operatorEvents [(.add, 0), (.mul, 1)])
    let alone := s.press (.op .mul) 1
    s.isCalculating = false ∧
      all.draft.expression = "5 x ".toList ∧ alone.draft.expression = "5   x ".toList ∧
      all = { alone with draft := { alone.draft with expression := all.draft.expression } } := by
  intro s all alone
  have hidle : s.isCalculating = false := by decide
  obtain ⟨⟨-, hrest⟩, -⟩ := operators_overwrite s [(.add, 0)] .mul 1 hidle
  exact ⟨hidle, by decide, by decide, hrest⟩

end Session
end KeypadCalc
