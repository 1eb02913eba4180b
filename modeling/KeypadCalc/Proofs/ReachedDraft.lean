import KeypadCalc.Proofs.DraftEdits

/-!
# The drafts that a session reaches

What holds of every draft in a session that began as a new one. A draft with the mark of a result is
exactly what a calculation has left, and its display is the infinity sign or the text of a decimal. The
flags tell how the expression ends. The display is digits and points, behind a minus or an infinity sign
at most, and the expression has expression characters and infinity signs only. Nothing here looks at what
the texts mean.
-/
namespace KeypadCalc

/-- The keys that write the characters of numerals. -/
def Key.writesNumeral : Key → Bool
  | .digit _ | .point => true
  | _ => false

theorem isNumeral_digitChar {value : Nat} (h : value < 10) :
    Token.isNumeral value.digitChar = true := by
  apply isNumeral_of_isDigit
  rw [Nat.isDigit_digitChar]
  exact decide_eq_true h

/-- The characters that keys write. They are expression characters; a product is typed as a letter, so there
is no star among them. -/
def isTypedChar (c : Char) : Bool :=
  isExpressionChar c && c ≠ '*'

theorem isTypedChar_of_isNumeral {c : Char} (h : Token.isNumeral c = true) : isTypedChar c = true := by
  rw [isTypedChar, isExpressionChar_of_isNumeral h, Bool.true_and, decide_eq_true_eq]
  rintro rfl
  cases h

namespace Text

/-- What the display can hold: digits and points, behind a minus or an infinity sign at most. -/
def IsShown (s : Text) : Prop :=
  ∃ mark body, s = mark ++ body ∧ mark ∈ [[], ['-'], ['∞']] ∧ ∀ c ∈ body, Token.isNumeral c = true

theorem IsShown.exists_mark {s : Text} (hs : s.IsShown) :
    ∃ mark body, s = mark ++ body ∧ (mark = [] ∨ mark = ['-'] ∨ mark = ['∞']) ∧
      ∀ c ∈ body, Token.isNumeral c = true := by
  obtain ⟨mark, body, hsplit, hmark, hbody⟩ := hs
  exact ⟨mark, body, hsplit, by simpa using hmark, hbody⟩

theorem isShown_of_isNumeral {s : Text} (h : ∀ c ∈ s, Token.isNumeral c = true) : s.IsShown :=
  ⟨[], s, rfl, by simp, h⟩

theorem isShown_nil : IsShown [] :=
  isShown_of_isNumeral fun _ h => nomatch h

theorem IsShown.append {s run : Text} (hs : s.IsShown) (h : ∀ c ∈ run, Token.isNumeral c = true) :
    (s ++ run).IsShown := by
  obtain ⟨mark, body, rfl, hmark, hbody⟩ := hs
  refine ⟨mark, body ++ run, List.append_assoc _ _ _, hmark, fun c hc => ?_⟩
  exact (List.mem_append.mp hc).elim (hbody c) (h c)

theorem IsShown.dropLast {s : Text} (hs : s.IsShown) : IsShown s.dropLast := by
  obtain ⟨mark, body, rfl, hmark, hbody⟩ := hs
  by_cases hempty : body = []
  · have hnone : (mark ++ body).dropLast = [] := by
      rw [hempty, List.append_nil]
      rcases hmark with _ | ⟨_, _ | ⟨_, _ | ⟨_, h⟩⟩⟩
      · rfl
      · rfl
      · rfl
      · cases h
    rw [hnone]
    exact isShown_nil
  · rw [List.dropLast_append_of_ne_nil hempty]
    exact ⟨mark, body.dropLast, rfl, hmark, fun c hc => hbody c (List.dropLast_subset _ hc)⟩

theorem IsShown.mem {s : Text} (hs : s.IsShown) {c : Char} (hc : c ∈ s) :
    Token.isNumeral c = true ∨ c = '-' ∨ c = '∞' := by
  obtain ⟨mark, body, rfl, hmark, hbody⟩ := hs.exists_mark
  rcases List.mem_append.mp hc with h | h
  · right
    rcases hmark with rfl | rfl | rfl
    · cases h
    · exact .inl (List.mem_singleton.mp h)
    · exact .inr (List.mem_singleton.mp h)
  · exact .inl (hbody c h)

theorem IsShown.isSpelled {s : Text} (hs : s.IsShown) : s.IsSpelled := by
  intro c hc
  rcases hs.mem hc with h | rfl | rfl
  · exact .inl (isExpressionChar_of_isNumeral h)
  · exact .inl rfl
  · exact .inr rfl

end Text

theorem Decimal.isShown_render (d : Decimal) : d.render.IsShown := by
  refine ⟨d.sign, d.numeral.text, d.render_eq, ?_, fun c hc => Numeral.mem_text hc⟩
  unfold sign
  split <;> simp

namespace Draft

/-- The display of a result is the infinity sign or the text of a decimal. -/
theorem exists_render_of_shown {v : Rat} (h : shown v ≠ ['∞']) : ∃ d : Decimal, shown v = d.render :=
  ⟨_, (Double.displayText_eq_render h).2⟩

theorem isShown_shown (v : Rat) : (shown v).IsShown := by
  by_cases h : shown v = ['∞']
  · exact ⟨['∞'], [], h, by simp, by simp⟩
  · obtain ⟨d, hd⟩ := exists_render_of_shown h
    rw [hd]
    exact d.isShown_render

theorem shown_ne_nil (v : Rat) : shown v ≠ [] := by
  by_cases h : shown v = ['∞']
  · simp [h]
  · obtain ⟨d, hd⟩ := exists_render_of_shown h
    rw [hd, d.render_eq]
    simp [d.numeral.text_ne_nil]

/-- A key that edits takes the mark of a result away. -/
theorem Edit.not_computed {d d' : Draft} {key : Key} (h : d.Edit key d') : d'.justComputed = false := by
  cases h <;> rfl

/-- An edit leaves the display alone, takes its last character away, or writes digits and points, either
behind it or in its place. -/
theorem Edit.display_cases {d d' : Draft} {key : Key} (h : d.Edit key d') :
    d'.display = d.display ∨ d'.display = d.display.dropLast ∨
      ∃ run : Text, (∀ c ∈ run, Token.isNumeral c = true) ∧
        (d'.display = run ∨ d'.display = d.display ++ run) := by
  have hdigit {value : Nat} (hvalue : value < 10) : ∀ c ∈ [value.digitChar], Token.isNumeral c = true :=
    fun c hc => List.mem_singleton.mp hc ▸ isNumeral_digitChar hvalue
  have hpoint : ∀ c ∈ ['0', '.'], Token.isNumeral c = true := List.all_eq_true.mp rfl
  cases h with
  | digitBehindOperator hvalue => exact .inr (.inr ⟨_, hdigit hvalue, .inl rfl⟩)
  | digitForResult hvalue => exact .inr (.inr ⟨_, hdigit hvalue, .inl rfl⟩)
  | digitForZero hvalue => exact .inr (.inr ⟨_, hdigit hvalue, .inl rfl⟩)
  | digit hvalue => exact .inr (.inr ⟨_, hdigit hvalue, .inr rfl⟩)
  | pointFirst => exact .inr (.inr ⟨_, hpoint, .inl rfl⟩)
  | pointApart => exact .inr (.inr ⟨_, hpoint, .inl rfl⟩)
  | point => exact .inr (.inr ⟨['.'], List.all_eq_true.mp rfl, .inr rfl⟩)
  | backspaceBehindOperator => exact .inr (.inl rfl)
  | backspace => exact .inr (.inl rfl)
  | _ => exact .inl rfl

theorem Edit.isShown {d d' : Draft} {key : Key} (h : d.Edit key d') (hd : d.display.IsShown) :
    d'.display.IsShown := by
  rcases h.display_cases with hdisplay | hdisplay | ⟨run, hrun, hdisplay | hdisplay⟩
  · rwa [hdisplay]
  · rw [hdisplay]
    exact hd.dropLast
  · rw [hdisplay]
    exact Text.isShown_of_isNumeral hrun
  · rw [hdisplay]
    exact hd.append hrun

theorem dropZero_isPrefix (s : Text) : dropZero s <+: s := by
  unfold dropZero
  split
  · exact List.dropLast_prefix s
  · exact List.prefix_rfl

theorem mem_of_mem_dropNumeral {s : Text} {c : Char} (h : c ∈ dropNumeral s) : c ∈ s :=
  (Text.dropEndWhile_isPrefix _ s).subset h

theorem mem_of_mem_trimEnd {s : Text} {c : Char} (h : c ∈ s.trimEnd) : c ∈ s :=
  (Text.dropEndWhile_isPrefix _ s).subset h

/-- The characters that an edit writes are those of keys or come from the display. -/
theorem Edit.mem_expression {d d' : Draft} {key : Key} (h : d.Edit key d') {c : Char}
    (hc : c ∈ d'.expression) : c ∈ d.expression ∨ c ∈ d.display ∨ isTypedChar c = true := by
  have happend {s t : Text} (hs : ∀ a ∈ s, a ∈ d.expression ∨ a ∈ d.display) (ht : ∀ a ∈ t, isTypedChar a = true)
      (hc : c ∈ s ++ t) : c ∈ d.expression ∨ c ∈ d.display ∨ isTypedChar c = true := by
    rcases List.mem_append.mp hc with h | h
    · exact (hs c h).imp_right .inl
    · exact .inr (.inr (ht c h))
  have hdigit {value : Nat} (hvalue : value < 10) : ∀ a ∈ [value.digitChar], isTypedChar a = true :=
    fun a ha => List.mem_singleton.mp ha ▸ isTypedChar_of_isNumeral (isNumeral_digitChar hvalue)
  have hoperator (o : BinaryOp) : ∀ a ∈ [' ', o.glyph, ' '], isTypedChar a = true := by
    cases o <;> exact List.all_eq_true.mp rfl
  have hkept : ∀ a ∈ d.expression, a ∈ d.expression ∨ a ∈ d.display := fun _ => .inl
  cases h with
  | digitBehindOperator hvalue => exact happend hkept (hdigit hvalue) hc
  | digitForResult hvalue => exact .inr (.inr (hdigit hvalue c hc))
  | digitForZero hvalue => exact happend (fun _ ha => .inl ((dropZero_isPrefix _).subset ha)) (hdigit hvalue) hc
  | digit hvalue => exact happend hkept (hdigit hvalue) hc
  | pointFirst => exact happend hkept (List.all_eq_true.mp rfl) hc
  | pointApart => exact happend hkept (List.all_eq_true.mp rfl) hc
  | point => exact happend hkept (List.all_eq_true.mp rfl) hc
  | operatorForOperator o =>
    refine happend (fun a ha => .inl ?_) (hoperator o) hc
    exact mem_of_mem_trimEnd (List.dropLast_subset _ (mem_of_mem_trimEnd ha))
  | operatorBehindDisplay o => exact happend (fun _ => .inr) (hoperator o) hc
  | operator o => exact happend hkept (hoperator o) hc
  | percentOfDisplay =>
    have hzero : ∀ a ∈ ['0', '%'], isTypedChar a = true := List.all_eq_true.mp rfl
    rw [List.append_assoc] at hc
    rcases List.mem_append.mp hc with h | h
    · exact .inl h
    · split at h
      · exact .inr (.inr (hzero c h))
      · exact happend (fun _ => .inr) (List.all_eq_true.mp rfl) h
  | percent => exact happend hkept (List.all_eq_true.mp rfl) hc
  | backspaceBehindOperator =>
    split at hc
    · exact .inl (mem_of_mem_trimEnd (mem_of_mem_dropNumeral hc))
    · exact .inl hc
  | backspace => exact .inl (List.dropLast_subset _ hc)

/-- A draft that has not grown is accepted. -/
theorem accept_of_shrunk {old new : Draft} (hdisplay : new.display.IsSpelled)
    (hexpression : new.expression.IsSpelled) (hshort : new.display.length ≤ old.display.length)
    (hshrunk : new.expression.length ≤ old.expression.length) : accept old new = some new := by
  simp [accept, mayReplace, Text.hasForbidden_eq_false hdisplay, Text.hasForbidden_eq_false hexpression,
    hshort, hshrunk]

theorem length_dropNumeral_le (s : Text) : (dropNumeral s).length ≤ s.length :=
  (Text.dropEndWhile_isPrefix _ s).length_le

/-- Backspace is refused only if there is nothing on the display. -/
theorem exists_typeKey_backspace {d : Draft} (hdisplay : d.display.IsSpelled)
    (hexpression : d.expression.IsSpelled) (hne : d.display ≠ []) :
    ∃ d', d.typeKey .backspace = some d' := by
  have htrim : d.expression.trimEnd.length ≤ d.expression.length :=
    (Text.dropEndWhile_isPrefix _ d.expression).length_le
  have hdrop := length_dropNumeral_le d.expression.trimEnd
  rw [typeKey, backspace, if_neg (by simpa using hne)]
  refine ⟨_, accept_of_shrunk (fun c hc => hdisplay c (List.dropLast_subset _ hc))
    (fun c hc => hexpression c ?_) (by simp) ?_⟩
  · dsimp only at hc
    split at hc
    · split at hc
      · exact mem_of_mem_trimEnd (mem_of_mem_dropNumeral hc)
      · exact hc
    · exact List.dropLast_subset _ hc
  · dsimp only
    split
    · split
      · omega
      · exact le_refl _
    · simp

/-- The flags say how the draft came about: while an operand is awaited the expression ends with the
operator just typed, and a result leaves no expression behind it. -/
structure Coherent (d : Draft) : Prop where
  awaiting : d.awaitingOperand = true →
    d.justComputed = false ∧
      ∃ front o, d.expression = front ++ [' ', o.glyph, ' '] ∧ d.lastKey = some (.op o)
  computed : d.justComputed = true → d.display ≠ [] ∧ d.lastKey = some .equals
  equals : d.lastKey = some .equals → d.expression = []

theorem coherent_of_typed {d : Draft} (hawaiting : d.awaitingOperand = false)
    (hcomputed : d.justComputed = false) (hequals : d.lastKey ≠ some .equals) : d.Coherent where
  awaiting h := by rw [hawaiting] at h; cases h
  computed h := by rw [hcomputed] at h; cases h
  equals h := absurd h hequals

theorem Edit.coherent {d d' : Draft} {key : Key} (h : d.Edit key d') : d'.Coherent := by
  cases h with
  | operatorForOperator o => exact ⟨fun _ => ⟨rfl, _, o, rfl, rfl⟩, nofun, nofun⟩
  | operatorBehindDisplay o => exact ⟨fun _ => ⟨rfl, _, o, rfl, rfl⟩, nofun, nofun⟩
  | operator o => exact ⟨fun _ => ⟨rfl, _, o, rfl, rfl⟩, nofun, nofun⟩
  | _ => exact coherent_of_typed rfl rfl nofun

theorem coherent_afterResult (v : Rat) : (afterResult (shown v)).Coherent where
  awaiting := nofun
  computed _ := ⟨shown_ne_nil v, rfl⟩
  equals _ := rfl

theorem Coherent.clearEntry {d : Draft} (h : d.Coherent) : d.clearEntry.Coherent where
  awaiting := nofun
  computed := nofun
  equals hequals := by
    show dropNumeral d.expression = []
    rw [h.equals hequals]
    rfl

/-- Before an operand has begun, what is typed next needs no space before it. -/
theorem Coherent.spaced {d : Draft} (h : d.Coherent)
    (hfresh : d.justComputed = true ∨ d.awaitingOperand = true) :
    d.expression = [] ∨ d.expression.getLast?.any isBlank = true := by
  rcases hfresh with hcomputed | hawaiting
  · exact .inl (h.equals (h.computed hcomputed).2)
  · right
    obtain ⟨-, front, o, hexpression, -⟩ := h.awaiting hawaiting
    have hend : front ++ [' ', o.glyph, ' '] = front ++ [' ', o.glyph] ++ [' '] := by simp
    rw [hexpression, hend, List.getLast?_concat]
    rfl

/-- Behind an operator just typed there is no number. -/
theorem Coherent.endsWithNumeral_eq_false {d : Draft} (h : d.Coherent)
    (hawaiting : d.awaitingOperand = true) : endsWithNumeral d.expression.trimEnd = false := by
  obtain ⟨-, front, o, hexpression, -⟩ := h.awaiting hawaiting
  have hspaced : front ++ [' ', o.glyph, ' '] = front ++ [' '] ++ [o.glyph] ++ [' '] := by simp
  have hglyph : isBlank o.glyph = false ∧ Token.isNumeral o.glyph = false := by cases o <;> decide
  have hspace : ∀ b ∈ [' '], isBlank b = true := List.forall_mem_singleton.mpr rfl
  rw [hexpression, hspaced, Text.trimEnd_blanks _ hspace, Text.trimEnd_concat _ hglyph.1, endsWithNumeral,
    List.getLast?_concat]
  exact hglyph.2

end Draft

namespace Session

theorem coherent_run (p : Parameters) (events : List Event) :
    ((new p).run events).draft.Coherent :=
  draft_run (Draft.coherent_of_typed rfl rfl nofun) (fun _ h => (Draft.edit_of_typeKey h).coherent)
    Draft.Coherent.clearEntry Draft.coherent_afterResult p events

/-- The flags agree with the key that was accepted last. An operand is awaited behind an operator key, and
the expression ends with its glyph and one space; a result follows the key for equals, on a display that is
not empty, and there is no expression. So a point that begins an operand never needs a space before it, and
backspace behind an operator never finds a number to take away. -/
theorem flags_agree (p : Parameters) (events : List Event) :
    let d := ((new p).run events).draft
    ¬(d.justComputed = true ∧ d.awaitingOperand = true) ∧
      (d.awaitingOperand = true →
        ∃ front o, d.expression = front ++ [' ', o.glyph, ' '] ∧ d.lastKey = some (.op o)) ∧
      (d.justComputed = true → d.expression = [] ∧ d.display ≠ [] ∧ d.lastKey = some .equals) ∧
      (d.lastKey = some .equals → d.expression = []) ∧
      (d.justComputed = true ∨ d.awaitingOperand = true →
        (d.expression.isEmpty || d.lastKey = some .equals || d.expression.getLast?.any isBlank) = true ∧
          ∀ d', d.typePoint = some d' → d'.expression = d.expression ++ ['0', '.']) ∧
      (d.awaitingOperand = true →
        Draft.endsWithNumeral d.expression.trimEnd = false ∧
          ∀ d', d.backspace = some d' → d'.expression = d.expression) := by
  intro d
  have hd : d.Coherent := coherent_run p events
  refine ⟨?_, fun hawaiting => (hd.awaiting hawaiting).2, ?_, hd.equals, ?_, ?_⟩
  · rintro ⟨hcomputed, hawaiting⟩
    rw [(hd.awaiting hawaiting).1] at hcomputed
    cases hcomputed
  · intro hcomputed
    obtain ⟨hdisplay, hequals⟩ := hd.computed hcomputed
    exact ⟨hd.equals hequals, hdisplay, hequals⟩
  · intro hfresh
    have hspaced := hd.spaced hfresh
    refine ⟨?_, fun d' hpoint => ?_⟩
    · rcases hspaced with hempty | hblank
      · simp [hempty]
      · rw [hblank, Bool.or_true]
    · cases Draft.edit_of_typePoint hpoint with
      | pointFirst => rfl
      | pointApart _ hempty hblank =>
        rw [hspaced.resolve_left hempty] at hblank
        cases hblank
      | point hawaiting hcomputed => simp [hawaiting, hcomputed] at hfresh
  · intro hawaiting
    have hnone := hd.endsWithNumeral_eq_false hawaiting
    refine ⟨hnone, fun d' hbackspace => ?_⟩
    cases Draft.edit_of_backspace hbackspace with
    | backspaceBehindOperator => exact if_neg (by simp [hnone])
    | backspace _ h =>
      rw [hawaiting] at h
      cases h

/-- After `12 +` a point writes `0.` behind the space, and backspace keeps `12 +`; after `12 =` a point
writes `0.`. -/
theorem flags_of_twelve :
    let awaiting := ((new {}).run ([.digit 1, .digit 2, .op .add].map fun key => .press key 0)).draft
    let computed := ((new {}).run ([.press (.digit 1) 0, .press (.digit 2) 0, .press .equals 0,
      .advance (Time.ofMillis 50)])).draft
    awaiting.awaitingOperand = true ∧ awaiting.expression = ['1', '2', ' ', '+', ' '] ∧
      (∀ d', awaiting.typePoint = some d' → d'.expression = awaiting.expression ++ ['0', '.']) ∧
      (∀ d', awaiting.backspace = some d' → d'.expression = awaiting.expression) ∧
      computed.justComputed = true ∧ computed.expression = [] ∧
      ∀ d', computed.typePoint = some d' → d'.expression = computed.expression ++ ['0', '.'] := by
  intro awaiting computed
  have hawaiting : awaiting.awaitingOperand = true := by decide +kernel
  have hcomputed : computed.justComputed = true := by decide +kernel
  obtain ⟨-, -, -, -, hpoint, hbackspace⟩ :=
    flags_agree {} ([.digit 1, .digit 2, .op .add].map fun key => .press key 0)
  obtain ⟨-, -, hresult, -, hfirst, -⟩ := flags_agree {} [.press (.digit 1) 0, .press (.digit 2) 0,
    .press .equals 0, .advance (Time.ofMillis 50)]
  exact ⟨hawaiting, by decide +kernel, (hpoint (.inr hawaiting)).2, (hbackspace hawaiting).2, hcomputed,
    (hresult hcomputed).1, (hfirst (.inl hcomputed)).2⟩

theorem isShown_run (p : Parameters) (events : List Event) :
    ((new p).run events).draft.display.IsShown :=
  draft_run (P := fun d => d.display.IsShown) Text.isShown_nil
    (fun hd hkey => (Draft.edit_of_typeKey hkey).isShown hd) (fun _ => Text.isShown_nil)
    Draft.isShown_shown p events

theorem isSpelled_run (p : Parameters) (events : List Event) :
    ((new p).run events).draft.display.IsSpelled ∧ ((new p).run events).draft.expression.IsSpelled := by
  refine ⟨(isShown_run p events).isSpelled, ?_⟩
  have hempty : Text.IsSpelled [] := fun _ h => nomatch h
  refine (draft_run (P := fun d => d.display.IsShown ∧ d.expression.IsSpelled)
    ⟨Text.isShown_nil, hempty⟩ ?_ ?_ (fun v => ⟨Draft.isShown_shown v, hempty⟩) p events).2
  · rintro d d' key ⟨hdisplay, hexpression⟩ hkey
    have hedit := Draft.edit_of_typeKey hkey
    refine ⟨hedit.isShown hdisplay, fun c hc => ?_⟩
    rcases hedit.mem_expression hc with h | h | h
    · exact hexpression c h
    · exact hdisplay.isSpelled c h
    · exact .inl (Bool.and_eq_true_iff.mp h).1
  · rintro d ⟨-, hexpression⟩
    exact ⟨Text.isShown_nil, fun c hc => hexpression c (Draft.mem_of_mem_dropNumeral hc)⟩

/-- A draft with the mark of a result is what a calculation has left. -/
def ShowsResult (s : Session) : Prop :=
  s.draft.justComputed = true → ∃ v, s.draft = Draft.afterResult (Draft.shown v)

theorem showsResult_run (p : Parameters) (events : List Event) : ((new p).run events).ShowsResult := by
  refine draft_run (P := fun d => d.justComputed = true → ∃ v, d = Draft.afterResult (Draft.shown v))
    nofun ?_ nofun (fun v _ => ⟨v, rfl⟩) p events
  intro d d' key _ hkey hcomputed
  rw [(Draft.edit_of_typeKey hkey).not_computed] at hcomputed
  cases hcomputed

/-- A backspace, and behind it a key of a numeral that is accepted, are two edits. -/
theorem exists_edit_backspace {s : Session} (hdisplay : s.draft.display.IsSpelled)
    (hexpression : s.draft.expression.IsSpelled) (hne : s.draft.display ≠ [])
    (hcalculating : s.isCalculating = false) {key : Key} (hkey : key.writesNumeral = true) {t u : Time}
    (hlast : ((s.press .backspace t).press key u).draft.lastKey = some key) :
    ∃ d, s.draft.Edit .backspace d ∧ d.Edit key ((s.press .backspace t).press key u).draft := by
  obtain ⟨d, hd⟩ := Draft.exists_typeKey_backspace hdisplay hexpression hne
  have hedit := Draft.edit_of_typeKey hd
  have hpress : (s.press .backspace t).draft = d := by
    rw [press_of_typeKey (calculation_eq_idle hcalculating) hd]
  have hchange := (s.press .backspace t).change_step (.press key u)
  rw [step] at hchange
  generalize ((s.press .backspace t).press key u).draft = d' at hchange hlast ⊢
  refine ⟨d, hedit, ?_⟩
  cases hchange with
  | kept =>
    have hbackspace : d.lastKey = some .backspace := by cases hedit <;> rfl
    rw [hpress, hbackspace] at hlast
    rw [← Option.some.inj hlast] at hkey
    cases hkey
  | typed _ _ h =>
    rw [hpress] at h
    exact Draft.edit_of_typeKey h
  | entryCleared => cases hkey
  | allCleared => cases hkey

end Session
end KeypadCalc
