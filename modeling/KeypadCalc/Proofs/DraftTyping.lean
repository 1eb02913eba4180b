import KeypadCalc.Draft.Calculation
import KeypadCalc.Proofs.TypedChain

/-!
# Typing a chain

While a chain is typed a draft is in one of two situations. Either an operand is expected, and the next
digit begins it behind the expression, or an operand has begun, and the display shows its numeral, which
is also what the keypad appends to. One lemma for each key says how it leads from one situation to the
next, and by induction over the chain its keys type its text.
-/
namespace KeypadCalc

namespace Text

/-- The text can be typed. -/
structure Fits (s : Text) : Prop where
  admitted : s.IsAdmitted
  length_le : s.length ≤ expressionLimit

theorem Fits.of_prefix {s t : Text} (ht : t.Fits) (h : s <+: t) : s.Fits :=
  ⟨fun c hc => ht.admitted c (h.subset hc), le_trans h.length_le ht.length_le⟩

end Text

namespace Draft

/-- An operand typed next is written behind the expression. -/
structure Expects (d : Draft) (expression : Text) : Prop where
  expression_eq : d.expression = expression
  room : d.display.length < displayLimit
  not_computed : d.justComputed = false
  fresh : d.awaitingOperand = true ∨ d.display = [] ∧ d.lastKey ≠ some .equals

/-- An operand has begun; the display shows its numeral. -/
structure Shows (d : Draft) (expression numeral : Text) : Prop where
  expression_eq : d.expression = expression
  display_eq : d.display = numeral
  not_computed : d.justComputed = false
  not_awaiting : d.awaitingOperand = false
  not_equals : d.lastKey ≠ some .equals

/-- What a key that edits does to the draft; nothing for the key for equals and the clearing keys. -/
def typeKey (d : Draft) : Key → Option Draft
  | .digit value => d.typeDigit value
  | .point => d.typePoint
  | .op o => d.typeOperator o
  | .percent => d.typePercent
  | .backspace => d.backspace
  | .equals | .clearEntry | .clearAll => none

/-- Keys one after the other, none of which may be refused. -/
def typeKeys (d : Draft) : List Key → Option Draft
  | [] => some d
  | key :: keys => (d.typeKey key).bind fun d => d.typeKeys keys

theorem typeKeys_append (d : Draft) (first second : List Key) :
    d.typeKeys (first ++ second) = (d.typeKeys first).bind fun d => d.typeKeys second := by
  induction first generalizing d with
  | nil => rfl
  | cons key keys ih =>
    rw [List.cons_append, typeKeys, typeKeys]
    cases d.typeKey key with
    | none => rfl
    | some d => exact ih d

/-- A short draft of expression characters and infinity signs is accepted, whatever was there before. -/
theorem accept_of_isSpelled {old new : Draft} (hdisplay : new.display.IsSpelled)
    (hroom : new.display.length ≤ displayLimit) (hexpression : new.expression.IsSpelled)
    (hlength : new.expression.length ≤ expressionLimit) : accept old new = some new := by
  have hshort : new.display.isDisplayable = true := by
    rw [Text.isDisplayable, Text.hasForbidden_eq_false hdisplay, decide_eq_true hroom]
    rfl
  have htypable : new.expression.isTypable = true := by
    rw [Text.isTypable, Text.hasForbidden_eq_false hexpression, decide_eq_true hlength]
    rfl
  rw [accept, mayReplace, mayReplace, hshort, htypable]
  rfl

theorem accept_eq_some {old new : Draft} (hdisplay : new.display.IsAdmitted)
    (hroom : new.display.length ≤ displayLimit) (hfits : new.expression.Fits) :
    accept old new = some new :=
  accept_of_isSpelled hdisplay.isSpelled hroom hfits.admitted.isSpelled hfits.length_le

theorem endsWithOperator_eq_false {s : Text} {c : Char} (h : s.getLast? = some c)
    (hblank : isBlank c = false) (hop : isOperatorChar c = false) : s.endsWithOperator = false := by
  have htrim : s.trimEnd = s := by
    obtain ⟨front, rfl⟩ := List.getLast?_eq_some_iff.mp h
    simp [Text.trimEnd, Text.dropEndWhile, hblank]
  have hglyph : c ∉ ['+', '-', 'x', '/'] := not_mem_of_isOperatorChar (by simp) hop
  rw [Text.endsWithOperator, htrim, h]
  exact decide_eq_false hglyph

theorem typeDigit_of_expects {d : Draft} {e : Text} {c : Char} (h : d.Expects e)
    (hc : c.isDigit = true) (hfits : (e ++ [c]).Fits) :
    ∃ d', d.typeKey (Key.ofDigit c) = some d' ∧ d'.Shows (e ++ [c]) [c] := by
  obtain ⟨hvalue, hchar⟩ := digitChar_ofDigit hc
  have hroom := Nat.not_le.mpr h.room
  have hdisplay : (if d.beginsOperand then [c] else d.display ++ [c]) = [c] := by
    rcases h.fresh with hawaiting | ⟨hempty, -⟩
    · rw [beginsOperand, hawaiting, Bool.or_true, if_pos rfl]
    · rw [hempty, List.nil_append, ite_self]
  have hexpression : (if d.awaitingOperand then d.expression ++ [c]
      else if d.justComputed || d.lastKey = some .equals then [c]
      else if d.display = ['0'] then dropZero d.expression ++ [c]
      else d.expression ++ [c]) = e ++ [c] := by
    rw [h.expression_eq, h.not_computed]
    rcases h.fresh with hawaiting | ⟨hempty, hequals⟩
    · rw [if_pos hawaiting]
    · simp [hempty, hequals]
  refine ⟨{ display := [c], expression := e ++ [c], lastKey := some (Key.ofDigit c) },
    ?_, ?_⟩
  · rw [Key.ofDigit, typeKey, typeDigit, if_neg hvalue, if_neg hroom]
    dsimp only
    rw [hchar, hdisplay, hexpression]
    exact accept_eq_some hfits.admitted.of_append.2 (by simp [displayLimit]) hfits
  · exact ⟨rfl, rfl, rfl, rfl, by simp [Key.ofDigit]⟩

theorem typeDigit_of_shows {d : Draft} {e n : Text} {c : Char} (h : d.Shows (e ++ n) n)
    (hzero : n ≠ ['0']) (hc : c.isDigit = true) (hroom : n.length < displayLimit)
    (hfits : (e ++ (n ++ [c])).Fits) :
    ∃ d', d.typeKey (Key.ofDigit c) = some d' ∧ d'.Shows (e ++ (n ++ [c])) (n ++ [c]) := by
  obtain ⟨hvalue, hchar⟩ := digitChar_ofDigit hc
  have hbegins : d.beginsOperand = false := by
    simp [beginsOperand, h.display_eq, h.not_computed, h.not_awaiting, h.not_equals, hzero]
  refine ⟨{ display := n ++ [c], expression := e ++ (n ++ [c]), lastKey := some (Key.ofDigit c) },
    ?_, ?_⟩
  · rw [Key.ofDigit, typeKey, typeDigit, if_neg hvalue, h.display_eq, if_neg (Nat.not_le.mpr hroom)]
    simp only [hchar, hbegins, h.expression_eq, h.not_computed, h.not_awaiting, h.not_equals, hzero,
      Bool.false_eq_true, if_false, decide_false, Bool.or_self, List.append_assoc]
    exact accept_eq_some hfits.admitted.of_append.2 (by simpa using hroom) hfits
  · exact ⟨rfl, rfl, rfl, rfl, by simp [Key.ofDigit]⟩

theorem typePoint_of_shows {d : Draft} {e n : Text} (h : d.Shows (e ++ n) n) (hpoint : '.' ∉ n)
    (hroom : n.length < displayLimit) (hfits : (e ++ (n ++ ['.'])).Fits) :
    ∃ d', d.typeKey .point = some d' ∧ d'.Shows (e ++ (n ++ ['.'])) (n ++ ['.']) := by
  refine ⟨{ display := n ++ ['.'], expression := e ++ (n ++ ['.']), lastKey := some .point },
    ?_, ?_⟩
  · unfold typeKey typePoint
    simp only [h.expression_eq, h.display_eq, h.not_computed, h.not_awaiting, hpoint, Bool.false_eq_true,
      if_false, Bool.or_self, List.append_assoc]
    exact accept_eq_some hfits.admitted.of_append.2 (by simpa using hroom) hfits
  · exact ⟨rfl, rfl, rfl, rfl, by simp⟩

/-- A percent sign is appended to the expression only. -/
theorem typePercent_of_shows {d : Draft} {e n : Text} (h : d.Shows e n) (hne : e ≠ [])
    (hoperator : e.endsWithOperator = false) (hn : n.IsAdmitted) (hroom : n.length ≤ displayLimit)
    (hfits : (e ++ ['%']).Fits) :
    ∃ d', d.typeKey .percent = some d' ∧ d'.Shows (e ++ ['%']) n := by
  refine ⟨{ d with
    expression := e ++ ['%'], lastKey := some .percent, justComputed := false, awaitingOperand := false },
    ?_, ?_⟩
  · unfold typeKey typePercent
    simp only [h.expression_eq, hoperator, List.isEmpty_eq_false_iff.mpr hne, Bool.or_self,
      Bool.false_eq_true, if_false, List.append_nil]
    exact accept_eq_some (by rw [h.display_eq]; exact hn) (by rw [h.display_eq]; exact hroom) hfits
  · exact ⟨rfl, h.display_eq, rfl, rfl, by simp⟩

/-- An operator behind an operand. -/
theorem typeOperator_of_shows {d : Draft} {e n : Text} (o : BinaryOp) (h : d.Shows e n) (hne : e ≠ [])
    (hoperator : e.endsWithOperator = false) (hn : n.IsAdmitted) (hroom : n.length < displayLimit)
    (hfits : (e ++ [' ', o.glyph, ' ']).Fits) :
    ∃ d', d.typeKey (.op o) = some d' ∧ d'.Expects (e ++ [' ', o.glyph, ' ']) := by
  refine ⟨{ d with
    expression := e ++ [' ', o.glyph, ' '], lastKey := some (.op o), justComputed := false,
    awaitingOperand := true },
    ?_, ?_⟩
  · unfold typeKey typeOperator
    simp only [h.expression_eq, hoperator, List.isEmpty_eq_false_iff.mpr hne, Bool.false_eq_true, if_false]
    exact accept_eq_some (by rw [h.display_eq]; exact hn) (by rw [h.display_eq]; exact hroom.le) hfits
  · exact ⟨rfl, by rw [h.display_eq]; exact hroom, rfl, .inl rfl⟩

/-- An operator right after a result continues from the result. -/
theorem typeOperator_of_result {shown : Text} (o : BinaryOp) (hroom : shown.length < displayLimit)
    (hfits : (shown ++ [' ', o.glyph, ' ']).Fits) :
    ∃ d', (afterResult shown).typeKey (.op o) = some d' ∧ d'.Expects (shown ++ [' ', o.glyph, ' ']) := by
  refine ⟨_, accept_eq_some hfits.admitted.of_append.1 hroom.le hfits, ?_⟩
  exact ⟨rfl, hroom, rfl, .inl rfl⟩

theorem typeKeys_cons {d d' : Draft} {key : Key} (h : d.typeKey key = some d') (keys : List Key) :
    d.typeKeys (key :: keys) = d'.typeKeys keys := by
  rw [typeKeys, h]
  rfl

theorem typeKeys_append_of {d d' : Draft} {first : List Key} (h : d.typeKeys first = some d')
    (second : List Key) : d.typeKeys (first ++ second) = d'.typeKeys second := by
  rw [typeKeys_append, h]
  rfl

/-- Digits behind a numeral that has begun. -/
theorem typeKeys_digits {d : Draft} {e n ds : Text} (h : d.Shows (e ++ n) n) (hne : n ≠ [])
    (hzero : n = ['0'] → ds = []) (hds : ∀ c ∈ ds, c.isDigit = true)
    (hroom : (n ++ ds).length ≤ displayLimit) (hfits : (e ++ (n ++ ds)).Fits) :
    ∃ d', d.typeKeys (ds.map Key.ofDigit) = some d' ∧ d'.Shows (e ++ (n ++ ds)) (n ++ ds) := by
  induction ds generalizing d n with
  | nil => exact ⟨d, rfl, by simpa using h⟩
  | cons c ds ih =>
    have hassoc : n ++ c :: ds = n ++ [c] ++ ds := by simp
    rw [hassoc] at hroom hfits ⊢
    have hprefix : e ++ (n ++ [c]) <+: e ++ (n ++ [c] ++ ds) := ⟨ds, by simp⟩
    have hshort : n.length < displayLimit := by
      simp only [List.length_append, List.length_singleton] at hroom
      omega
    obtain ⟨d₁, hkey, h₁⟩ := typeDigit_of_shows h (fun hn => nomatch hzero hn) (hds c List.mem_cons_self)
      hshort (hfits.of_prefix hprefix)
    have hlong : n ++ [c] = ['0'] → ds = [] := by
      intro heq
      have hlen := congrArg List.length heq
      have hpos := List.length_pos_iff.mpr hne
      simp only [List.length_append, List.length_singleton] at hlen
      omega
    obtain ⟨d', hkeys, h'⟩ := ih h₁ (by simp) hlong (fun c hc => hds c (List.mem_cons_of_mem _ hc)) hroom
      hfits
    exact ⟨d', by rw [List.map_cons, typeKeys_cons hkey, hkeys], h'⟩

theorem typeKeys_numeral {d : Draft} {e : Text} {n : Numeral} (h : d.Expects e) (hn : n.IsTyped)
    (hroom : n.text.length ≤ displayLimit) (hfits : (e ++ n.text).Fits) :
    ∃ d', d.typeKeys n.keys = some d' ∧ d'.Shows (e ++ n.text) n.text := by
  obtain ⟨c, ds, hwhole⟩ := List.exists_cons_of_ne_nil hn.1
  have hdigit : ∀ c' ∈ c :: ds, c'.isDigit = true := fun c' hc' =>
    n.isDigit c' (List.mem_append_left _ (hwhole ▸ hc'))
  have htext : n.text = [c] ++ ds ++ n.fraction := by rw [Numeral.text, hwhole, List.singleton_append]
  rw [htext] at hroom hfits ⊢
  have hroomWhole : ([c] ++ ds).length ≤ displayLimit := by
    rw [List.length_append] at hroom
    omega
  obtain ⟨d₁, hfirst, h₁⟩ := typeDigit_of_expects h (hdigit c List.mem_cons_self)
    (hfits.of_prefix ⟨ds ++ n.fraction, by simp⟩)
  have hzero : [c] = ['0'] → ds = [] := by
    intro hc
    have hhead := hn.2 (by rw [hwhole, List.head?_cons, List.singleton_inj.mp hc])
    rw [hwhole] at hhead
    exact (List.cons.inj hhead).2
  obtain ⟨d₂, hwholeKeys, h₂⟩ := typeKeys_digits h₁ (List.cons_ne_nil c []) hzero
    (fun c' hc' => hdigit c' (List.mem_cons_of_mem c hc')) hroomWhole
    (hfits.of_prefix ⟨n.fraction, by simp⟩)
  have hkeys : d.typeKeys (n.whole.map Key.ofDigit) = some d₂ := by
    rw [hwhole, List.map_cons, typeKeys_cons hfirst, hwholeKeys]
  rw [Numeral.keys, typeKeys_append_of hkeys]
  cases hplaces : n.places with
  | none => exact ⟨d₂, rfl, by simpa [Numeral.fraction, hplaces] using h₂⟩
  | some places =>
    have hfraction : [c] ++ ds ++ n.fraction = [c] ++ ds ++ ['.'] ++ places := by
      simp [Numeral.fraction, hplaces]
    rw [hfraction] at hroom hfits ⊢
    have hpoint : '.' ∉ [c] ++ ds := by
      have hnot := n.point_not_mem_whole
      rwa [hwhole] at hnot
    have hroomPoint : ([c] ++ ds).length < displayLimit := by
      simp only [List.length_append, List.length_singleton] at hroom ⊢
      omega
    obtain ⟨d₃, hpointKey, h₃⟩ := typePoint_of_shows h₂ hpoint hroomPoint
      (hfits.of_prefix ⟨places, by simp⟩)
    obtain ⟨d', hplacesKeys, h'⟩ := typeKeys_digits h₃ (by simp) (by simp)
      (fun c' hc' => n.isDigit c' (List.mem_append_right _ (by rw [hplaces]; exact hc'))) hroom hfits
    exact ⟨d', by rw [typeKeys_cons hpointKey, hplacesKeys], h'⟩

theorem endsWithOperator_append (e : Text) {s : Text} (hne : s ≠ [])
    (hs : ∀ c ∈ s, isBlank c = false ∧ isOperatorChar c = false) :
    (e ++ s).endsWithOperator = false := by
  have hlast : (e ++ s).getLast? = some (s.getLast hne) := by
    rw [List.getLast?_append_of_ne_nil _ hne, List.getLast?_eq_some_getLast hne]
  obtain ⟨hblank, hop⟩ := hs _ (List.getLast_mem hne)
  exact endsWithOperator_eq_false hlast hblank hop

theorem endsWithOperator_numeral (e : Text) (n : Numeral) : (e ++ n.text).endsWithOperator = false :=
  endsWithOperator_append e n.text_ne_nil fun _ hc =>
    ⟨Token.isBlank_of_isNumeral (Numeral.mem_text hc), isOperatorChar_of_isNumeral (Numeral.mem_text hc)⟩

theorem endsWithOperator_operand (e : Text) (x : Operand) : (e ++ x.text).endsWithOperator = false :=
  endsWithOperator_append e x.text_ne_nil fun _ hc =>
    ⟨Operand.isBlank_of_mem_text hc, Operand.not_isOperatorChar hc⟩

theorem typeKeys_operand {d : Draft} {e : Text} {x : Operand} (h : d.Expects e) (hx : x.numeral.IsTyped)
    (hroom : x.numeral.text.length ≤ displayLimit) (hfits : (e ++ x.text).Fits) :
    ∃ d', d.typeKeys x.keys = some d' ∧ d'.Shows (e ++ x.text) x.numeral.text := by
  have hprefix : e ++ x.numeral.text <+: e ++ x.text := ⟨_, by rw [Operand.text, List.append_assoc]⟩
  obtain ⟨d₁, hnumeral, h₁⟩ := typeKeys_numeral h hx hroom (hfits.of_prefix hprefix)
  rw [Operand.keys, typeKeys_append_of hnumeral]
  cases hpercent : x.percent with
  | false => exact ⟨d₁, rfl, by simpa [Operand.text, hpercent] using h₁⟩
  | true =>
    have htext : e ++ x.text = e ++ x.numeral.text ++ ['%'] := by simp [Operand.text, hpercent]
    have hoperator := endsWithOperator_numeral e x.numeral
    rw [htext] at hfits ⊢
    obtain ⟨d', hkey, h'⟩ := typePercent_of_shows h₁ (by simp [x.numeral.text_ne_nil]) hoperator
      hfits.admitted.of_append.1.of_append.2 hroom hfits
    exact ⟨d', by rw [if_pos rfl, typeKeys_cons hkey, typeKeys], h'⟩

/-- An operand and what follows it: after each operator the next operand is expected. The induction is
on the rest of the chain. -/
theorem typeKeys_chain {d : Draft} {e : Text} {x : Operand} {rest : List (BinaryOp × Operand)}
    (h : d.Expects e) (hroom : FitsDisplay (x :: rest.map Prod.snd))
    (hfits : (e ++ (x.text ++ Chain.typedRest rest)).Fits) :
    ∃ d', d.typeKeys (x.keys ++ Chain.restKeys rest) = some d' ∧
      d'.Shows (e ++ (x.text ++ Chain.typedRest rest))
        ((x :: rest.map Prod.snd).getLast (List.cons_ne_nil _ _)).numeral.text := by
  obtain ⟨hx, hlength⟩ := hroom.1 x List.mem_cons_self
  induction rest generalizing d e x with
  | nil =>
    rw [Chain.typedRest, List.flatMap_nil, List.append_nil] at hfits ⊢
    rw [Chain.restKeys, List.flatMap_nil, List.append_nil]
    exact typeKeys_operand h hx hlength hfits
  | cons y rest ih =>
    have hshort : x.numeral.text.length < displayLimit := hroom.2 x (by simp)
    have htail : FitsDisplay (y.2 :: rest.map Prod.snd) :=
      ⟨fun z hz => hroom.1 z (List.mem_cons_of_mem _ hz), fun z hz => hroom.2 z (by simp [hz])⟩
    have htext : e ++ (x.text ++ Chain.typedRest (y :: rest)) =
        e ++ x.text ++ [' ', y.1.glyph, ' '] ++ (y.2.text ++ Chain.typedRest rest) := by
      simp [Chain.typedRest]
    rw [htext] at hfits ⊢
    have hoperator : (e ++ x.text ++ [' ', y.1.glyph, ' ']).Fits := hfits.of_prefix ⟨_, rfl⟩
    obtain ⟨d₁, hoperand, h₁⟩ := typeKeys_operand h hx hlength (hoperator.of_prefix ⟨_, rfl⟩)
    have hnumeral : x.numeral.text.IsAdmitted := fun c hc =>
      x.isAdmitted_text c (List.mem_append_left _ hc)
    obtain ⟨d₂, hkey, h₂⟩ := typeOperator_of_shows y.1 h₁ (by simp [x.text_ne_nil])
      (endsWithOperator_operand e x) hnumeral hshort hoperator
    obtain ⟨hy, hylength⟩ := htail.1 y.2 List.mem_cons_self
    obtain ⟨d', hkeys, h'⟩ := ih h₂ htail hfits hy hylength
    have hrest : Chain.restKeys (y :: rest) = .op y.1 :: (y.2.keys ++ Chain.restKeys rest) := by
      simp [Chain.restKeys]
    exact ⟨d', by rw [typeKeys_append_of hoperand, hrest, typeKeys_cons hkey, hkeys], h'⟩

theorem endsWithOperator_typedText (c : Chain) : c.typedText.endsWithOperator = false := by
  unfold Chain.typedText
  rcases List.eq_nil_or_concat c.rest with hrest | ⟨init, x, hrest⟩
  · rw [hrest, Chain.typedRest, List.flatMap_nil, List.append_nil, Chain.leadText]
    exact endsWithOperator_operand _ _
  · have htext : c.leadText ++ Chain.typedRest c.rest =
        c.leadText ++ Chain.typedRest init ++ [' ', x.1.glyph, ' '] ++ x.2.text := by
      simp [hrest, Chain.typedRest]
    rw [htext]
    exact endsWithOperator_operand _ _

theorem toEvaluate_of_shows {d : Draft} {c : Chain} {n : Text} (h : d.Shows c.typedText n) :
    d.toEvaluate = c.typedText := by
  have hne : c.typedText.isEmpty = false := by
    rw [List.isEmpty_eq_false_iff, Chain.typedText, Chain.leadText]
    simp [c.first.text_ne_nil]
  rw [toEvaluate, h.expression_eq, endsWithOperator_typedText, hne]
  rfl

/-- Typing a chain into an empty draft. -/
theorem typeKeys_new {c : Chain} (hsign : c.negated = false) (hroom : FitsDisplay c.operands)
    (hlength : c.typedText.length ≤ expressionLimit) :
    ∃ d, ({} : Draft).typeKeys c.keys = some d ∧ d.Shows c.typedText c.last.numeral.text := by
  have hstart : ({} : Draft).Expects [] := ⟨rfl, by decide, rfl, .inr ⟨rfl, by simp⟩⟩
  have htext : [] ++ (c.first.text ++ Chain.typedRest c.rest) = c.typedText := by
    rw [Chain.typedText, Chain.leadText, hsign]
    rfl
  have h := typeKeys_chain hstart hroom (by rw [htext]; exact ⟨c.isAdmitted_typedText, hlength⟩)
  rwa [htext] at h

/-- Typing the rest of a chain behind a result that is its first operand. -/
theorem typeKeys_afterResult {c : Chain} (hrest : c.rest ≠ []) (hroom : FitsDisplay (c.rest.map Prod.snd))
    (hlead : c.leadText.length < displayLimit) (hlength : c.typedText.length ≤ expressionLimit) :
    ∃ d, (afterResult c.leadText).typeKeys (Chain.restKeys c.rest) = some d ∧
      d.Shows c.typedText c.last.numeral.text := by
  obtain ⟨y, rest, hcons⟩ := List.exists_cons_of_ne_nil hrest
  have hfits : c.typedText.Fits := ⟨c.isAdmitted_typedText, hlength⟩
  have htext : c.typedText =
      c.leadText ++ [' ', y.1.glyph, ' '] ++ (y.2.text ++ Chain.typedRest rest) := by
    simp [Chain.typedText, hcons, Chain.typedRest]
  have hkeys : Chain.restKeys c.rest = .op y.1 :: (y.2.keys ++ Chain.restKeys rest) := by
    simp [hcons, Chain.restKeys]
  have hlast : c.last = (y.2 :: rest.map Prod.snd).getLast (List.cons_ne_nil _ _) := by
    simp [Chain.last, Chain.operands, hcons]
  rw [hcons, List.map_cons] at hroom
  rw [htext] at hfits ⊢
  rw [hkeys, hlast]
  obtain ⟨d₁, hkey, h₁⟩ := typeOperator_of_result y.1 hlead (hfits.of_prefix ⟨_, rfl⟩)
  rw [typeKeys_cons hkey]
  exact typeKeys_chain h₁ hroom hfits

end Draft
end KeypadCalc
