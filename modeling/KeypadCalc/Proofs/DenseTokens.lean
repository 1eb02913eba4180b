import KeypadCalc.Expression.Percent
import KeypadCalc.Proofs.Chain

/-!
# Tokens of a text without blanks

Percent signs are expanded in the text before tokens are read. Both steps look for maximal runs of digits
and points, so together they read a text from left to right as a list of items: operands, which may end
in a percent sign, and operators. Every text that is read successfully is the text of such a list, and
its tokens are those of the items.
-/
namespace KeypadCalc

open Postfix (emit emit_ok emit_emit)

namespace Token

theorem isBlank_of_isNumeral {c : Char} (h : isNumeral c = true) : isBlank c = false := by
  simp only [isNumeral, Bool.or_eq_true, decide_eq_true_eq] at h
  rcases h with h | rfl
  · obtain ⟨hlo, hhi⟩ : 48 ≤ c.toNat ∧ c.toNat ≤ 57 := Char.isDigit_iff_toNat.mp h
    simp only [isBlank, blankRanges, List.any_cons, List.any_nil, Bool.or_false, Bool.or_eq_false_iff,
      Bool.and_eq_false_iff, decide_eq_false_iff_not]
    omega
  · decide

theorem ofChar?_of_isNumeral {c : Char} (h : isNumeral c = true) : ofChar? c = none := by
  unfold ofChar?
  split <;> first | rfl | cases h

theorem ofText_char {c : Char} {token : Token} (hblank : isBlank c = false)
    (h : ofChar? c = some token) (rest : Text) :
    ofText (c :: rest) = emit [token] (ofText rest) := by
  rw [ofText, hblank, h]
  cases ofText rest <;> rfl

theorem ofText_symbol (o : BinaryOp) (rest : Text) :
    ofText (o.symbol :: rest) = emit [.op o] (ofText rest) := by
  cases o <;> exact ofText_char (by decide) rfl rest

/-- A maximal run of digits and points is read as one number. -/
theorem ofText_run {run rest : Text} (hne : run ≠ []) (hrun : ∀ c ∈ run, isNumeral c = true)
    (hrest : ∀ c ∈ rest.head?, isNumeral c = false) :
    ofText (run ++ rest) =
      match Literal.value? run with
      | some v => emit [.number v] (ofText rest)
      | none => .error (.invalidNumber run) := by
  cases run with
  | nil => exact absurd rfl hne
  | cons c run =>
    have hc := hrun c List.mem_cons_self
    have htail : ∀ d ∈ run, isNumeral d = true := fun d hd => hrun d (List.mem_cons_of_mem c hd)
    rw [List.cons_append, ofText, isBlank_of_isNumeral hc, ofChar?_of_isNumeral hc, hc,
      Text.takeWhile_run htail hrest, Text.dropWhile_run htail hrest]
    simp only [Bool.false_eq_true, if_false, if_true]
    cases Literal.value? (c :: run) with
    | none => rfl
    | some v => cases ofText rest <;> rfl

end Token

namespace Text

theorem expandPercents_run {run : Text} (hrun : ∀ c ∈ run, Token.isNumeral c = true)
    (waiting rest : Text) :
    expandPercents waiting (run ++ rest) = expandPercents (run.reverse ++ waiting) rest := by
  induction run generalizing waiting with
  | nil => rfl
  | cons c run ih =>
    have hc := hrun c List.mem_cons_self
    rw [List.cons_append, expandPercents, if_pos hc, ih fun d hd => hrun d (List.mem_cons_of_mem c hd)]
    simp

/-- A run of digits and points without a percent sign behind it is left as it is. -/
theorem expandPercents_plain (waiting : Text) {rest : Text}
    (hrest : ∀ c ∈ rest.head?, Token.isNumeral c = false ∧ c ≠ '%') :
    expandPercents waiting rest = waiting.reverse ++ expandPercents [] rest := by
  cases rest with
  | nil => simp [expandPercents]
  | cons c rest =>
    obtain ⟨hnum, hpercent⟩ := hrest c rfl
    simp [expandPercents, hnum, hpercent]

/-- A character that is no part of a number is kept, and so is a percent sign that follows none. -/
theorem expandPercents_other {c : Char} (hc : Token.isNumeral c = false) (rest : Text) :
    expandPercents [] (c :: rest) = c :: expandPercents [] rest := by
  simp [expandPercents, hc]

theorem expandPercents_run_plain {run rest : Text} (hrun : ∀ c ∈ run, Token.isNumeral c = true)
    (hrest : ∀ c ∈ rest.head?, Token.isNumeral c = false ∧ c ≠ '%') :
    expandPercents [] (run ++ rest) = run ++ expandPercents [] rest := by
  rw [expandPercents_run hrun, List.append_nil, expandPercents_plain _ hrest, List.reverse_reverse]

theorem expandPercents_run_percent {run : Text} (hne : run ≠ [])
    (hrun : ∀ c ∈ run, Token.isNumeral c = true) (rest : Text) :
    expandPercents [] (run ++ '%' :: rest) =
      ['('] ++ run ++ ['/', '1', '0', '0', ')'] ++ expandPercents [] rest := by
  have hwaiting : (!run.reverse.isEmpty) = true := by simpa using hne
  rw [expandPercents_run hrun, List.append_nil, expandPercents, hwaiting]
  simp [Token.isNumeral]

/-- What is written for a text begins like the text, unless that begins with a number. -/
theorem head?_expandPercents {s : Text} (hs : ∀ c ∈ s.head?, Token.isNumeral c = false) :
    (expandPercents [] s).head? = s.head? := by
  cases s with
  | nil => simp [expandPercents]
  | cons c s => rw [expandPercents_other (hs c rfl), List.head?_cons, List.head?_cons]

/-- The second character is no percent sign that would follow a number. -/
def LeavesPercent (c d : Char) : Prop :=
  d = '%' → Token.isNumeral c = false

theorem isChain_leavesPercent_of_not_mem {s : Text} (h : '%' ∉ s) : s.IsChain LeavesPercent := by
  refine List.Pairwise.isChain (List.pairwise_of_forall_mem_list fun c _ d hd hpercent => ?_)
  exact absurd (hpercent ▸ hd) h

/-- Where no percent sign follows a number, nothing is rewritten. -/
theorem expandPercents_of_isChain {s waiting : Text} (hs : s.IsChain LeavesPercent)
    (hwaiting : waiting ≠ [] → s.head? ≠ some '%') : expandPercents waiting s = waiting.reverse ++ s := by
  induction s generalizing waiting with
  | nil => simp [expandPercents]
  | cons c s ih =>
    obtain ⟨hnext, hrest⟩ := List.isChain_cons.mp hs
    rw [expandPercents]
    split
    · rename_i hc
      have hhead : s.head? ≠ some '%' := by
        intro h
        rw [hnext '%' h rfl] at hc
        cases hc
      rw [ih hrest fun _ => hhead, List.reverse_cons, List.append_assoc, List.singleton_append]
    · have hkept : (c = '%' && !waiting.isEmpty) = false := by
        by_cases hempty : waiting = []
        · simp [hempty]
        · have hc : c ≠ '%' := fun h => hwaiting hempty (congrArg some h)
          simp [hc]
      rw [hkept, ih hrest fun h => absurd rfl h]
      simp

theorem expandPercents_of_not_mem {s : Text} (h : '%' ∉ s) : expandPercents [] s = s :=
  expandPercents_of_isChain (isChain_leavesPercent_of_not_mem h) fun hne => absurd rfl hne

theorem expandPercents_eq_nil {waiting s : Text} (h : expandPercents waiting s = []) :
    waiting = [] ∧ s = [] := by
  induction s generalizing waiting with
  | nil => exact ⟨by simpa [expandPercents] using h, rfl⟩
  | cons c s ih =>
    rw [expandPercents] at h
    split at h
    · cases (ih h).1
    · split at h <;> simp at h

theorem arithmetic_eq (s : Text) : s.arithmetic = expandPercents [] s.dense := by
  unfold arithmetic
  by_cases h : '%' ∈ s.dense
  · rw [if_pos h]
  · rw [if_neg h]
    exact (expandPercents_of_not_mem h).symm

theorem dense_eq_self {s : Text} (hblank : ∀ c ∈ s, isBlank c = false) (hx : 'x' ∉ s) : s.dense = s := by
  have hkept : ∀ c ∈ s, (if c = 'x' then '*' else c) = c := by
    intro c hc
    rw [if_neg]
    rintro rfl
    exact hx hc
  rw [dense, compact_eq_self hblank]
  exact (List.map_congr_left hkept).trans (List.map_id' _)

/-- The tokens of a text without blanks, once its percent signs are expanded. -/
def denseTokens (s : Text) : Except EvalError (List Token) :=
  Token.ofText (expandPercents [] s)

theorem denseTokens_symbol (o : BinaryOp) (rest : Text) :
    denseTokens (o.symbol :: rest) = emit [.op o] (denseTokens rest) := by
  have hsymbol : Token.isNumeral o.symbol = false := by
    cases o <;> rfl
  rw [denseTokens, expandPercents_other hsymbol, Token.ofText_symbol, denseTokens]

/-- A percent sign with no number in front of it stays, and is no token. -/
theorem denseTokens_percent (rest : Text) :
    denseTokens ('%' :: rest) = .error (.unexpectedCharacter '%') := by
  rw [denseTokens, expandPercents_other rfl, Token.ofText]
  rfl

theorem denseTokens_run {run rest : Text} (hne : run ≠ [])
    (hrun : ∀ c ∈ run, Token.isNumeral c = true)
    (hrest : ∀ c ∈ rest.head?, Token.isNumeral c = false ∧ c ≠ '%') :
    denseTokens (run ++ rest) =
      match Literal.value? run with
      | some v => emit [.number v] (denseTokens rest)
      | none => .error (.invalidNumber run) := by
  have hhead : ∀ c ∈ (expandPercents [] rest).head?, Token.isNumeral c = false := by
    rw [head?_expandPercents fun c hc => (hrest c hc).1]
    exact fun c hc => (hrest c hc).1
  rw [denseTokens, expandPercents_run_plain hrun hrest, Token.ofText_run hne hrun hhead]
  rfl

theorem denseTokens_run_percent {run : Text} (hne : run ≠ [])
    (hrun : ∀ c ∈ run, Token.isNumeral c = true) (rest : Text) :
    denseTokens (run ++ '%' :: rest) =
      match Literal.value? run with
      | some v => emit [.opening, .number v, .op .div, .number 100, .closing] (denseTokens rest)
      | none => .error (.invalidNumber run) := by
  have hexpand : expandPercents [] (run ++ '%' :: rest) =
      '(' :: (run ++ BinaryOp.div.symbol :: (['1', '0', '0'] ++ ')' :: expandPercents [] rest)) := by
    rw [expandPercents_run_percent hne hrun]
    simp [BinaryOp.symbol]
  have hopen (s : Text) : Token.ofText ('(' :: s) = emit [.opening] (Token.ofText s) :=
    Token.ofText_char (by decide) rfl s
  have hclose (s : Text) : Token.ofText (')' :: s) = emit [.closing] (Token.ofText s) :=
    Token.ofText_char (by decide) rfl s
  have hhundred (s : Text) :
      Token.ofText (['1', '0', '0'] ++ ')' :: s) = emit [.number 100] (Token.ofText (')' :: s)) := by
    have hrun : ∀ c ∈ ['1', '0', '0'], Token.isNumeral c = true := by
      simp [Token.isNumeral]
    have hvalue : Literal.value? ['1', '0', '0'] = some 100 := by
      have h := (Numeral.mk ['1', '0', '0'] none (by simp) (by simp)).value?_text
      simpa [Numeral.text, Numeral.fraction, Numeral.value, Numeral.digits, Nat.ofDigitChars_cons] using h
    rw [Token.ofText_run (List.cons_ne_nil _ _) hrun (by simp [Token.isNumeral]), hvalue]
  rw [denseTokens, hexpand, hopen, Token.ofText_run hne hrun (by simp [BinaryOp.symbol, Token.isNumeral]),
    Token.ofText_symbol, hhundred, hclose]
  cases Literal.value? run with
  | none => rfl
  | some v => simp only [emit_emit, denseTokens, List.cons_append, List.nil_append]

end Text

/-- No digit, point or percent sign follows that would be read as a part of the operand. -/
def Operand.EndsBefore (rest : Text) (x : Operand) : Prop :=
  x.percent = false → ∀ c ∈ rest.head?, Token.isNumeral c = false ∧ c ≠ '%'

/-- An operand begins with a digit or a point. -/
theorem Operand.isNumeral_of_head? {x : Operand} {rest : Text} {c : Char}
    (h : c ∈ (x.text ++ rest).head?) : Token.isNumeral c = true := by
  rw [Operand.text, List.append_assoc, List.head?_append_of_ne_nil _ x.numeral.text_ne_nil] at h
  exact Numeral.mem_text (List.mem_of_mem_head? h)

/-- What a text without blanks is made of. -/
inductive Item where
  | operand (x : Operand)
  | op (o : BinaryOp)

namespace Item

def text : Item → Text
  | .operand x => x.text
  | .op o => [o.symbol]

def tokens : Item → List Token
  | .operand x => x.phrase.tokens
  | .op o => [.op o]

theorem text_ne_nil (i : Item) : i.text ≠ [] := by
  cases i with
  | operand x => exact x.text_ne_nil
  | op o => exact List.cons_ne_nil _ _

/-- Nothing follows that would be read as a part of the item. -/
def EndsBefore (rest : Text) : Item → Prop
  | .operand x => x.EndsBefore rest
  | .op _ => True

/-- Two items that are read one after the other: only a percent sign keeps two operands apart. -/
def Meets : Item → Item → Prop
  | .operand x, .operand _ => x.percent = true
  | _, _ => True

theorem EndsBefore.meets {i j : Item} {items : List Item} (h : i.EndsBefore (items.flatMap text))
    (hj : j ∈ items.head?) : i.Meets j := by
  match i, j, hj with
  | .op _, _, _ => trivial
  | .operand _, .op _, _ => trivial
  | .operand x, .operand y, hj =>
    obtain ⟨rest, rfl⟩ := List.head?_eq_some_iff.mp hj
    show x.percent = true
    by_contra hpercent
    obtain ⟨c, tail, hy⟩ := List.exists_cons_of_ne_nil y.text_ne_nil
    have hc : c ∈ ((Item.operand y :: rest).flatMap text).head? := by simp [text, hy]
    have hnot := (h (by simpa using hpercent) c hc).1
    rw [List.flatMap_cons] at hc
    rw [Operand.isNumeral_of_head? hc] at hnot
    cases hnot

end Item

/-- What can be wrong with a dense text. -/
inductive Unreadable : EvalError → Prop
  | percent : Unreadable (.unexpectedCharacter '%')
  | number (run : Text) : Unreadable (.invalidNumber run)

namespace Text

/-- An operand is read as its tree, if no digit, point or percent sign follows that could belong to
it. -/
theorem denseTokens_operand (x : Operand) (rest : Text) (hrest : x.EndsBefore rest) :
    denseTokens (x.text ++ rest) = emit x.phrase.tokens (denseTokens rest) := by
  have hrun : ∀ c ∈ x.numeral.text, Token.isNumeral c = true := fun c hc => Numeral.mem_text hc
  cases hp : x.percent with
  | false =>
    have hread := denseTokens_run x.numeral.text_ne_nil hrun (hrest hp)
    rw [x.numeral.value?_text] at hread
    simpa [Operand.text, Operand.phrase, hp, Phrase.tokens] using hread
  | true =>
    have hread := denseTokens_run_percent x.numeral.text_ne_nil hrun rest
    rw [x.numeral.value?_text] at hread
    simpa [Operand.text, Operand.phrase, hp, Phrase.tokens] using hread

/-- The characters of a dense text: those of numerals, percent signs and the symbols of operators. -/
def IsDense (s : Text) : Prop :=
  ∀ c ∈ s, Token.isNumeral c = true ∨ c = '%' ∨ ∃ o : BinaryOp, c = o.symbol

/-- The run of digits and points at the beginning of a text is an operand, and so is the run with a
percent sign behind it, unless the run is no number. -/
theorem read_first_operand {run rest : Text} (hne : run ≠ [])
    (hrun : ∀ c ∈ run, Token.isNumeral c = true) (hrest : ∀ c ∈ rest.head?, Token.isNumeral c = false) :
    (∃ (x : Operand) (rest' : Text), run ++ rest = x.text ++ rest' ∧ x.EndsBefore rest') ∨
      denseTokens (run ++ rest) = .error (.invalidNumber run) := by
  cases hv : Literal.value? run with
  | some v =>
    left
    obtain ⟨n, rfl, -⟩ := Numeral.exists_of_value? hrun hv
    by_cases hpercent : rest.head? = some '%'
    · obtain ⟨rest', rfl⟩ := List.head?_eq_some_iff.mp hpercent
      exact ⟨⟨n, true⟩, rest', by simp [Operand.text], nofun⟩
    · refine ⟨⟨n, false⟩, rest, by simp [Operand.text], fun _ c hc => ⟨hrest c hc, ?_⟩⟩
      rintro rfl
      exact hpercent hc
  | none =>
    right
    by_cases hpercent : rest.head? = some '%'
    · obtain ⟨rest', rfl⟩ := List.head?_eq_some_iff.mp hpercent
      rw [denseTokens_run_percent hne hrun, hv]
    · rw [denseTokens_run hne hrun fun c hc => ⟨hrest c hc, fun he => hpercent (he ▸ hc)⟩, hv]

/-- A dense text begins with an item, or with what cannot be read. -/
theorem read_first_item {c : Char} {s : Text} (hs : IsDense (c :: s)) :
    (∃ (i : Item) (rest : Text), c :: s = i.text ++ rest ∧ i.EndsBefore rest ∧
        denseTokens (c :: s) = emit i.tokens (denseTokens rest)) ∨
      ∃ e, Unreadable e ∧ denseTokens (c :: s) = .error e := by
  rcases hs c List.mem_cons_self with hc | rfl | ⟨o, rfl⟩
  · obtain ⟨run, after, hsplit, hne, hrun, hafter⟩ := exists_run hc s
    rw [hsplit]
    rcases read_first_operand hne hrun hafter with ⟨x, rest, htext, hends⟩ | herror
    · refine .inl ⟨.operand x, rest, htext, hends, ?_⟩
      rw [htext]
      exact denseTokens_operand x rest hends
    · exact .inr ⟨_, .number _, herror⟩
  · exact .inr ⟨_, .percent, denseTokens_percent s⟩
  · exact .inl ⟨.op o, s, rfl, trivial, denseTokens_symbol o s⟩

/-- A dense text is read as a list of items, or something in it cannot be read. The induction is on the
length of the text, since one item takes many characters. -/
theorem read_items {s : Text} (hs : s.IsDense) :
    (∃ items : List Item, s = items.flatMap Item.text ∧ items.IsChain Item.Meets ∧
        denseTokens s = .ok (items.flatMap Item.tokens)) ∨
      ∃ e, Unreadable e ∧ denseTokens s = .error e := by
  induction hn : s.length using Nat.strongRecOn generalizing s with
  | ind n ih =>
    cases s with
    | nil =>
      refine .inl ⟨[], rfl, .nil, ?_⟩
      rw [denseTokens, expandPercents, List.reverse_nil, Token.ofText]
      rfl
    | cons c s =>
      rcases read_first_item hs with ⟨i, rest, htext, hends, hread⟩ | herror
      · have hrest : rest.IsDense := fun d hd => hs d (htext ▸ List.mem_append_right _ hd)
        have hshort : rest.length < n := by
          have hlen := congrArg List.length htext
          have hpos := List.length_pos_iff.mpr i.text_ne_nil
          rw [List.length_append] at hlen
          omega
        rcases ih rest.length hshort hrest rfl with ⟨items, rfl, hmeet, hitems⟩ | ⟨e, he, herror⟩
        · refine .inl ⟨i :: items, by rw [htext, List.flatMap_cons], ?_, ?_⟩
          · exact List.isChain_cons.mpr ⟨fun j hj => hends.meets hj, hmeet⟩
          · rw [hread, hitems, emit_ok, List.flatMap_cons]
        · exact .inr ⟨e, he, by rw [hread, herror]; rfl⟩
      · exact .inr herror

end Text
end KeypadCalc
