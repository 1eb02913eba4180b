import KeypadCalc.Proofs.TokenReading

/-!
# The item at which the reading of a text stops

`Text.Offends` says where a text has an item that no expression has, a foreign character or a run of digits
and points that is no number. Up to such an item, or to its end, every text can be spelled out. A text with no
such item is therefore read, and any other is read up to the first one, which the error names. Two texts that
do not meet inside a run have no items but their own, so that they are read separately.
-/
namespace KeypadCalc

open Postfix (emit_ok)

/-- The characters of plain arithmetic, blanks included. -/
def isArithmeticChar (c : Char) : Bool :=
  isBlank c || Token.isNumeral c || c ∈ "+-*/()".toList

theorem cases_of_isArithmeticChar {c : Char} (h : isArithmeticChar c = true) :
    isBlank c = true ∨ Token.isNumeral c = true ∨ (∃ o : BinaryOp, c = o.symbol) ∨ c = '(' ∨ c = ')' := by
  simp only [isArithmeticChar, Bool.or_eq_true, decide_eq_true_eq] at h
  rcases h with (hblank | hnumeral) | hsymbol
  · exact .inl hblank
  · exact .inr (.inl hnumeral)
  · have hsymbol : c = '+' ∨ c = '-' ∨ c = '*' ∨ c = '/' ∨ c = '(' ∨ c = ')' := by simpa using hsymbol
    rcases hsymbol with rfl | rfl | rfl | rfl | hparenthesis
    · exact .inr (.inr (.inl ⟨.add, rfl⟩))
    · exact .inr (.inr (.inl ⟨.sub, rfl⟩))
    · exact .inr (.inr (.inl ⟨.mul, rfl⟩))
    · exact .inr (.inr (.inl ⟨.div, rfl⟩))
    · exact .inr (.inr (.inr hparenthesis))

theorem isNumeral_symbol (o : BinaryOp) : Token.isNumeral o.symbol = false := by
  cases o <;> rfl

theorem isNumeral_of_isBlank {c : Char} (h : isBlank c = true) : Token.isNumeral c = false := by
  by_contra hnumeral
  rw [Token.isBlank_of_isNumeral (by simpa using hnumeral)] at h
  cases h

namespace Text

/-- `s` is `front`, then `run`, then `rest`, and `run` is a maximal run of digits and points. -/
structure HasRun (s front run rest : Text) : Prop where
  split : s = front ++ (run ++ rest)
  nonempty : run ≠ []
  numeral : ∀ c ∈ run, Token.isNumeral c = true
  before : ∀ c ∈ front.getLast?, Token.isNumeral c = false
  after : ∀ c ∈ rest.head?, Token.isNumeral c = false

/-- Behind `front` the text has an item that no expression has: a foreign character, or a maximal run of
digits and points that is no number. -/
inductive Offends (s front : Text) : EvalError → Prop
  | character {c : Char} {rest : Text} (hsplit : s = front ++ c :: rest)
      (hc : isArithmeticChar c = false) : Offends s front (.unexpectedCharacter c)
  | number {run rest : Text} (hrun : s.HasRun front run rest) (hnone : ¬run.IsNumber) :
      Offends s front (.invalidNumber run)

theorem HasRun.prepend {s front run rest : Text} (h : s.HasRun front run rest) {item : Text}
    (hcut : CutsNoRun item s) : (item ++ s).HasRun (item ++ front) run rest := by
  refine ⟨by rw [h.split, List.append_assoc], h.nonempty, h.numeral, ?_, h.after⟩
  cases front with
  | cons d front =>
    rw [List.getLast?_append_of_ne_nil _ (List.cons_ne_nil d front)]
    exact h.before
  | nil =>
    rw [List.append_nil]
    intro c hc
    obtain ⟨d, run, rfl⟩ := List.exists_cons_of_ne_nil h.nonempty
    have hd : d ∈ s.head? := by rw [h.split]; rfl
    by_contra hnumeral
    have hcontinued := hcut c hc (by simpa using hnumeral) d hd
    rw [h.numeral d List.mem_cons_self] at hcontinued
    cases hcontinued

/-- A run lies in one of two texts that are joined, if they do not meet in one. -/
theorem HasRun.of_append {a b front run rest : Text} (h : (a ++ b).HasRun front run rest)
    (hcut : CutsNoRun a b) :
    (∃ rest', a.HasRun front run rest') ∨ ∃ front', front = a ++ front' ∧ b.HasRun front' run rest := by
  rcases List.append_eq_append_iff.mp h.split with ⟨middle, hfront, hb⟩ | ⟨middle, ha, hmiddle⟩
  · refine .inr ⟨middle, hfront, hb, h.nonempty, h.numeral, fun c hc => ?_, h.after⟩
    exact h.before c (hfront ▸ List.mem_getLast?_append_of_mem_getLast? hc)
  rcases List.append_eq_append_iff.mp hmiddle with ⟨tail, hinside, hrest⟩ | ⟨tail, hsplit, hb⟩
  · refine .inl ⟨tail, by rw [ha, hinside], h.nonempty, h.numeral, h.before, fun c hc => ?_⟩
    exact h.after c (hrest ▸ List.mem_head?_append_of_mem_head? hc)
  -- the run begins with `middle`, the last of `a`, and ends with `tail`, the first of `b`
  have hnumeral {c : Char} (hc : c ∈ middle ∨ c ∈ tail) : Token.isNumeral c = true :=
    h.numeral c (hsplit ▸ List.mem_append.mpr hc)
  rcases List.eq_nil_or_concat' middle with rfl | ⟨init, c, rfl⟩
  · have hb : b = [] ++ (run ++ rest) := by rw [hb, hsplit]; rfl
    exact .inr ⟨[], by simpa using ha.symm, hb, h.nonempty, h.numeral, nofun, h.after⟩
  cases tail with
  | nil =>
    have ha : a = front ++ (run ++ []) := by rw [ha, hsplit, List.append_nil, List.append_nil]
    exact .inl ⟨[], ha, h.nonempty, h.numeral, h.before, nofun⟩
  | cons d tail =>
    have hc : c ∈ a.getLast? := by rw [ha, ← List.append_assoc, List.getLast?_concat]; rfl
    have hd : d ∈ b.head? := by rw [hb]; rfl
    have hcontinued := hcut c hc (hnumeral (.inl (by simp))) d hd
    rw [hnumeral (.inr List.mem_cons_self)] at hcontinued
    cases hcontinued

theorem Offends.prepend {front s : Text} {e : EvalError} (h : s.Offends front e) {item : Text}
    (hcut : CutsNoRun item s) : (item ++ s).Offends (item ++ front) e := by
  cases h with
  | character hsplit hc => exact .character (by rw [hsplit, List.append_assoc]) hc
  | number hrun hnone => exact .number (hrun.prepend hcut) hnone

/-- An item that offends lies in one of two texts that are joined, if they do not meet in a run. -/
theorem Offends.of_append {a b front : Text} {e : EvalError} (h : (a ++ b).Offends front e)
    (hcut : CutsNoRun a b) :
    a.Offends front e ∨ ∃ front', front = a ++ front' ∧ b.Offends front' e := by
  cases h with
  | @character c rest hsplit hc =>
    rcases List.append_eq_append_iff.mp hsplit with ⟨middle, hfront, hb⟩ | ⟨middle, ha, hmiddle⟩
    · exact .inr ⟨middle, hfront, .character hb hc⟩
    · cases middle with
      | nil => exact .inr ⟨[], by simpa using ha.symm, .character hmiddle.symm hc⟩
      | cons d middle =>
        obtain ⟨rfl, -⟩ := List.cons.inj hmiddle
        exact .inl (.character ha hc)
  | number hrun hnone =>
    rcases hrun.of_append hcut with ⟨rest, hrun⟩ | ⟨front', hfront, hrun⟩
    · exact .inl (.number hrun hnone)
    · exact .inr ⟨front', hfront, .number hrun hnone⟩

/-- A text is read up to `front`: behind it there is nothing more, or an item that no expression has. -/
structure IsReadUpTo (s front : Text) (tokens : List Token) : Prop where
  isPrefix : front <+: s
  reads : front.ReadsAs tokens
  stops : front = s ∨ ∃ e, s.Offends front e

theorem IsReadUpTo.prepend {s front : Text} {tokens : List Token} (h : s.IsReadUpTo front tokens)
    (item : Text) (own : List Token) (hcut : CutsNoRun item s)
    (hitem : front <+: s → front.ReadsAs tokens → (item ++ front).ReadsAs (own ++ tokens)) :
    (item ++ s).IsReadUpTo (item ++ front) (own ++ tokens) where
  isPrefix := (List.prefix_append_right_inj item).mpr h.isPrefix
  reads := hitem h.isPrefix h.reads
  stops := h.stops.imp (congrArg (item ++ ·)) fun ⟨e, he⟩ => ⟨e, he.prepend hcut⟩

theorem cutsNoRun_singleton {c : Char} (hc : Token.isNumeral c = false) (s : Text) : CutsNoRun [c] s := by
  intro d hd hnumeral
  rw [List.mem_singleton.mp (List.mem_of_mem_getLast? hd), hc] at hnumeral
  cases hnumeral

/-- The reading of a text ends somewhere. The induction is on the length of the text, since a run takes many
characters. -/
theorem exists_isReadUpTo (s : Text) : ∃ front tokens, s.IsReadUpTo front tokens := by
  induction hn : s.length using Nat.strongRecOn generalizing s with
  | ind n ih =>
    cases s with
    | nil => exact ⟨[], [], List.prefix_rfl, .done, .inl rfl⟩
    | cons c s =>
      rw [List.length_cons] at hn
      obtain ⟨front, tokens, hfront⟩ := ih s.length (by omega) s rfl
      cases harithmetic : isArithmeticChar c with
      | false => exact ⟨[], [], List.nil_prefix, .done, .inr ⟨_, .character rfl harithmetic⟩⟩
      | true =>
        rcases cases_of_isArithmeticChar harithmetic with hblank | hnumeral | ⟨o, rfl⟩ | rfl | rfl
        · have hcut := cutsNoRun_singleton (isNumeral_of_isBlank hblank) s
          exact ⟨_, _, hfront.prepend [c] [] hcut fun _ h => .blank hblank h⟩
        · obtain ⟨run, rest, hsplit, hne, hrun, hend⟩ :
              ∃ run rest : Text, c :: s = run ++ rest ∧ run ≠ [] ∧ (∀ d ∈ run, Token.isNumeral d = true) ∧
                ∀ d ∈ rest.head?, Token.isNumeral d = false := exists_run hnumeral s
          have hlength : run.length + rest.length = n := by
            rw [← List.length_append, ← hsplit, List.length_cons, hn]
          have hpos := List.length_pos_iff.mpr hne
          rw [hsplit]
          by_cases hnumber : run.IsNumber
          · obtain ⟨front, tokens, hfront⟩ := ih rest.length (by omega) rest rfl
            refine ⟨_, _, hfront.prepend run [.number run.spelledNumber] (fun _ _ _ => hend) fun hprefix h => ?_⟩
            obtain ⟨tail, rfl⟩ := hprefix
            exact .number hrun hnumber (fun c hc => hend c (List.mem_head?_append_of_mem_head? hc)) h
          · exact ⟨[], [], List.nil_prefix, .done, .inr ⟨_, .number ⟨rfl, hne, hrun, by simp, hend⟩ hnumber⟩⟩
        · have hcut := cutsNoRun_singleton (isNumeral_symbol o) s
          exact ⟨_, _, hfront.prepend [o.symbol] [.op o] hcut fun _ h => .op o h⟩
        · exact ⟨_, _, hfront.prepend ['('] [.opening] (cutsNoRun_singleton rfl s) fun _ h => .opening h⟩
        · exact ⟨_, _, hfront.prepend [')'] [.closing] (cutsNoRun_singleton rfl s) fun _ h => .closing h⟩

/-! ### What is read has no item that offends -/

theorem not_offends_singleton {c : Char} (harithmetic : isArithmeticChar c = true)
    (hc : Token.isNumeral c = false) (front : Text) (e : EvalError) : ¬Offends [c] front e := by
  intro h
  cases h with
  | @character d rest hsplit hd =>
    have hmem : d ∈ [c] := by simp [hsplit]
    rw [List.mem_singleton.mp hmem, harithmetic] at hd
    cases hd
  | @number run rest hrun hnone =>
    obtain ⟨d, hd⟩ := List.exists_mem_of_ne_nil run hrun.nonempty
    have hmem : d ∈ [c] := by simp [hrun.split, hd]
    have hnumeral := hrun.numeral d hd
    rw [List.mem_singleton.mp hmem, hc] at hnumeral
    cases hnumeral

theorem isArithmeticChar_of_isNumeral {c : Char} (h : Token.isNumeral c = true) :
    isArithmeticChar c = true := by
  rw [isArithmeticChar, h, Bool.or_true, Bool.true_or]

theorem not_offends_run {run : Text} (hrun : ∀ c ∈ run, Token.isNumeral c = true) (hnumber : run.IsNumber)
    (front : Text) (e : EvalError) : ¬run.Offends front e := by
  intro h
  cases h with
  | @character c rest hsplit hc =>
    have hmem : c ∈ run := by simp [hsplit]
    rw [isArithmeticChar_of_isNumeral (hrun c hmem)] at hc
    cases hc
  | @number inner rest hinner hnone =>
    obtain ⟨hsplit, -, -, hbefore, hafter⟩ := hinner
    have hfront : front = [] := by
      rcases List.eq_nil_or_concat' front with hfront | ⟨init, c, rfl⟩
      · exact hfront
      · have hnumeral := hrun c (by simp [hsplit])
        rw [hbefore c (by simp)] at hnumeral
        cases hnumeral
    have hrest : rest = [] := by
      cases rest with
      | nil => rfl
      | cons c rest =>
        have hnumeral := hrun c (by simp [hsplit])
        rw [hafter c rfl] at hnumeral
        cases hnumeral
    rw [hfront, hrest, List.append_nil, List.nil_append] at hsplit
    exact hnone (hsplit ▸ hnumber)

theorem ReadsAs.not_offends {s : Text} {tokens : List Token} (h : s.ReadsAs tokens) (front : Text)
    (e : EvalError) : ¬s.Offends front e := by
  have hitem {item rest : Text} (hcut : CutsNoRun item rest) (hitem : ∀ front e, ¬item.Offends front e)
      (hrest : ∀ front, ¬rest.Offends front e) (front : Text) : ¬(item ++ rest).Offends front e := by
    intro h
    rcases h.of_append hcut with h | ⟨front', -, h⟩
    · exact hitem _ _ h
    · exact hrest _ h
  induction h generalizing front with
  | done =>
    intro h
    cases h with
    | character hsplit hc => simp at hsplit
    | number hrun hnone =>
      obtain ⟨-, hnil⟩ := List.append_eq_nil_iff.mp hrun.split.symm
      exact hrun.nonempty (List.append_eq_nil_iff.mp hnil).1
  | @blank c rest tokens hc _ ih =>
    have hplain := isNumeral_of_isBlank hc
    have harithmetic : isArithmeticChar c = true := by rw [isArithmeticChar, hc]; rfl
    exact hitem (cutsNoRun_singleton hplain rest) (not_offends_singleton harithmetic hplain) ih front
  | @op o rest tokens _ ih =>
    have hplain := isNumeral_symbol o
    have harithmetic : isArithmeticChar o.symbol = true := by cases o <;> decide
    exact hitem (cutsNoRun_singleton hplain rest) (not_offends_singleton harithmetic hplain) ih front
  | @opening rest tokens _ ih =>
    exact hitem (cutsNoRun_singleton rfl rest) (not_offends_singleton (by decide) rfl) ih front
  | @closing rest tokens _ ih =>
    exact hitem (cutsNoRun_singleton rfl rest) (not_offends_singleton (by decide) rfl) ih front
  | @number run rest tokens hrun hnumber hend _ ih =>
    exact hitem (fun _ _ _ => hend) (not_offends_run hrun hnumber) ih front

/-- What is in front of an item that offends does not end inside a run. -/
theorem Offends.exists_cut {s front : Text} {e : EvalError} (h : s.Offends front e) :
    ∃ rest, s = front ++ rest ∧ CutsNoRun front rest := by
  cases h with
  | @character c rest hsplit hc =>
    refine ⟨c :: rest, hsplit, fun _ _ _ => ?_⟩
    rintro _ ⟨⟩
    by_contra hnumeral
    rw [isArithmeticChar_of_isNumeral (by simpa using hnumeral)] at hc
    cases hc
  | @number run rest hrun hnone =>
    refine ⟨run ++ rest, hrun.split, fun c hc hnumeral => ?_⟩
    rw [hrun.before c hc] at hnumeral
    cases hnumeral

theorem ofText_of_not_isArithmeticChar {c : Char} (hc : isArithmeticChar c = false) (rest : Text) :
    Token.ofText (c :: rest) = .error (.unexpectedCharacter c) := by
  simp only [isArithmeticChar, Bool.or_eq_false_iff] at hc
  obtain ⟨⟨hblank, hnumeral⟩, hsymbol⟩ := hc
  have hnone : Token.ofChar? c = none := by
    unfold Token.ofChar?
    split <;> first | rfl | cases hsymbol
  rw [Token.ofText, hblank, hnone, hnumeral]
  rfl

/-- The reader stops at an item that offends, if it has read what is in front of it. -/
theorem Offends.ofText_eq {s front : Text} {tokens : List Token} {e : EvalError} (h : s.Offends front e)
    (hfront : front.ReadsAs tokens) : Token.ofText s = .error e := by
  obtain ⟨rest, rfl, hcut⟩ := h.exists_cut
  rw [hfront.ofText_append hcut]
  cases h with
  | @character c tail hsplit hc =>
    rw [List.append_cancel_left hsplit, ofText_of_not_isArithmeticChar hc]
    rfl
  | @number run tail hrun hnone =>
    rw [List.append_cancel_left hrun.split, Token.ofText_run hrun.nonempty hrun.numeral hrun.after,
      value?_of_not_isNumber hrun.numeral hnone]
    rfl

/-- Nothing offends before the item that the reader stops at. -/
theorem Offends.length_le {s front : Text} {tokens : List Token} {e : EvalError} (h : s.Offends front e)
    (hfront : front.ReadsAs tokens) {front' : Text} {e' : EvalError} (h' : s.Offends front' e') :
    front.length ≤ front'.length := by
  obtain ⟨rest, rfl, hcut⟩ := h.exists_cut
  rcases h'.of_append hcut with hinside | ⟨tail, rfl, -⟩
  · exact absurd hinside (hfront.not_offends _ _)
  · rw [List.length_append]
    exact Nat.le_add_right _ _

theorem ofText_eq_ok_iff (s : Text) (tokens : List Token) :
    Token.ofText s = .ok tokens ↔ s.ReadsAs tokens := by
  have hread {tokens : List Token} (h : s.ReadsAs tokens) : Token.ofText s = .ok tokens := by
    have hwhole := h.ofText_append (show CutsNoRun s [] from fun _ _ _ => nofun)
    rwa [List.append_nil, Token.ofText, emit_ok, List.append_nil] at hwhole
  refine ⟨fun h => ?_, hread⟩
  obtain ⟨front, tokens', -, hfront, rfl | ⟨e, he⟩⟩ := s.exists_isReadUpTo
  · rw [hread hfront] at h
    exact Except.ok.inj h ▸ hfront
  · rw [he.ofText_eq hfront] at h
    cases h

theorem exists_ofText_iff (s : Text) :
    (∃ tokens, Token.ofText s = .ok tokens) ↔ ∀ front e, ¬s.Offends front e := by
  constructor
  · rintro ⟨tokens, h⟩
    exact ((ofText_eq_ok_iff s tokens).mp h).not_offends
  · intro h
    obtain ⟨front, tokens, -, hfront, rfl | ⟨e, he⟩⟩ := s.exists_isReadUpTo
    · exact ⟨tokens, (ofText_eq_ok_iff front tokens).mpr hfront⟩
    · exact absurd he (h front e)

/-- The error is that of the leftmost item that offends. -/
theorem ofText_eq_error_iff (s : Text) (e : EvalError) :
    Token.ofText s = .error e ↔
      ∃ front, s.Offends front e ∧ ∀ front' e', s.Offends front' e' → front.length ≤ front'.length := by
  obtain ⟨read, tokens, hprefix, hread, rfl | ⟨e', he'⟩⟩ := s.exists_isReadUpTo
  · refine iff_of_false ?_ fun ⟨front, h, _⟩ => hread.not_offends front e h
    rw [(ofText_eq_ok_iff read tokens).mpr hread]
    nofun
  · constructor
    · intro h
      rw [he'.ofText_eq hread] at h
      obtain rfl := Except.error.inj h
      exact ⟨read, he', fun _ _ hother => he'.length_le hread hother⟩
    · rintro ⟨front, h, hleftmost⟩
      obtain ⟨rest, hsplit, -⟩ := h.exists_cut
      have hlength : read.length = front.length := le_antisymm (he'.length_le hread h) (hleftmost _ _ he')
      have hsame : read = front := by
        have hboth := List.prefix_of_prefix_length_le hprefix ⟨rest, hsplit.symm⟩ hlength.le
        exact hboth.eq_of_length hlength
      exact h.ofText_eq (hsame ▸ hread)

/-- A text is read exactly if it has no foreign character and all its runs of digits and points are numbers,
and its tokens are then those of its symbols and runs in order. Otherwise the error names the leftmost item
that offends. Texts that do not meet inside a run are read one after the other. -/
theorem ofText_reads (s : Text) :
    ((∃ tokens, Token.ofText s = .ok tokens) ↔
      (∀ c ∈ s, isBlank c = true ∨ c.isDigit = true ∨ c = '.' ∨ c ∈ "+-*/()".toList) ∧
        ∀ front run rest, s.HasRun front run rest → (∃ c ∈ run, c.isDigit = true) ∧ run.count '.' ≤ 1) ∧
    (∀ tokens, Token.ofText s = .ok tokens ↔ s.ReadsAs tokens) ∧
    (∀ e, Token.ofText s = .error e ↔
      ∃ front, s.Offends front e ∧ ∀ front' e', s.Offends front' e' → front.length ≤ front'.length) ∧
    ∀ t tokens tokens', s.CutsNoRun t → Token.ofText s = .ok tokens → Token.ofText t = .ok tokens' →
      Token.ofText (s ++ t) = .ok (tokens ++ tokens') := by
  refine ⟨?_, s.ofText_eq_ok_iff, s.ofText_eq_error_iff, fun t tokens tokens' hcut hs ht => ?_⟩
  · have harithmetic (c : Char) : isArithmeticChar c = true ↔
        isBlank c = true ∨ c.isDigit = true ∨ c = '.' ∨ c ∈ "+-*/()".toList := by
      simp only [isArithmeticChar, Token.isNumeral, Bool.or_eq_true, decide_eq_true_eq, or_assoc]
    simp only [← harithmetic]
    rw [exists_ofText_iff]
    constructor
    · intro h
      constructor
      · intro c hc
        obtain ⟨front, rest, hsplit⟩ := List.append_of_mem hc
        by_contra hforeign
        exact h front _ (.character hsplit (by simpa using hforeign))
      · intro front run rest hrun
        by_contra hnone
        exact h front _ (.number hrun fun hnumber => hnone ⟨hnumber.digit, hnumber.points⟩)
    · rintro ⟨hchars, hruns⟩ front e h
      cases h with
      | @character c rest hsplit hc =>
        rw [hchars c (by simp [hsplit])] at hc
        cases hc
      | @number run rest hrun hnone =>
        obtain ⟨hdigit, hpoints⟩ := hruns front run rest hrun
        exact hnone ⟨hdigit, hpoints⟩
  · rw [((ofText_eq_ok_iff s tokens).mp hs).ofText_append hcut, ht, emit_ok]

/-- A text cut behind a number, at a parenthesis: the parts are read separately. -/
theorem ofText_of_quotient_in_parts :
    let s : Text := "12.5 + (3".toList
    let t : Text := ")/.5".toList
    (s.CutsNoRun t ∧ Token.ofText s = .ok [.number (25 / 2), .op .add, .opening, .number 3] ∧
        Token.ofText t = .ok [.closing, .op .div, .number (1 / 2)]) ∧
      Token.ofText (s ++ t) =
        .ok [.number (25 / 2), .op .add, .opening, .number 3, .closing, .op .div, .number (1 / 2)] := by
  intro s t
  have hcut : s.CutsNoRun t := by
    intro _ _ _ d hd
    obtain rfl : ')' = d := Option.some.inj hd
    rfl
  have hs : Token.ofText s = .ok [.number (25 / 2), .op .add, .opening, .number 3] := by decide +kernel
  have ht : Token.ofText t = .ok [.closing, .op .div, .number (1 / 2)] := by decide +kernel
  exact ⟨⟨hcut, hs, ht⟩, (ofText_reads s).2.2.2 t _ _ hcut hs ht⟩

end Text
end KeypadCalc
