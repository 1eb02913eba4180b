import KeypadCalc.Proofs.ReadingErrors

/-!
# What the messages of an evaluation tell

An error cites what it is about. Inside quotes a character is written as itself, and then it is no backslash,
or as an escape, whose second letter tells which one it is; only a number is as long as it has to be, and a
brace ends it. So one can tell a quoted character from what is written behind it, whatever that is: a quoted
text has one reading, and a message belongs to one error. What a text is not read for stands in the message
as it stands in the text.
-/
namespace KeypadCalc

namespace Text

theorem isEscaped_of_ascii {c : Char} (h : 32 ≤ c.toNat ∧ c.toNat < 127) : isEscaped c = false := by
  obtain ⟨bounds, hbounds⟩ : ∃ bounds, escapedBounds = 0 :: 32 :: 127 :: bounds := ⟨_, rfl⟩
  have hpassed : escapedBounds.takeWhile (· ≤ c.toNat) = [0, 32] := by
    simp [hbounds, h.1, Nat.not_le.mpr h.2]
  rw [isEscaped, hpassed]
  rfl

/-- The last digit of a number, and the digits before it. -/
theorem toDigits_sixteen (n : Nat) :
    Nat.toDigits 16 n =
      (if n < 16 then [] else Nat.toDigits 16 (n / 16)) ++ [(n % 16).digitChar] := by
  rw [Nat.toDigits_eq_if (by decide)]
  split
  · rename_i hlast
    rw [Nat.mod_eq_of_lt hlast]
    rfl
  · rfl

theorem exists_of_mem_toDigits {n : Nat} {c : Char} (h : c ∈ Nat.toDigits 16 n) :
    ∃ d < 16, c = d.digitChar := by
  induction n using Nat.strongRecOn with
  | _ n ih =>
    rw [toDigits_sixteen, List.mem_append, List.mem_singleton] at h
    rcases h with hfront | hlast
    · split at hfront
      · cases hfront
      · rename_i hmore
        exact ih (n / 16) (by omega) hfront
    · exact ⟨n % 16, Nat.mod_lt n (by decide), hlast⟩

/-- Different numbers have different digits. -/
theorem toDigits_sixteen_injective {m n : Nat} (h : Nat.toDigits 16 m = Nat.toDigits 16 n) : m = n := by
  induction m using Nat.strongRecOn generalizing n with
  | _ m ih =>
    rw [toDigits_sixteen m, toDigits_sixteen n] at h
    obtain ⟨hfront, hdigit⟩ := List.append_inj' h rfl
    have hdigits : ∀ d < 16, ∀ d' < 16, Nat.digitChar d = Nat.digitChar d' → d = d' := by decide
    have hlast : m % 16 = n % 16 :=
      hdigits _ (Nat.mod_lt m (by decide)) _ (Nat.mod_lt n (by decide)) (List.singleton_inj.mp hdigit)
    split at hfront <;> split at hfront
    · omega
    · exact absurd hfront.symm Nat.toDigits_ne_nil
    · exact absurd hfront Nat.toDigits_ne_nil
    · have hquotient := ih (m / 16) (by omega) hfront
      omega

/-- The escapes of one letter. -/
def shortEscapes : List (Char × Char) :=
  [('\x00', '0'), ('\t', 't'), ('\r', 'r'), ('\n', 'n'), ('\\', '\\'), ('"', '"')]

/-- How a character is written inside quotes. -/
inductive Quotes (c : Char) : Text → Prop
  | itself (hplain : c ≠ '\\') (hseen : isEscaped c = false) : Quotes c [c]
  | letter {letter : Char} (hletter : (c, letter) ∈ shortEscapes) : Quotes c ['\\', letter]
  | number (hhidden : isEscaped c = true) : Quotes c ('\\' :: 'u' :: '\x7b' :: (Nat.toDigits 16 c.toNat ++ ['\x7d']))

theorem quotes_quoteChar (c : Char) : Quotes c (quoteChar c) := by
  unfold quoteChar
  split
  · exact .letter (by decide)
  · exact .letter (by decide)
  · exact .letter (by decide)
  · exact .letter (by decide)
  · exact .letter (by decide)
  · exact .letter (by decide)
  · rename_i hplain _
    split
    · rename_i hhidden
      exact .number hhidden
    · rename_i hseen
      exact .itself hplain (by simpa using hseen)

theorem Quotes.ne_nil {c : Char} {w : Text} (h : Quotes c w) : w ≠ [] := by
  cases h <;> exact List.cons_ne_nil _ _

/-- Whatever follows them, quoted characters can be told from each other and from what follows. -/
theorem Quotes.eq_of_append_eq {c d : Char} {w w' s t : Text} (hc : Quotes c w) (hd : Quotes d w')
    (h : w ++ s = w' ++ t) : c = d ∧ s = t := by
  have hletters : ∀ e ∈ shortEscapes, e.2 ≠ 'u' ∧ ∀ e' ∈ shortEscapes, e.2 = e'.2 → e.1 = e'.1 := by decide
  cases hc with
  | itself hplain =>
    cases hd with
    | itself => exact List.cons.inj h
    | letter => exact absurd (List.cons.inj h).1 hplain
    | number => exact absurd (List.cons.inj h).1 hplain
  | letter hletter =>
    cases hd with
    | itself hplain => exact absurd (List.cons.inj h).1.symm hplain
    | letter hletter' =>
      obtain ⟨hsame, hrest⟩ := List.cons.inj (List.cons.inj h).2
      exact ⟨(hletters _ hletter).2 _ hletter' hsame, hrest⟩
    | number => exact absurd (List.cons.inj (List.cons.inj h).2).1 (hletters _ hletter).1
  | number =>
    cases hd with
    | itself hplain => exact absurd (List.cons.inj h).1.symm hplain
    | letter hletter => exact absurd (List.cons.inj (List.cons.inj h).2).1.symm (hletters _ hletter).1
    | number =>
      have hdigits : Nat.toDigits 16 c.toNat ++ '\x7d' :: s = Nat.toDigits 16 d.toNat ++ '\x7d' :: t := by
        simpa using h
      have hbrace (n : Nat) : ∀ e ∈ Nat.toDigits 16 n, decide (e ≠ '\x7d') = true := by
        intro e he
        obtain ⟨digit, -, rfl⟩ := exists_of_mem_toDigits he
        exact decide_eq_true (Nat.digitChar_ne _ (by decide))
      have hend (rest : Text) : ∀ e ∈ ('\x7d' :: rest).head?, decide (e ≠ '\x7d') = false := by
        intro e he
        obtain rfl : '\x7d' = e := Option.some.inj he
        rfl
      have hnumber : Nat.toDigits 16 c.toNat = Nat.toDigits 16 d.toNat := by
        rw [← takeWhile_run (hbrace c.toNat) (hend s), hdigits, takeWhile_run (hbrace d.toNat) (hend t)]
      rw [hnumber] at hdigits
      exact ⟨Char.toNat_inj.mp (toDigits_sixteen_injective hnumber),
        (List.cons.inj (List.append_cancel_left hdigits)).2⟩

theorem Quotes.isEscaped_of_mem {c d : Char} {w : Text} (hw : Quotes c w) (hd : d ∈ w) :
    isEscaped d = false := by
  have hletters : ∀ e ∈ shortEscapes, 32 ≤ e.2.toNat ∧ e.2.toNat < 127 := by decide
  have hdigits : ∀ digit < 16, 32 ≤ (Nat.digitChar digit).toNat ∧ (Nat.digitChar digit).toNat < 127 := by
    decide
  cases hw with
  | itself _ hseen => exact List.mem_singleton.mp hd ▸ hseen
  | letter hletter =>
    rcases List.mem_pair.mp hd with rfl | rfl
    · exact isEscaped_of_ascii (by decide)
    · exact isEscaped_of_ascii (hletters _ hletter)
  | number =>
    simp only [List.mem_cons, List.mem_append, List.not_mem_nil, or_false] at hd
    rcases hd with rfl | rfl | rfl | hdigit | rfl
    · exact isEscaped_of_ascii (by decide)
    · exact isEscaped_of_ascii (by decide)
    · exact isEscaped_of_ascii (by decide)
    · obtain ⟨digit, hlt, rfl⟩ := exists_of_mem_toDigits hdigit
      exact isEscaped_of_ascii (hdigits digit hlt)
    · exact isEscaped_of_ascii (by decide)

/-- A quoted text is the quotation of one text only. -/
theorem quote_injective {s t : Text} (h : s.quote = t.quote) : s = t := by
  have hinside : s.flatMap quoteChar = t.flatMap quoteChar :=
    List.append_cancel_left (List.append_cancel_right h)
  clear h
  induction s generalizing t with
  | nil =>
    cases t with
    | nil => rfl
    | cons d t => exact absurd (List.append_eq_nil_iff.mp hinside.symm).1 (quotes_quoteChar d).ne_nil
  | cons c s ih =>
    cases t with
    | nil => exact absurd (List.append_eq_nil_iff.mp hinside).1 (quotes_quoteChar c).ne_nil
    | cons d t =>
      obtain ⟨rfl, hrest⟩ := (quotes_quoteChar c).eq_of_append_eq (quotes_quoteChar d) hinside
      rw [ih hrest]

/-- Every character of a quoted text can be seen, and none of them ends the line. -/
theorem isEscaped_of_mem_quote {s : Text} {c : Char} (h : c ∈ s.quote) : isEscaped c = false := by
  simp only [quote, List.mem_append, List.mem_flatMap, List.mem_singleton] at h
  rcases h with (rfl | ⟨d, -, hd⟩) | rfl
  · exact isEscaped_of_ascii (by decide)
  · exact (quotes_quoteChar d).isEscaped_of_mem hd
  · exact isEscaped_of_ascii (by decide)

theorem quoteChar_of_isNumeral {c : Char} (h : Token.isNumeral c = true) : quoteChar c = [c] := by
  have hletters : ∀ e ∈ shortEscapes, Token.isNumeral e.1 = false := by decide
  generalize hw : quoteChar c = w
  cases hw ▸ quotes_quoteChar c with
  | itself => rfl
  | letter hletter =>
    rw [hletters _ hletter] at h
    cases h
  | number hhidden =>
    have hascii : 32 ≤ c.toNat ∧ c.toNat < 127 := by
      rw [Token.isNumeral, Bool.or_eq_true, decide_eq_true_eq, Char.isDigit_iff_toNat] at h
      rcases h with ⟨hlow, hhigh⟩ | rfl
      · exact ⟨le_trans (by decide) hlow, lt_of_le_of_lt hhigh (by decide)⟩
      · decide
    rw [isEscaped_of_ascii hascii] at hhidden
    cases hhidden

/-- Digits and points are quoted as they are. -/
theorem quote_of_isNumeral {run : Text} (h : ∀ c ∈ run, Token.isNumeral c = true) :
    run.quote = ['"'] ++ run ++ ['"'] := by
  rw [quote, List.flatMap_congr fun c hc => quoteChar_of_isNumeral (h c hc), List.flatMap_singleton']

end Text

namespace EvalError

theorem message_unexpectedCharacter (c : Char) :
    message (.unexpectedCharacter c) = "caractère inattendu: '".toList ++ [c, '\''] := rfl

theorem message_invalidNumber (run : Text) :
    message (.invalidNumber run) = "nombre invalide: ".toList ++ run.quote := rfl

theorem eq_unexpectedCharacter {e : EvalError} {c : Char} (h : e.message = message (.unexpectedCharacter c)) :
    e = .unexpectedCharacter c := by
  have hfirst : e.message.head? = some 'c' := by
    rw [h]
    rfl
  cases e with
  | unexpectedCharacter d =>
    have hcited : [d, '\''] = [c, '\''] := by
      rw [message_unexpectedCharacter, message_unexpectedCharacter] at h
      exact List.append_cancel_left h
    rw [(List.cons.inj hcited).1]
  | invalidNumber run => cases show some 'n' = some 'c' from hfirst
  | _ => exact absurd hfirst (by decide)

theorem eq_invalidNumber {e : EvalError} {run : Text} (h : e.message = message (.invalidNumber run)) :
    e = .invalidNumber run := by
  have hfirst : e.message.head? = some 'n' := by
    rw [h]
    rfl
  cases e with
  | unexpectedCharacter d => cases show some 'c' = some 'n' from hfirst
  | invalidNumber run' =>
    have hcited : run'.quote = run.quote := by
      rw [message_invalidNumber, message_invalidNumber] at h
      exact List.append_cancel_left h
    rw [Text.quote_injective hcited]
  | _ => exact absurd hfirst (by decide)

/-- The message tells which error it is, and what it cites. -/
theorem message_injective {e e' : EvalError} (h : e.message = e'.message) : e = e' := by
  cases e with
  | unexpectedCharacter c => exact (eq_unexpectedCharacter h.symm).symm
  | invalidNumber run => exact (eq_invalidNumber h.symm).symm
  | _ =>
    cases e' with
    | unexpectedCharacter c => exact eq_unexpectedCharacter h
    | invalidNumber run => exact eq_invalidNumber h
    | _ =>
      first
      | rfl
      | exact absurd h (by decide)

end EvalError

/-- A text that is not read has an item that no expression has, and the message of the error cites it as it
stands there. -/
theorem Token.message_of_ofText {s : Text} {e : EvalError} (h : ofText s = .error e) :
    (∃ c ∈ s, isArithmeticChar c = false ∧ e.message = "caractère inattendu: '".toList ++ [c, '\'']) ∨
      ∃ front run rest, s.HasRun front run rest ∧ ¬run.IsNumber ∧
        e.message = "nombre invalide: ".toList ++ (['"'] ++ run ++ ['"']) := by
  obtain ⟨front, hoffends, -⟩ := (Text.ofText_eq_error_iff s e).mp h
  cases hoffends with
  | @character c rest hsplit hc => exact .inl ⟨c, by simp [hsplit], hc, EvalError.message_unexpectedCharacter c⟩
  | @number run rest hrun hnone =>
    refine .inr ⟨front, run, rest, hrun, hnone, ?_⟩
    rw [EvalError.message_invalidNumber, Text.quote_of_isNumeral hrun.numeral]

end KeypadCalc
