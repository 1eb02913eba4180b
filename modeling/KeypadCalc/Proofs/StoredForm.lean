import KeypadCalc.Proofs.RecordedHistory

/-!
# The stored form of an entry

An entry keeps the text that was evaluated with single spaces for its blanks, and the text that was then
displayed, each cut at a length of its own. Normalized blanks are single spaces inside the text. A text
that has nothing else is only trimmed by another normalization, so what the cut leaves has nothing to be
normalized, unless it falls right behind a space. Both lemmas on `normalizeBlanks` are inductions on the
text: `normalizeBlanks_cons` says what one more character in front does.
-/
namespace KeypadCalc

namespace Text

theorem nil_not_mem_words (s : Text) : [] ∉ words s := by
  fun_induction words s with
  | case1 => exact List.not_mem_nil
  | case2 => exact List.not_mem_nil
  | case3 => simp
  | case4 c d rest hblank ih => exact ih
  | case5 c d rest hblank hnext ih => simpa using ih
  | case6 c d rest hblank hnext ih =>
    generalize words (d :: rest) = ws at ih ⊢
    cases ws <;> simp_all [consToWord]

theorem intercalate_consToWord (c : Char) (ws : List Text) :
    [' '].intercalate (consToWord c ws) = c :: [' '].intercalate ws := by
  rcases ws with _ | ⟨w, _ | ⟨w', ws⟩⟩
  · rfl
  · simp [consToWord]
  · simp [consToWord, List.intercalate]

theorem intercalate_letter (c : Char) {ws : List Text} (h : [] ∉ ws) :
    [' '].intercalate ([c] :: ws) =
      c :: ((if ([' '].intercalate ws).isEmpty then [] else [' ']) ++ [' '].intercalate ws) := by
  cases ws with
  | nil => rfl
  | cons w ws =>
    have hword : ([' '].intercalate (w :: ws)).isEmpty = false := by
      cases ws <;> simp_all [List.intercalate]
    rw [hword]
    simp [List.intercalate]

theorem normalizeBlanks_blank {c : Char} (h : isBlank c = true) (s : Text) :
    normalizeBlanks (c :: s) = normalizeBlanks s := by
  cases s with
  | nil => simp [normalizeBlanks, words, h]
  | cons d rest => rw [normalizeBlanks, words, if_pos h, normalizeBlanks]

/-- A character in front of a word begins it, and one in front of blanks is a word of its own. -/
theorem normalizeBlanks_cons {c : Char} (h : isBlank c = false) (s : Text) :
    normalizeBlanks (c :: s) =
      c :: ((if s.head?.any isBlank && !(normalizeBlanks s).isEmpty then [' '] else [])
        ++ normalizeBlanks s) := by
  have hc : ¬ isBlank c = true := by simp [h]
  cases s with
  | nil => simp [normalizeBlanks, words, h]
  | cons d rest =>
    cases hd : isBlank d with
    | true =>
      have hwords : words (c :: d :: rest) = [c] :: words (d :: rest) := by
        rw [words, if_neg hc, if_pos hd]
      rw [normalizeBlanks, hwords, intercalate_letter c (nil_not_mem_words _), ← normalizeBlanks]
      cases hnone : (normalizeBlanks (d :: rest)).isEmpty <;> simp [hd]
    | false =>
      have hwords : words (c :: d :: rest) = consToWord c (words (d :: rest)) := by
        rw [words, if_neg hc, if_neg (by simp [hd])]
      rw [normalizeBlanks, hwords, intercalate_consToWord, ← normalizeBlanks]
      simp [hd]

/-- The blanks are single spaces, with none in front. -/
structure IsSpaced (s : Text) : Prop where
  lead : ∀ c ∈ s.head?, isBlank c = false
  single : s.IsChain fun c d => isBlank c = true → isBlank d = false
  spaces : ∀ c ∈ s, isBlank c = true → c = ' '

theorem isSpaced_nil : IsSpaced [] := ⟨nofun, List.isChain_nil, nofun⟩

theorem IsSpaced.cons {s : Text} (h : s.IsSpaced) {c : Char} (hc : isBlank c = false) :
    IsSpaced (c :: s) where
  lead := by
    rintro _ ⟨⟩
    exact hc
  single := by
    refine List.isChain_cons.mpr ⟨fun d _ hblank => ?_, h.single⟩
    rw [hc] at hblank
    cases hblank
  spaces := by
    intro d hd hblank
    rcases List.mem_cons.mp hd with rfl | hd
    · rw [hc] at hblank
      cases hblank
    · exact h.spaces d hd hblank

theorem IsSpaced.cons_space {s : Text} (h : s.IsSpaced) {c : Char} (hc : isBlank c = false) :
    IsSpaced (c :: ' ' :: s) where
  lead := by
    rintro _ ⟨⟩
    exact hc
  single := by
    refine List.isChain_cons.mpr ⟨fun d _ hblank => ?_, ?_⟩
    · rw [hc] at hblank
      cases hblank
    · exact List.isChain_cons.mpr ⟨fun d hd _ => h.lead d hd, h.single⟩
  spaces := by
    intro d hd hblank
    rcases List.mem_cons.mp hd with rfl | hd
    · rw [hc] at hblank
      cases hblank
    · rcases List.mem_cons.mp hd with rfl | hd
      · rfl
      · exact h.spaces d hd hblank

theorem IsSpaced.of_isPrefix {s t : Text} (h : t.IsSpaced) (hfront : s <+: t) : s.IsSpaced := by
  obtain ⟨rest, rfl⟩ := hfront
  exact ⟨fun c hc => h.lead c (List.mem_head?_append_of_mem_head? hc), h.single.left_of_append,
    fun c hc => h.spaces c (List.mem_append_left rest hc)⟩

theorem isSpaced_normalizeBlanks (s : Text) : s.normalizeBlanks.IsSpaced := by
  induction s with
  | nil => exact isSpaced_nil
  | cons c s ih =>
    cases hc : isBlank c with
    | true => rwa [normalizeBlanks_blank hc]
    | false =>
      rw [normalizeBlanks_cons hc]
      split
      · exact ih.cons_space hc
      · exact ih.cons hc

theorem getLast?_normalizeBlanks (s : Text) : ∀ c ∈ s.normalizeBlanks.getLast?, isBlank c = false := by
  induction s with
  | nil => exact nofun
  | cons c s ih =>
    cases hc : isBlank c with
    | true => rwa [normalizeBlanks_blank hc]
    | false =>
      rw [normalizeBlanks_cons hc]
      by_cases hnone : normalizeBlanks s = []
      · simp [hnone, hc]
      · rw [← List.cons_append, List.getLast?_append_of_ne_nil _ hnone]
        exact ih

theorem trimEnd_cons (c : Char) (s : Text) :
    trimEnd (c :: s) = if isBlank c = true ∧ trimEnd s = [] then [] else c :: trimEnd s := by
  simp only [trimEnd, dropEndWhile, List.reverse_cons, List.dropWhile_append, List.reverse_eq_nil_iff,
    List.isEmpty_iff]
  cases hc : isBlank c <;> by_cases hnone : s.reverse.dropWhile isBlank = [] <;> simp [hc, hnone]

/-- If the blanks are single spaces, to normalize them is to trim the text. The induction needs texts with a
space in front as well, since the rest of a text may begin with one. -/
theorem normalizeBlanks_eq_trim {s : Text}
    (hsingle : s.IsChain fun c d => isBlank c = true → isBlank d = false)
    (hspaces : ∀ c ∈ s, isBlank c = true → c = ' ') : normalizeBlanks s = trim s := by
  induction s with
  | nil => rfl
  | cons c s ih =>
    have ih := ih hsingle.tail fun d hd => hspaces d (List.mem_cons_of_mem c hd)
    cases hc : isBlank c with
    | true =>
      rw [normalizeBlanks_blank hc, ih, trim, trim, List.dropWhile_cons_of_pos hc]
    | false =>
      have hfront : trim (c :: s) = c :: trimEnd s := by
        rw [trim, List.dropWhile_cons_of_neg (by simp [hc]), trimEnd_cons, hc]
        simp
      rw [normalizeBlanks_cons hc, hfront, ih]
      cases s with
      | nil => rfl
      | cons d rest =>
        cases hd : isBlank d with
        | true =>
          obtain rfl : d = ' ' := hspaces d (by simp) hd
          have hlead : rest.dropWhile isBlank = rest := by
            cases rest with
            | nil => rfl
            | cons a rest =>
              have ha : isBlank a = false := hsingle.tail.rel hd
              exact List.dropWhile_cons_of_neg (by simp [ha])
          have hrest : trim (' ' :: rest) = trimEnd rest := by
            rw [trim, List.dropWhile_cons_of_pos hd, hlead]
          rw [hrest, trimEnd_cons, hd]
          by_cases hnone : trimEnd rest = [] <;> simp [hnone, hd]
        | false =>
          have hlead : trim (d :: rest) = trimEnd (d :: rest) := by
            rw [trim, List.dropWhile_cons_of_neg (by simp [hd])]
          rw [hlead]
          simp [hd]

/-- A text in which blanks are normalized, its end apart, is only trimmed there. -/
theorem IsSpaced.normalizeBlanks_eq {s : Text} (h : s.IsSpaced) : normalizeBlanks s = trimEnd s := by
  rw [normalizeBlanks_eq_trim h.single h.spaces, trim]
  cases s with
  | nil => rfl
  | cons c s => rw [List.dropWhile_cons_of_neg (by simp [h.lead c rfl])]

theorem normalizeBlanks_eq_self_iff {s : Text} :
    normalizeBlanks s = s ↔ s.IsSpaced ∧ ∀ c ∈ s.getLast?, isBlank c = false := by
  constructor
  · intro h
    rw [← h]
    exact ⟨isSpaced_normalizeBlanks s, getLast?_normalizeBlanks s⟩
  · rintro ⟨hspaced, hlast⟩
    rw [hspaced.normalizeBlanks_eq]
    rcases List.eq_nil_or_concat' s with rfl | ⟨front, c, rfl⟩
    · rfl
    · exact trimEnd_concat front (hlast c List.getLast?_concat)

theorem mem_forStorage {limit : Nat} {s : Text} {c : Char} (h : c ∈ s.forStorage limit) :
    c ≠ '<' ∧ c ≠ '>' := by
  simpa using (List.mem_filter.mp (List.mem_of_mem_take h)).2

end Text

namespace Session

/-- What the display shows after a commit is what was committed. -/
theorem display_of_commit? {s : Session} {now : Time} {c : Commit}
    (h : s.commit? (.advance now) = some c) : (s.advance now).draft.display = c.shown := by
  obtain ⟨-, _, ⟨⟩, hdue, hcalculate⟩ := exists_advance_of_commit? h
  rw [advance, draft_expire, settle_of_shown hdue hcalculate]
  rfl

/-- There is no angle bracket to take out of what is committed, so an entry is made by cutting. -/
theorem entry_of_commit? {p : Parameters} {before : List Event} {e : Event} {c : Commit}
    (h : ((new p).run before).commit? e = some c) :
    c.entry.expression = c.evaluated.normalizeBlanks.take 30 ∧ c.entry.result = c.shown.take 20 := by
  obtain ⟨hevaluated, v, -, hshown⟩ := exists_of_commit? h
  obtain ⟨hdisplay, hexpression⟩ := isSpelled_run p before
  have hspelled : c.evaluated.IsSpelled := by
    rw [hevaluated]
    exact fun a ha => (Draft.mem_toEvaluate ha).elim (hdisplay a) (hexpression a)
  constructor
  · exact hspelled.normalizeBlanks.forStorage 30
  · rw [Commit.entry, hshown]
    exact (Draft.isShown_shown v).isSpelled.forStorage 20

/-- Every entry comes from a calculation of the run that was due and had a result. Its expression is the
evaluated text with its blanks normalized, cut after 30 characters, and its result is what was then
displayed, cut after 20. The expression has no angle bracket and no blanks but single spaces, none of them
in front; another normalization leaves it as it is, unless the cut has left a space at its end. -/
theorem entries_in_stored_form (p : Parameters) (events : List Event) {entry : History.Entry}
    (h : entry ∈ ((new p).run events).history.entries) :
    (∃ before now after, events = before ++ .advance now :: after ∧
      let s := (new p).run before
      let evaluated := s.draft.toEvaluate.normalizeBlanks
      let displayed := (s.advance now).draft.display
      s.calculation.isDue now = true ∧ s.draft.calculate = .ok (some displayed) ∧
      entry.expression = evaluated.take 30 ∧ (evaluated.length ≤ 30 → entry.expression = evaluated) ∧
      entry.result = displayed.take 20 ∧ (displayed.length ≤ 20 → entry.result = displayed)) ∧
    entry.expression.length ≤ 30 ∧ (∀ c ∈ entry.expression, c ≠ '<' ∧ c ≠ '>') ∧
    entry.expression.IsSpaced ∧
    (entry.expression.normalizeBlanks = entry.expression ↔
      ∀ c ∈ entry.expression.getLast?, isBlank c = false) := by
  have hentries := entries_run (s := new p) (Nat.zero_le _) events
  rw [hentries] at h
  have hcommits : entry ∈ ((new p).commits events).reverse.map Commit.entry := by
    simpa [new, History.empty] using List.mem_of_mem_take h
  obtain ⟨c, hc, rfl⟩ := List.mem_map.mp hcommits
  obtain ⟨before, e, after, rfl, hcommit⟩ := exists_split_of_mem_commits (List.mem_reverse.mp hc)
  obtain ⟨hevaluated, now, rfl, hdue, hcalculate⟩ := exists_advance_of_commit? hcommit
  have hdisplay := display_of_commit? hcommit
  obtain ⟨htext, hresult⟩ := entry_of_commit? hcommit
  have hspaced : c.entry.expression.IsSpaced := by
    rw [htext]
    exact (Text.isSpaced_normalizeBlanks _).of_isPrefix (List.take_prefix _ _)
  refine ⟨⟨before, now, after, rfl, hdue, ?_, ?_, ?_, ?_, ?_⟩, ?_, ?_, hspaced, ?_⟩
  · rw [hdisplay]
    exact hcalculate
  · rw [htext, hevaluated]
  · intro hfits
    rw [htext, hevaluated]
    exact List.take_of_length_le hfits
  · rw [hresult, hdisplay]
  · intro hfits
    rw [hresult, ← hdisplay]
    exact List.take_of_length_le hfits
  · rw [htext]
    exact List.length_take_le _ _
  · exact fun a ha => Text.mem_forStorage ha
  · rw [Text.normalizeBlanks_eq_self_iff]
    exact and_iff_right hspaced

/-- The display of `99999999999999 + 1 / 3` has 21 characters, and its entry has the first 20 of them. -/
theorem entry_of_third :
    let keys : List Key := List.replicate 14 (.digit 9) ++ [.op .add, .digit 1, .op .div, .digit 3, .equals]
    let events : List Event := keys.map (fun key => .press key 0) ++ [.advance (Time.ofMillis 50)]
    let entry : History.Entry := ⟨"99999999999999 + 1 / 3".toList, "99999999999999.32812".toList⟩
    entry ∈ ((new {}).run events).history.entries ∧
      ((new {}).run events).draft.display = "99999999999999.328125".toList ∧ entry.expression.IsSpaced ∧
      ∃ before now after, events = before ++ .advance now :: after ∧
        entry.result = (((new {}).run before).advance now).draft.display.take 20 := by
  intro keys events entry
  have hentry : entry ∈ ((new {}).run events).history.entries := by decide +kernel
  obtain ⟨⟨before, now, after, hsplit, -, -, -, -, hresult, -⟩, -, -, hspaced, -⟩ :=
    entries_in_stored_form {} events hentry
  exact ⟨hentry, by decide +kernel, hspaced, before, now, after, hsplit, hresult⟩

/-- An entry does not always have all that was displayed, as after `99999999999999 + 1 / 3`; and its
expression may end with a space, as after a sum of nine ones, which is cut behind the eighth of them. -/
theorem not_entries_as_displayed :
    (¬ ∀ (p : Parameters) (events : List Event) (now : Time),
      ((new p).run events).commit? (.advance now) ≠ none →
      ∀ entry ∈ (((new p).run events).advance now).history.entries.head?,
        entry.result = (((new p).run events).advance now).draft.display) ∧
    ¬ ∀ (p : Parameters) (events : List Event), ∀ entry ∈ ((new p).run events).history.entries,
      entry.expression.normalizeBlanks = entry.expression := by
  constructor
  · intro h
    let keys : List Key := List.replicate 14 (.digit 9) ++ [.op .add, .digit 1, .op .div, .digit 3, .equals]
    have hresult := h {} (keys.map fun key => .press key 0) (Time.ofMillis 50) (by decide +kernel)
      ⟨"99999999999999 + 1 / 3".toList, "99999999999999.32812".toList⟩ (by decide +kernel)
    revert hresult
    decide +kernel
  · intro h
    let keys : List Key := (List.replicate 8 [.digit 1, .op .add]).flatten ++ [.digit 1, .equals]
    have hexpression := h {} (keys.map (fun key => .press key 0) ++ [.advance (Time.ofMillis 50)])
      ⟨"1 + 1 + 1 + 1 + 1 + 1 + 1 + 1 ".toList, ['9']⟩ (by decide +kernel)
    revert hexpression
    decide +kernel

end Session
end KeypadCalc
