import KeypadCalc.Proofs.ErrorLifetime
import KeypadCalc.Proofs.ForeignCharacters

/-!
# What the history records

A calculation that is carried out with a result is committed, and each commit leaves one entry. The history
is the list of these entries since it was cleared last, newest first, up to its capacity. An entry keeps the
text that was evaluated with its blanks normalized, although it was evaluated without them. Blanks do not
matter to the value of a text that has one, so the entry of a short text is a true equation.
-/
namespace KeypadCalc

namespace Text

theorem flatten_consToWord (c : Char) (ws : List Text) :
    (consToWord c ws).flatten = c :: ws.flatten := by
  cases ws <;> rfl

/-- The words of a text are its characters without the blanks. -/
theorem flatten_words (s : Text) : (words s).flatten = compact s := by
  fun_induction words s with
  | case1 => rfl
  | case2 c hblank => simp [compact, hblank]
  | case3 c hblank => simp [compact, hblank]
  | case4 c d rest hblank ih =>
    have hskip : compact (c :: d :: rest) = compact (d :: rest) :=
      List.filter_cons_of_neg (by simpa using hblank)
    rw [ih, hskip]
  | case5 c d rest hblank hnext ih =>
    have hkeep : compact (c :: d :: rest) = c :: compact (d :: rest) :=
      List.filter_cons_of_pos (by simpa using hblank)
    rw [List.flatten_cons, ih, hkeep]
    rfl
  | case6 c d rest hblank hnext ih =>
    have hkeep : compact (c :: d :: rest) = c :: compact (d :: rest) :=
      List.filter_cons_of_pos (by simpa using hblank)
    rw [flatten_consToWord, ih, hkeep]

theorem compact_compact (s : Text) : compact (compact s) = compact s :=
  compact_eq_self fun c hc => by simpa using (List.mem_filter.mp hc).2

theorem compact_intercalate (ws : List Text) : compact ([' '].intercalate ws) = compact ws.flatten := by
  induction ws with
  | nil => rfl
  | cons w ws ih =>
    cases ws with
    | nil => simp [List.intercalate]
    | cons w' ws =>
      have hsplit : [' '].intercalate (w :: w' :: ws) = w ++ ([' '] ++ [' '].intercalate (w' :: ws)) := by
        simp [List.intercalate]
      have hspace : compact [' '] = [] := by decide
      have hflat : (w :: w' :: ws).flatten = w ++ (w' :: ws).flatten := rfl
      rw [hsplit, hflat, compact_append, compact_append, compact_append, hspace, ih, List.nil_append]

theorem compact_normalizeBlanks (s : Text) : compact (normalizeBlanks s) = compact s := by
  rw [normalizeBlanks, compact_intercalate, flatten_words, compact_compact]

theorem IsSpelled.normalizeBlanks {s : Text} (hs : s.IsSpelled) : s.normalizeBlanks.IsSpelled := by
  intro c hc
  cases hblank : isBlank c with
  | true =>
    left
    rw [isExpressionChar, hblank, Bool.or_true]
  | false =>
    have hkept : c ∈ Text.compact s.normalizeBlanks := List.mem_filter.mpr ⟨hc, by simpa using hblank⟩
    rw [compact_normalizeBlanks] at hkept
    exact hs c (List.mem_of_mem_filter hkept)

/-- There is no angle bracket to take out of what keys and results write. -/
theorem IsSpelled.forStorage {s : Text} (hs : s.IsSpelled) (limit : Nat) :
    s.forStorage limit = s.take limit := by
  have hkept : (s.filter fun c => c ≠ '<' && c ≠ '>') = s := by
    refine List.filter_eq_self.mpr fun c hc => ?_
    have hc := hs c hc
    simp only [Bool.and_eq_true, decide_eq_true_eq]
    constructor <;> rintro rfl <;> revert hc <;> decide
  rw [Text.forStorage, hkept]

end Text

namespace Session

/-- A calculation that has been carried out with a result: the text that was evaluated, and what is shown
of its result. -/
structure Commit where
  evaluated : Text
  shown : Text
deriving DecidableEq, Repr

/-- The entry that a commit leaves in the history. -/
def Commit.entry (c : Commit) : History.Entry :=
  Draft.entry c.evaluated c.shown

/-- The calculation that the event commits, if it commits one. -/
def commit? (s : Session) (e : Event) : Option Commit :=
  match s.outcome? e with
  | some (.ok (some shown)) => some { evaluated := s.draft.toEvaluate, shown }
  | _ => none

/-- The commits of a run in order, as far as the history is not cleared after them. -/
def commits (s : Session) : List Event → List Commit
  | [] => []
  | e :: events =>
    (if .clearHistory ∈ events then [] else (s.commit? e).toList) ++ (s.step e).commits events

theorem inserted?_eq (s : Session) (e : Event) : s.inserted? e = (s.commit? e).map Commit.entry := by
  unfold inserted? commit?
  generalize s.outcome? e = outcome
  rcases outcome with _ | _ | _ | shown <;> rfl

/-- Only a due calculation is committed. -/
theorem exists_advance_of_commit? {s : Session} {e : Event} {c : Commit} (h : s.commit? e = some c) :
    c.evaluated = s.draft.toEvaluate ∧
      ∃ now, e = .advance now ∧ s.calculation.isDue now = true ∧
        s.draft.calculate = .ok (some c.shown) := by
  unfold commit? at h
  split at h
  · rename_i shown houtcome
    obtain rfl := Option.some.inj h
    cases e with
    | advance now =>
      rw [outcome?] at houtcome
      split at houtcome
      · rename_i hdue
        exact ⟨rfl, now, rfl, hdue, Option.some.inj houtcome⟩
      · cases houtcome
    | _ => cases houtcome
  · cases h

/-- What is committed is a text with a value. -/
theorem exists_of_commit? {s : Session} {e : Event} {c : Commit} (h : s.commit? e = some c) :
    c.evaluated = s.draft.toEvaluate ∧
      ∃ v, Expression.value c.evaluated.compact = .ok v ∧ c.shown = Draft.shown v := by
  obtain ⟨hevaluated, -, -, -, hcalculate⟩ := exists_advance_of_commit? h
  have houtcome := s.draft.outcome_calculate
  rw [hcalculate] at houtcome
  rw [hevaluated]
  generalize c.shown = shown at houtcome ⊢
  cases houtcome with
  | value hvalue => exact ⟨rfl, _, hvalue, rfl⟩

theorem exists_split_of_mem_commits {s : Session} {events : List Event} {c : Commit}
    (h : c ∈ s.commits events) :
    ∃ before e after, events = before ++ e :: after ∧ (s.run before).commit? e = some c := by
  induction events generalizing s with
  | nil => cases h
  | cons e events ih =>
    rw [commits, List.mem_append] at h
    rcases h with h | h
    · split at h
      · cases h
      · exact ⟨[], e, events, rfl, Option.mem_toList.mp h⟩
    · obtain ⟨before, e', after, rfl, hcommit⟩ := ih h
      exact ⟨e :: before, e', after, rfl, hcommit⟩

theorem entries_step {s : Session} (hfull : s.history.entries.length ≤ s.history.capacity) (e : Event) :
    (s.step e).history.capacity = s.history.capacity ∧
      (s.step e).history.entries =
        (((s.commit? e).map Commit.entry).toList ++
          if e = .clearHistory then [] else s.history.entries).take s.history.capacity := by
  have hkept : s.history.entries.take s.history.capacity = s.history.entries := List.take_of_length_le hfull
  rw [s.history_step e, inserted?_eq]
  cases hcommit : s.commit? e with
  | none =>
    by_cases hclear : e = .clearHistory
    · simp [hclear]
    · simp [hclear, hkept]
  | some c =>
    have hclear : e ≠ .clearHistory := by
      rintro rfl
      cases hcommit
    simp [hclear]

theorem take_append_take {α : Type} (l l' : List α) (n : Nat) :
    (l ++ l'.take n).take n = (l ++ l').take n := by
  rw [List.take_append, List.take_append, List.take_take, Nat.min_eq_left (Nat.sub_le n _)]

/-- What a run leaves in the history: its commits, newest first, and behind them what was there before, if
the history has not been cleared meanwhile. The induction is on the events, from the session that the first
of them meets. -/
theorem entries_run {s : Session} (hfull : s.history.entries.length ≤ s.history.capacity)
    (events : List Event) :
    (s.run events).history.entries =
      ((s.commits events).reverse.map Commit.entry ++
        if .clearHistory ∈ events then [] else s.history.entries).take s.history.capacity := by
  induction events generalizing s with
  | nil => exact (List.take_of_length_le hfull).symm
  | cons e events ih =>
    obtain ⟨hcapacity, hentries⟩ := entries_step hfull e
    have hfull' : (s.step e).history.entries.length ≤ (s.step e).history.capacity := by
      rw [hcapacity, hentries]
      exact List.length_take_le _ _
    show ((s.step e).run events).history.entries = _
    rw [ih hfull', hcapacity, commits]
    by_cases hlater : .clearHistory ∈ events
    · simp [hlater]
    · rw [if_neg hlater, hentries, take_append_take]
      cases hcommit : s.commit? e <;> simp [hlater, eq_comm]

end Session
end KeypadCalc
