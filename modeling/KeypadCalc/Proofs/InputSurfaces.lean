import KeypadCalc.Proofs.FrameRate

/-!
# Typing a key and clicking its button

The keyboard is read before a frame is drawn and the clicks act while it is drawn, but nothing that a frame
does in between depends on either, so a key does the same from both. Where it comes from shows in the frame
itself only: a typed key is already on the screen that this frame draws. From the next frame on both runs
are the same, since of what was drawn only the buttons matter, and no key changes which of them there are.
Of several keys that are clicked in one frame only one is pressed, the last one of the keypad.
-/
namespace KeypadCalc

namespace Key

/-- What is on a button of the keypad is also the name of its key. -/
theorem ofName?_label : ∀ key ∈ grid.flatten, ofName? key.label = some key := by
  decide

theorem label_ne_clearHistoryLabel : ∀ key ∈ grid.flatten, key.label ≠ clearHistoryLabel := by
  decide

theorem mem_grid_of_ofDigit? {name : Text} {key : Key} (h : ofDigit? name = some key) :
    key ∈ grid.flatten := by
  unfold ofDigit? at h
  split at h
  · split at h
    · rename_i c hdigit
      obtain ⟨hvalue, -⟩ := digitChar_ofDigit hdigit
      have hdigits : ∀ value ≤ 9, Key.digit value ∈ grid.flatten := by decide
      exact Option.some.inj h ▸ hdigits _ (not_lt.mp hvalue)
    · cases h
  · cases h

/-- The keyboard has the keys of the keypad, and no others. -/
theorem mem_grid_iff {key : Key} : key ∈ grid.flatten ↔ ∃ name, ofName? name = some key := by
  constructor
  · exact fun hkey => ⟨key.label, ofName?_label key hkey⟩
  · rintro ⟨name, h⟩
    unfold ofName? at h
    split at h
    · rename_i named hlookup
      obtain ⟨front, back, hsplit, -⟩ := List.lookup_eq_some_iff.mp hlookup
      have hmem : (name, named) ∈ names := by
        rw [hsplit]
        exact List.mem_append_right _ List.mem_cons_self
      have hnames : ∀ entry ∈ names, entry.2 ∈ grid.flatten := by decide
      exact Option.some.inj h ▸ hnames _ hmem
    · exact mem_grid_of_ofDigit? h

/-- A button is drawn like the keys that are accepted while a calculation is pending exactly if its key is one
of them. -/
theorem isClearing_iff {key : Key} : key.isClearing = true ↔ key.group = .clearing := by
  cases key <;> simp [isClearing, group]

/-- The keys that take something back have a name of their own, and each of them another one. -/
theorem accessibleName_isSome_iff {key : Key} :
    key.accessibleName.isSome = true ↔ key.group = .clearing ∨ key.group = .backspace := by
  cases key <;> simp [accessibleName, group]

theorem eq_of_accessibleName {key other : Key} {name : Text} (hkey : key.accessibleName = some name)
    (hother : other.accessibleName = some name) : key = other := by
  have hsome (k : Key) (hk : k.accessibleName.isSome = true) :
      k ∈ [Key.clearEntry, .clearAll, .backspace] := by
    cases k <;> simp [accessibleName] at hk ⊢
  have hnames : ∀ k ∈ [Key.clearEntry, .clearAll, .backspace],
      ∀ k' ∈ [Key.clearEntry, .clearAll, .backspace],
        k.accessibleName = k'.accessibleName → k = k' := by decide
  exact hnames key (hsome key (by rw [hkey]; rfl)) other (hsome other (by rw [hother]; rfl))
    (hkey.trans hother.symm)

end Key

namespace App

theorem button_mem_view {a : App} {text : Text} :
    .button text ∈ a.view ↔ .button text ∈ keypad ∨ .button text ∈ a.historyPanel := by
  have hscreen : .button text ∉ a.screen := by
    simp only [screen, List.mem_append, List.mem_singleton, Option.mem_toList]
    split <;> simp
  simp [view, hscreen]

theorem history_press (a : App) (key : Key) (now : Time) :
    (a.press key now).session.history = a.session.history :=
  a.session.history_step (.press key now)

/-- The same buttons are drawn before a key is pressed and after it. -/
theorem button_mem_view_press {a : App} {key : Key} {now : Time} {text : Text} :
    .button text ∈ (a.press key now).view ↔ .button text ∈ a.view := by
  rw [button_mem_view, button_mem_view, historyPanel, historyPanel, history_press]

end App

namespace Window

/-- The window after some frames. -/
def frames (w : Window) (fs : List Frame) : Window :=
  fs.foldl frame w

/-- All keys of the keypad can be clicked. -/
def ShowsKeypad (w : Window) : Prop :=
  ∀ key ∈ Key.grid.flatten, .button key.label ∈ w.drawn

theorem showsKeypad_frame (w : Window) (f : Frame) : (w.frame f).ShowsKeypad := fun _ hkey =>
  App.button_mem_view.mpr (.inl (List.mem_map_of_mem hkey))

theorem showsKeypad_frames (w : Window) {fs : List Frame} (h : fs ≠ []) : (w.frames fs).ShowsKeypad := by
  rcases List.eq_nil_or_concat' fs with rfl | ⟨front, last, rfl⟩
  · exact absurd rfl h
  · rw [frames, List.foldl_concat]
    exact showsKeypad_frame _ last

theorem isClicked_label {w : Window} (hw : w.ShowsKeypad) {key : Key} (hkey : key ∈ Key.grid.flatten)
    (f : Frame) : w.isClicked f key.label = decide (.click key.label ∈ f.inputs) := by
  rw [isClicked, decide_eq_true (hw key hkey), Bool.true_and]

/-- The clicked key is the last one of the keypad that has been clicked. -/
theorem exists_clickedKey {w : Window} (hw : w.ShowsKeypad) {f : Frame}
    (h : ∃ key ∈ Key.grid.flatten, .click key.label ∈ f.inputs) :
    ∃ front key back, Key.grid.flatten = front ++ key :: back ∧ .click key.label ∈ f.inputs ∧
      (∀ other ∈ back, .click other.label ∉ f.inputs) ∧ w.clickedKey? f = some key := by
  have hclicked : w.clickedKey? f =
      Key.grid.flatten.reverse.find? fun key => decide (.click key.label ∈ f.inputs) := by
    rw [clickedKey?, List.filter_congr fun key hkey => isClicked_label hw hkey f, List.getLast?_filter]
  cases hlast : w.clickedKey? f with
  | none =>
    obtain ⟨key, hkey, hclick⟩ := h
    rw [hclicked, List.find?_eq_none] at hlast
    exact absurd (decide_eq_true hclick) (hlast key (List.mem_reverse.mpr hkey))
  | some key =>
    rw [hclicked, List.find?_eq_some_iff_append] at hlast
    obtain ⟨hclick, behind, before, hsplit, hbehind⟩ := hlast
    refine ⟨before.reverse, key, behind.reverse, ?_, of_decide_eq_true hclick, fun other hother => ?_, rfl⟩
    · rw [List.reverse_eq_iff] at hsplit
      simpa using hsplit
    · simpa using hbehind other (List.mem_reverse.mp hother)

/-- A frame sees of the window before only the calculator and which buttons there are. -/
theorem frame_congr {w w' : Window} (happ : w.app = w'.app)
    (hbuttons : ∀ text, .button text ∈ w.drawn ↔ .button text ∈ w'.drawn) (f : Frame) :
    w.frame f = w'.frame f := by
  have hprepare : w.prepare f = w'.prepare f := by rw [prepare, prepare, happ]
  have hclicked (text : Text) : w.isClicked f text = w'.isClicked f text := by
    rw [isClicked, isClicked, decide_eq_decide.mpr (hbuttons text)]
  have hkey : w.clickedKey? f = w'.clickedKey? f := by
    rw [clickedKey?, clickedKey?]
    congr 2
    funext key
    exact hclicked key.label
  rw [frame, frame, hprepare, click, click, hkey, hclicked]

theorem isClicked_of_not_mem (w : Window) {f : Frame} {button : Text} (h : .click button ∉ f.inputs) :
    w.isClicked f button = false := by
  rw [isClicked, decide_eq_false h, Bool.and_false]

/-- A typed key has been pressed when the frame is drawn. -/
theorem prepare_typed (w : Window) {key : Key} (hkey : key ∈ Key.grid.flatten) (t : Time) :
    w.prepare { time := t, inputs := [.typed key.label] } = (w.app.advance t).press key t := by
  rw [prepare, List.filterMap_cons, Input.key?, Key.ofName?_label key hkey]
  rfl

/-- A frame in which only the label of a key is typed. -/
theorem app_frame_typed (w : Window) {key : Key} (hkey : key ∈ Key.grid.flatten) (t : Time) :
    (w.frame { time := t, inputs := [.typed key.label] }).app =
      w.app.round { time := t, keys := [key] } := by
  have hunclicked (button : Text) : w.isClicked { time := t, inputs := [.typed key.label] } button = false :=
    isClicked_of_not_mem w (by simp)
  have hnone : w.clickedKey? { time := t, inputs := [.typed key.label] } = none := by
    rw [clickedKey?, List.filter_eq_nil_iff.mpr fun other _ => by rw [hunclicked]; exact Bool.false_ne_true]
    rfl
  rw [frame, prepare_typed w hkey, click, hnone, hunclicked]
  rfl

/-- A frame in which only a key is clicked. Two keys with the same label would be the same, as the label is
the name of its key. -/
theorem app_frame_click {w : Window} (hw : w.ShowsKeypad) {key : Key} (hkey : key ∈ Key.grid.flatten)
    (t : Time) :
    (w.frame { time := t, inputs := [.click key.label] }).app =
      w.app.round { time := t, keys := [key] } := by
  obtain ⟨front, other, back, hsplit, hclick, -, hclicked⟩ :=
    exists_clickedKey hw (f := { time := t, inputs := [.click key.label] })
      ⟨key, hkey, List.mem_singleton_self _⟩
  have hlabel : other.label = key.label := Input.click.inj (List.mem_singleton.mp hclick)
  have hother : other ∈ Key.grid.flatten := by simp [hsplit]
  obtain rfl : other = key := by
    have hname := Key.ofName?_label other hother
    rw [hlabel, Key.ofName?_label key hkey] at hname
    exact (Option.some.inj hname).symm
  have hunclicked : w.isClicked { time := t, inputs := [.click other.label] } clearHistoryLabel = false := by
    refine isClicked_of_not_mem w fun h => ?_
    exact Key.label_ne_clearHistoryLabel other hother (Input.click.inj (List.mem_singleton.mp h)).symm
  rw [app_frame, hclicked, hunclicked]
  rfl

/-- In every window that has drawn a frame, a key of the keypad that is clicked does what it does when its
label is typed: the calculator is the same after the frame, and all later frames are the same. Of the keys
clicked in one frame only the last one of the keypad is pressed, after the keys of the keyboard. -/
theorem click_eq_typed (a : App) (before : List Frame) (hbefore : before ≠ []) :
    let w := ({ app := a } : Window).frames before
    (∀ key ∈ Key.grid.flatten, ∀ t : Time,
      let clicked := w.frame { time := t, inputs := [.click key.label] }
      let typed := w.frame { time := t, inputs := [.typed key.label] }
      clicked.app = typed.app ∧ ∀ later, later ≠ [] → clicked.frames later = typed.frames later) ∧
    ∀ f : Frame, (∃ key ∈ Key.grid.flatten, .click key.label ∈ f.inputs) →
      ∃ front key back, Key.grid.flatten = front ++ key :: back ∧ .click key.label ∈ f.inputs ∧
        (∀ other ∈ back, .click other.label ∉ f.inputs) ∧
        (w.frame f).app = w.app.round
          { time := f.time
            keys := f.inputs.filterMap Input.key? ++ [key]
            clearsHistory := w.isClicked f clearHistoryLabel } := by
  intro w
  have hw : w.ShowsKeypad := showsKeypad_frames _ hbefore
  refine ⟨fun key hkey t => ?_, fun f hclick => ?_⟩
  · intro clicked typed
    have happ : clicked.app = typed.app := (app_frame_click hw hkey t).trans (app_frame_typed w hkey t).symm
    refine ⟨happ, fun later hlater => ?_⟩
    obtain ⟨f, rest, rfl⟩ := List.exists_cons_of_ne_nil hlater
    have hframe : clicked.frame f = typed.frame f := by
      refine frame_congr happ (fun text => ?_) f
      show _ ↔ .button text ∈ (w.prepare { time := t, inputs := [.typed key.label] }).view
      rw [prepare_typed w hkey, App.button_mem_view_press]
      rfl
    show (clicked.frame f).frames rest = (typed.frame f).frames rest
    rw [hframe]
  · obtain ⟨front, key, back, hsplit, hkey, hback, hclicked⟩ := exists_clickedKey hw hclick
    refine ⟨front, key, back, hsplit, hkey, hback, ?_⟩
    rw [app_frame, hclicked]
    rfl

/-- While `7 =` is being calculated, a click on `C` in the frame in which the calculation is due; and a click
on both `1` and `5` behind a typed `2`, which presses the `1`. -/
theorem click_while_calculating :
    let a := (App.new {}).run [.press (.digit 7) 0, .press .equals 0]
    let before : List Frame := [{ time := 0, inputs := [] }]
    let w := ({ app := a } : Window).frames before
    let both : Frame :=
      { time := Time.ofMillis 50, inputs := [.typed ['2'], .click ['1'], .click ['5']] }
    a.session.isCalculating = true ∧ before ≠ [] ∧ .clearAll ∈ Key.grid.flatten ∧
      (∀ later, later ≠ [] →
        (w.frame { time := Time.ofMillis 50, inputs := [.click ['C']] }).frames later =
          (w.frame { time := Time.ofMillis 50, inputs := [.typed ['C']] }).frames later) ∧
      (∃ key ∈ Key.grid.flatten, .click key.label ∈ both.inputs) ∧
      (w.frame both).app =
        w.app.round { time := Time.ofMillis 50, keys := [.digit 2, .digit 1] } := by
  intro a before w both
  have hbefore : before ≠ [] := List.cons_ne_nil _ _
  have hclear : Key.clearAll ∈ Key.grid.flatten := by decide
  have hclicked : ∃ key ∈ Key.grid.flatten, .click key.label ∈ both.inputs :=
    ⟨.digit 5, by decide, by decide⟩
  obtain ⟨hkeys, hlast⟩ := click_eq_typed a before hbefore
  refine ⟨by decide, hbefore, hclear, (hkeys .clearAll hclear _).2, hclicked, ?_⟩
  obtain ⟨front, key, back, hsplit, hkey, hback, happ⟩ := hlast both hclicked
  have hmem : key ∈ Key.grid.flatten := by simp [hsplit]
  have hone_or_five : ∀ key ∈ Key.grid.flatten, .click key.label ∈ both.inputs →
      key = .digit 1 ∨ key = .digit 5 := by decide
  rcases hone_or_five key hmem hkey with rfl | rfl
  · exact happ
  · -- the row of the `1` is below that of the `5`
    have hbelow : ∀ n < Key.grid.flatten.length, Key.grid.flatten[n]? = some (.digit 5) →
        .digit 1 ∈ Key.grid.flatten.drop (n + 1) := by decide
    have hone : .digit 1 ∈ back := by
      have h := hbelow front.length (by simp [hsplit]) (by simp [hsplit])
      simpa [hsplit] using h
    exact absurd (by decide) (hback _ hone)

end Window
end KeypadCalc
