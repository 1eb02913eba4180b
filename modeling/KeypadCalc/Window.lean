import KeypadCalc.App

/-!
The window of the calculator, drawn frame by frame. In each frame the due tasks are carried out,
the keyboard is read, the widgets are drawn, and the clicks act. A click can only reach a button
that the frame before has drawn; of several clicked keys the last one in the order of the keypad is
pressed.
-/
namespace KeypadCalc

inductive Widget where
  | label (text : Text)
  | button (text : Text)
  /-- Shown while a calculation is pending. -/
  | spinner
deriving DecidableEq, Repr

/-- The button that empties the history. -/
def clearHistoryLabel : Text := "Effacer l’historique".toList

namespace App

/-- The expression, the display and the error; an empty expression keeps the height of a space. -/
def screen (a : App) : List Widget :=
  let draft := a.session.draft
  [.label (if draft.expression.isEmpty then [' '] else draft.expression)]
    ++ (if a.session.isCalculating then [.spinner] else [])
    ++ [.label (if draft.display.isEmpty then ['0'] else draft.display)]
    ++ (a.session.error.map Widget.label).toList

def keypad : List Widget :=
  Key.grid.flatten.map fun key => .button key.label

def historyPanel (a : App) : List Widget :=
  let entries := a.session.history.entries
  .button "Historique".toList
    :: if entries.isEmpty then [.label "Aucun calcul pour l’instant".toList]
      else entries.map (fun e => .label (e.expression ++ [' ', '=', ' '] ++ e.result))
        ++ [.button clearHistoryLabel]

/-- The widgets, from top to bottom. -/
def view (a : App) : List Widget :=
  [.label "Calculatrice".toList] ++ a.screen ++ keypad ++ a.historyPanel

end App

/-- What the user did since the frame before. -/
inductive Input where
  | typed (text : Text)
  | key (name : Text) (pressed : Bool)
  | click (button : Text)
deriving DecidableEq, Repr

/-- The keys of a keyboard that type no text and are read by their name. -/
def namedKeys : List Text :=
  ["Enter".toList, "Backspace".toList, "Escape".toList, "Delete".toList]

/-- The key that a keyboard event presses. -/
def Input.key? : Input → Option Key
  | .typed text => Key.ofName? text
  | .key name pressed => if pressed && name ∈ namedKeys then Key.ofName? name else none
  | .click _ => none

structure Frame where
  time : Time
  inputs : List Input
deriving DecidableEq, Repr

structure Window where
  app : App
  /-- The widgets that the last frame has drawn. -/
  drawn : List Widget := []
deriving DecidableEq, Repr

namespace Window

/-- The application as a frame draws it: what is due is done and the keyboard is read. -/
def prepare (w : Window) (f : Frame) : App :=
  (f.inputs.filterMap Input.key?).foldl (fun a key => a.press key f.time) (w.app.advance f.time)

/-- Whether a frame has a click on a button that the frame before has drawn. -/
def isClicked (w : Window) (f : Frame) (button : Text) : Bool :=
  decide (.button button ∈ w.drawn) && decide (.click button ∈ f.inputs)

/-- The key of the keypad that the clicks of a frame press. -/
def clickedKey? (w : Window) (f : Frame) : Option Key :=
  (Key.grid.flatten.filter fun key => w.isClicked f key.label).getLast?

/-- The effect of the clicks. -/
def click (w : Window) (f : Frame) (a : App) : App :=
  let pressed :=
    match w.clickedKey? f with
    | some key => a.press key f.time
    | none => a
  if w.isClicked f clearHistoryLabel then pressed.clearHistory else pressed

def frame (w : Window) (f : Frame) : Window where
  app := w.click f (w.prepare f)
  drawn := (w.prepare f).view

end Window
end KeypadCalc
