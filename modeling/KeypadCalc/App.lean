import KeypadCalc.Session

/-!
The calculator on the screen: a session, and the button that is highlighted for a short time after
it was activated, by a click or from the keyboard.
-/
namespace KeypadCalc

/-- How long an activated button is highlighted. -/
def highlightDuration : Time := Time.ofMillis 150

structure App where
  session : Session
  activeKey : Option Key := none
  highlightEnd : Time := 0
deriving DecidableEq, Repr

namespace App

def new (parameters : Parameters) : App :=
  { session := Session.new parameters }

/-- Presses a key and highlights its button. Unlike the deadlines of the session, the end of the
highlight must not lie behind the last time there is: the program ends there, which is left out
here. -/
def press (a : App) (key : Key) (now : Time) : App where
  session := a.session.press key now
  activeKey := some key
  highlightEnd := Time.after now highlightDuration

/-- Ends a highlight that is over. -/
def fade (a : App) (now : Time) : App :=
  if a.highlightEnd ≤ now then { a with activeKey := none } else a

/-- Does what is due at the time `now`. -/
def advance (a : App) (now : Time) : App :=
  { a with session := a.session.advance now }.fade now

def clearHistory (a : App) : App :=
  { a with session := a.session.clearHistory }

/-- The next time at which something changes by itself. -/
def nextDeadline (a : App) : Option Time :=
  Time.earliest? a.session.nextDeadline (a.activeKey.map fun _ => a.highlightEnd)

/-- What can happen to the calculator on the screen. -/
inductive Event where
  | press (key : Key) (now : Time)
  | advance (now : Time)
  | clearHistory
deriving DecidableEq, Repr

def step (a : App) : Event → App
  | .press key now => a.press key now
  | .advance now => a.advance now
  | .clearHistory => a.clearHistory

/-- The calculator after some events. -/
def run (a : App) (events : List Event) : App :=
  events.foldl step a

end App
end KeypadCalc
