import KeypadCalc.Draft.Calculation
import KeypadCalc.Timer

/-!
A session of the calculator: a draft, a history, an error that is shown for a while, and two
timers. The key for equals only schedules a calculation; until that is done, only the clearing keys
are accepted. A calculation that fails leaves the draft alone. Everything that happens in a session
is one of four events, and a session is a fold over its events.
-/
namespace KeypadCalc

structure Parameters where
  /-- From the key for equals to the result. -/
  calculationDelay : Time := Time.ofMillis 50
  /-- How long an error is shown. -/
  errorDuration : Time := Time.ofMillis 3000
  historyCapacity : Nat := 20
deriving DecidableEq, Repr

structure Session where
  parameters : Parameters
  draft : Draft := {}
  history : History
  error : Option Text := none
  calculation : Timer := .idle
  errorExpiry : Timer := .idle
deriving DecidableEq, Repr

namespace Session

def new (parameters : Parameters) : Session :=
  { parameters, history := History.empty parameters.historyCapacity }

/-- Whether a calculation is pending. -/
def isCalculating (s : Session) : Bool :=
  s.calculation.isScheduled

/-- The next time at which the session changes by itself. -/
def nextDeadline (s : Session) : Option Time :=
  Time.earliest? s.calculation.deadline s.errorExpiry.deadline

def dismissError (s : Session) : Session :=
  { s with error := none, errorExpiry := .idle }

/-- Shows an error until its time is over. -/
def report (s : Session) (e : CalculationError) (now : Time) : Session :=
  { s with
    error := some (Text.forStorage Text.storageLimit e.message)
    errorExpiry := .schedule now s.parameters.errorDuration }

/-- Takes the new draft, if there is one. -/
def edit (s : Session) (draft : Option Draft) : Session :=
  { s with draft := draft.getD s.draft }

/-- Presses a key. Every key that is not ignored dismisses the error. -/
def press (s : Session) (key : Key) (now : Time) : Session :=
  if s.isCalculating && !key.isClearing then s
  else
    let s := s.dismissError
    match key with
    | .digit value => s.edit (s.draft.typeDigit value)
    | .point => s.edit s.draft.typePoint
    | .op o => s.edit (s.draft.typeOperator o)
    | .percent => s.edit s.draft.typePercent
    | .backspace => s.edit s.draft.backspace
    | .clearEntry => { s with calculation := .idle, draft := s.draft.clearEntry }
    | .clearAll => { s with calculation := .idle, draft := {} }
    | .equals => { s with calculation := .schedule now s.parameters.calculationDelay }

/-- Carries out the calculation of the draft. -/
def complete (s : Session) (now : Time) : Session :=
  match s.draft.calculate with
  | .ok none => s
  | .ok (some shown) =>
    { s with
      history := s.history.add (Draft.entry s.draft.toEvaluate shown)
      draft := Draft.afterResult shown }
  | .error e => s.report e now

/-- The calculation timer's part of `advance`. -/
def settle (s : Session) (now : Time) : Session :=
  if s.calculation.isDue now then { s with calculation := .idle }.complete now else s

/-- The error timer's part of `advance`. -/
def expire (s : Session) (now : Time) : Session :=
  if s.errorExpiry.isDue now then s.dismissError else s

/-- Does what is due at the time `now`. -/
def advance (s : Session) (now : Time) : Session :=
  (s.settle now).expire now

def clearHistory (s : Session) : Session :=
  { s with history := s.history.clear }

/-- Ends the session: nothing will happen by itself any more. -/
def close (s : Session) : Session :=
  { s with calculation := .idle, errorExpiry := .idle }

/-- What can happen in a session. -/
inductive Event where
  | press (key : Key) (now : Time)
  | advance (now : Time)
  | clearHistory
  | close
deriving DecidableEq, Repr

def step (s : Session) : Event → Session
  | .press key now => s.press key now
  | .advance now => s.advance now
  | .clearHistory => s.clearHistory
  | .close => s.close

/-- The session after some events. -/
def run (s : Session) (events : List Event) : Session :=
  events.foldl step s

end Session
end KeypadCalc
