/-!
Times and timers. Times are counted from the beginning of the session and come from the caller;
nothing here reads a clock. A timer holds at most one deadline: scheduling replaces the one before,
and a deadline that is reached is reported once.
-/
namespace KeypadCalc

/-- Nanoseconds since the beginning of the session, or a duration in nanoseconds. -/
abbrev Time := Nat

namespace Time

def second : Time := 1000000000

def millisecond : Time := 1000000

/-- The last time there is: `2 ^ 64 - 1` seconds and all nanoseconds of a second but one. -/
def last : Time := 18446744073709551615 * second + 999999999

def ofMillis (n : Nat) : Time :=
  n * millisecond

/-- The time `delay` later than `now`, or the last time there is. -/
def after (now delay : Time) : Time :=
  min (now + delay) last

/-- The earlier one of two times that may be absent. -/
def earliest? : Option Time → Option Time → Option Time
  | some a, some b => some (min a b)
  | some a, none => some a
  | none, b => b

end Time

structure Timer where
  deadline : Option Time := none
deriving DecidableEq, Repr

namespace Timer

def idle : Timer := {}

def schedule (now delay : Time) : Timer :=
  ⟨some (Time.after now delay)⟩

def isScheduled (t : Timer) : Bool :=
  t.deadline.isSome

/-- Whether the deadline has been reached. -/
def isDue (t : Timer) (now : Time) : Bool :=
  t.deadline.any (· ≤ now)

/-- The timer after its deadline has been looked at: idle if it was due. -/
def poll (t : Timer) (now : Time) : Timer :=
  if t.isDue now then idle else t

end Timer
end KeypadCalc
