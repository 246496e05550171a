import Switchyard.Fault

/-!
# Intervals

The two periods of a client, in whole seconds: how often it looks for commands and how often it
checks which devices answer. Each lies between one second and one hour. Configured values outside
are moved to the nearer end; a change at run time to a value outside is refused.
-/

namespace Switchyard

/-- A period in seconds, between one second and one hour. -/
structure Interval where
  seconds : Nat
  one_le : 1 ≤ seconds
  le_hour : seconds ≤ 3600
  deriving Repr, DecidableEq

namespace Interval

/-- The period nearest to a number of seconds. -/
def clamp (n : Nat) : Interval :=
  ⟨max 1 (min n 3600), by omega, by omega⟩

/-- The period of the given number of seconds, if there is one. -/
def ofSeconds (n : Nat) : Except Fault Interval :=
  if h : 1 ≤ n ∧ n ≤ 3600 then .ok ⟨n, h.1, h.2⟩
  else .error (.rejected "interval range 1-3600 seconds")

end Interval

/-- The two periods of a client. -/
structure Intervals where
  command : Interval
  liveness : Interval
  deriving Repr, DecidableEq

namespace Intervals

/-- Intervals from configured numbers of seconds. -/
def ofSeconds (command liveness : Nat) : Intervals := ⟨.clamp command, .clamp liveness⟩

/-- Commands every five seconds, liveness every minute. -/
def default : Intervals := ofSeconds 5 60

instance : Inhabited Intervals := ⟨default⟩

/-- Changes the command interval. -/
def setCommand (n : Nat) (s : Intervals) : Except Fault Intervals :=
  (Interval.ofSeconds n).map fun i ↦ { s with command := i }

/-- Changes the liveness interval. -/
def setLiveness (n : Nat) (s : Intervals) : Except Fault Intervals :=
  (Interval.ofSeconds n).map fun i ↦ { s with liveness := i }

end Intervals

end Switchyard
