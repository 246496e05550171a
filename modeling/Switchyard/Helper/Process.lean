import Switchyard.Fault

/-!
# Processes

A program is started with arguments. Either it cannot be started, or it writes to its two outputs
and ends after some time, with a code or by a signal.
-/

namespace Switchyard.Helper

/-- How a process ended. -/
inductive Ending where
  | exit (code : Nat)
  | signal
  deriving Repr, DecidableEq

/-- What a process left behind, and how long it took. -/
structure Outcome where
  output : List UInt8 := []
  errors : List UInt8 := []
  ending : Ending := .exit 0
  millis : Nat := 0
  deriving Repr, DecidableEq

/-- Why a program cannot be started: for its file, or for a null character in what it is given. -/
inductive Obstacle where
  | file (cause : FileFault)
  | nulInWord
  deriving Repr, DecidableEq

/-- The wording of an obstacle. -/
def Obstacle.message : Obstacle → String
  | .file cause => cause.message
  | .nulInWord => "nul byte found in provided data"

/-- What comes of starting a program with arguments: why it cannot be started, or its outcome. -/
abbrev Programs := String → List String → Except Obstacle Outcome

namespace Outcome

/-- The outcome of a process that succeeded with an output. -/
def success (output : List UInt8) : Outcome := { output }

/-- The outcome of a process that failed with a message. -/
def failure (code : Nat) (errors : List UInt8) : Outcome := { errors, ending := .exit code }

/-- Whether a process succeeded. -/
def succeeded (o : Outcome) : Bool := o.ending == .exit 0

end Outcome

end Switchyard.Helper
