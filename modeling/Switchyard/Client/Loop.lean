import Switchyard.Client
import Switchyard.Liveness

/-!
# Loops of a client

A client repeats its cycle and its liveness check for as long as it runs. The first turn comes at
once, and each further one after the interval as it stands at the end of the turn before. A turn
that fails is passed over, but a cycle that does not come to its end is the last.
-/

namespace Switchyard

/-- Repeats a turn, which says whether there are to be others. The first comes at `elapsed`
milliseconds, each other one after the pause that the state then asks for, and none at `limit` or
later. -/
def repeatUntil {σ : Type} (turn : Nat → σ → Bool × σ) (pause : σ → Interval)
    (limit elapsed : Nat) (s : σ) : σ :=
  if _ : elapsed < limit then
    match turn elapsed s with
    | (false, last) => last
    | (true, next) => repeatUntil turn pause limit (elapsed + 1000 * (pause next).seconds) next
  else s
termination_by limit - elapsed
decreasing_by
  have : 1 ≤ (pause next).seconds := (pause next).one_le
  change limit - (elapsed + 1000 * (pause next).seconds) < limit - elapsed
  omega

namespace Client

variable {ω ρ : Type}

/-- Runs the command loop for a number of milliseconds. The clock says what time it is after how
many of them. -/
def commandLoop (link : Time.Instant → Link ρ) (d : Time.Instant → Dispatch (Bench ω))
    (clock : Nat → Time.Instant) (limit : Nat) (n : Client ω) (far : ρ) : Client ω × ρ :=
  repeatUntil
    (fun t (n, far) ↦
      let (answer, next) := cycle (link (clock t)) (d (clock t)) n far
      (answer.isSome, next))
    (fun s ↦ s.1.site.intervals.command) limit 0 (n, far)

/-- Checks which devices answer. -/
def checkLiveness (stamp : Time.Instant) (survey : Survey) (n : Client ω) :
    Except Fault LivenessReport × Client ω :=
  let (report, inventory) := n.inventory.checkLiveness stamp survey
  (report, { n with inventory })

/-- Runs the liveness loop for a number of milliseconds. -/
def livenessLoop (survey : Survey) (clock : Nat → Time.Instant) (limit : Nat) (n : Client ω) :
    Client ω :=
  repeatUntil (fun t n ↦ (true, (n.checkLiveness (clock t) survey).2))
    (fun n ↦ n.site.intervals.liveness) limit 0 n

end Client

end Switchyard
