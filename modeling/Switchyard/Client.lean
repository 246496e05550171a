import Switchyard.Client.Link
import Switchyard.Handler.Admin
import Switchyard.Handler.DeviceAction
import Switchyard.Handler.Scan

/-!
# Clients

A client repeats a cycle: it pulls the commands that it may run, merges them into its ledger, runs
what is still to be run, and pushes its whole ledger back. Devices go one way, from the client to
the root: what appears on the feed of its inventory is sent in bursts, the newest report of each
device winning.

## Main definitions

* `Client.dispatch` — the handlers of a client.
* `Client.cycle` — pull, run, push.
* `Client.publish`, `Client.publishFeed` — sending devices.
-/

namespace Switchyard

/-- A client is a node with the surroundings of a client. -/
abbrev Client (ω : Type) := Node (Bench ω)

/-- What a cycle did: how many commands were pulled, taken, attempted and pushed. -/
structure CycleReport where
  pulled : Nat
  accepted : Nat
  executed : Nat
  pushed : Nat
  deriving Repr, DecidableEq

namespace Client

variable {ω ρ : Type}

/-- A client of the given name that just started. -/
def start (now : Time.Instant) (name : String) (intervals : Intervals) (network : ω) :
    Client ω where
  ledger := { owner := name }
  inventory := .listened
  site := { intervals, started := now, network }

/-- The handlers of a client. -/
def dispatch (now : Time.Instant) (p : Protocol ω) : Dispatch (Bench ω) :=
  .serving Handler.deviceVerbs (Handler.deviceAction p) <|
    .serving Handler.scanVerbs (Handler.scan now p) <|
      .serving Handler.adminVerbs Handler.admin .empty

/-- Merges pulled commands into the ledger and counts those taken. -/
def take (cs : List Command) (n : Client ω) : Nat × Client ω :=
  let (count, ledger) := n.ledger.mergePulled cs
  (count, { n with ledger })

/-- One cycle: pull, run, push. Nothing changes if the pull fails; if the push fails, what was run
stays in the ledger for the next push. A pass that does not come to its end ends the cycle, which
then has no answer, and nothing is pushed. -/
def cycle (link : Link ρ) (d : Dispatch (Bench ω)) (n : Client ω) (far : ρ) :
    Option (Except Fault CycleReport) × Client ω × ρ :=
  match link.pull n.ledger.owner far with
  | (.error fault, far) => (some (.error fault), n, far)
  | (.ok cs, far) =>
    let (accepted, n) := n.take cs
    match n.runPending d with
    | (none, n) => (none, n, far)
    | (some executed, n) =>
      let table := n.ledger.commands.values
      let (answer, far) := link.push table far
      (some (answer.map fun _ ↦ ⟨cs.length, accepted, executed, table.length⟩), n, far)

/-- What a client says of itself. -/
def announcement (now : Time.Instant) (addresses : List String) (n : Client ω) : Announcement where
  name := n.ledger.owner
  devices := n.inventory.size
  commands := n.ledger.size
  start := n.site.started.seconds
  now := now.seconds
  addresses := addresses

/-- Announces a client to the root. -/
def register (link : Link ρ) (now : Time.Instant) (addresses : List String) (n : Client ω)
    (far : ρ) : Except Fault Unit × ρ :=
  link.register (n.announcement now addresses) far

/-- Sends devices to the root; for none at all no call is made. -/
def publish (link : Link ρ) (ds : List Device) (far : ρ) : Except Fault Unit × ρ :=
  if ds.isEmpty then (.ok (), far) else link.pushDevices ds far

/-- A burst of changes as it is sent: the newest report of each device. -/
def burst (changes : List Device) : List Device := (DeviceTable.encode changes).values

/-- Sends what is on the feed as one burst and empties the feed, whether or not the call succeeds.
Answers with the number of devices sent. -/
def publishFeed (link : Link ρ) (n : Client ω) (far : ρ) : Except Fault Nat × Client ω × ρ :=
  let batch := burst (n.inventory.feed.getD [])
  let (answer, far) := publish link batch far
  let inventory := { n.inventory with feed := n.inventory.feed.map fun _ ↦ [] }
  (answer.map fun _ ↦ batch.length, { n with inventory }, far)

/-- Stops listening to the changes of the inventory. -/
def stopListening (n : Client ω) : Client ω :=
  { n with inventory := { n.inventory with feed := none } }

end Client

end Switchyard
