import Switchyard.Handler.Snapshot
import Switchyard.Roster

/-!
# The root

The root takes commands from operators and reports from clients. Commands about snapshots it runs
itself, as soon as they are given, and stores them with their outcome and its own name, so that no
client takes them. All other commands wait in its ledger for clients.

## Main definitions

* `Root.submit` — an operator gives a command.
* `Root.accept` — a table arrives that may hold both, what operators gave and what clients report.
* `Root.acceptDevices`, `Root.register` — what else clients send.
-/

namespace Switchyard

/-- The root: a node with an archive, the roster of its clients, and whether it handles the
commands about snapshots. -/
structure Root where
  node : Node Archive
  roster : Roster := .empty
  keepsSnapshots : Bool := true

namespace Root

/-- The commands of the root. -/
def ledger (r : Root) : Ledger := r.node.ledger

/-- The devices of the root. -/
def inventory (r : Root) : Inventory := r.node.inventory

/-- The root with another ledger. -/
def withLedger (ledger : Ledger) (r : Root) : Root := { r with node := { r.node with ledger } }

/-- The root with another inventory. -/
def withInventory (inventory : Inventory) (r : Root) : Root :=
  { r with node := { r.node with inventory } }

/-- The handlers of the root. -/
def dispatch (now : Time.Instant) (r : Root) : Dispatch Archive :=
  if r.keepsSnapshots then Dispatch.serving Handler.snapshotVerbs (Handler.snapshot now) .empty
  else .empty

/-- A command as the operator meant it: unless it is addressed to a client, a leading word `all`
asks for a copy for every client. -/
def asMeant (c : Command) : Command :=
  if c.client.isSome then c
  else
    let (text, all) := Command.fromOperator c.text
    { c with text, flags := { c.flags with all := c.flags.all || all } }

/-- A command of the root as it is stored before it runs. -/
def asOwn (now : Time.Instant) (c : Command) (r : Root) : Command :=
  { c.stamped now with
    node := r.ledger.owner, status := .new, flags := { c.flags with all := false } }

/-- Stores a command that the root runs itself, and runs it. -/
def runOwn (now : Time.Instant) (c : Command) (r : Root) : List Key × Root :=
  let c := r.asOwn now c
  match r.ledger.give now c [] with
  | ([], _) => ([], r)
  | (keys, ledger) =>
    let (answer, node) := (r.dispatch now).run c (r.withLedger ledger).node
    (keys, { r with node := node.complete answer })

/-- An operator gives a command. The keys written are listed. -/
def submit (now : Time.Instant) (c : Command) (r : Root) : List Key × Root :=
  let c := asMeant c
  if Command.isForRoot c.text then r.runOwn now c
  else
    let (keys, ledger) := r.ledger.give now c r.roster.names
    (keys, r.withLedger ledger)

/-- Operators give commands one after the other. The keys written are counted. -/
def submitAll (now : Time.Instant) : List Command → Root → Nat × Root
  | [], r => (0, r)
  | c :: cs, r =>
    let (keys, r) := r.submit now c
    let (count, r) := submitAll now cs r
    (keys.length + count, r)

/-- Merges what a client reports, and counts what is taken. -/
def acceptPush (now : Time.Instant) (cs : List Command) (r : Root) : Nat × Root :=
  let (count, ledger) := r.ledger.mergePushed now cs
  (count, r.withLedger ledger)

/-- Takes a table of commands: the new ones are given by operators, all others are reports. Counts
what is stored. -/
def accept (now : Time.Instant) (cs : List Command) (r : Root) : Nat × Root :=
  let (given, reported) := cs.partition (·.status == .new)
  let (submitted, r) := r.submitAll now given
  let (merged, r) := r.acceptPush now reported
  (submitted + merged, r)

/-- Merges reports of devices, and counts those accepted. -/
def acceptDevices (now : Time.Instant) (ds : List Device) (r : Root) : Nat × Root :=
  let (count, inventory) := r.inventory.insertAll now ds
  (count, r.withInventory inventory)

/-- Takes an announcement down, and says whether it is the first of its client. -/
def register (now : Time.Instant) (a : Announcement) (r : Root) : Bool × Root :=
  let (first, roster) := r.roster.register now a
  (first, { r with roster })

end Root

end Switchyard
