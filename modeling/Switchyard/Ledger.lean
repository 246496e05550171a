import Switchyard.Command.Basic
import Switchyard.Fault
import Switchyard.Table

/-!
# The ledger of a node

A ledger holds the commands that a node knows, each under its key, and the name of the node. What
an operator gives replaces what is there, unless the command itself asks for protection. What comes
from another node is merged: a command that is done stays exactly as it is, and a command that is
already there keeps the flags it was first given with.

## Main definitions

* `Ledger.give` — an operator gives a command.
* `Ledger.mergePulled`, `Ledger.mergePushed` — merging what a client took from the root, and what
  the root got back.
* `Ledger.complete` — keeping the outcome of an attempt.
* `Ledger.pullFor` — what a client may take.
-/

namespace Switchyard

/-- The commands of a node, and the name of the node. -/
structure Ledger where
  owner : String
  commands : Table Key Command := .empty
  deriving Repr, DecidableEq, Inhabited

namespace Ledger

/-- The command under a key. -/
def get? (k : Key) (l : Ledger) : Option Command := l.commands.get? k

/-- The number of commands. -/
def size (l : Ledger) : Nat := l.commands.size

/-- Stores a command under its key. -/
def store (c : Command) (l : Ledger) : Ledger :=
  { l with commands := l.commands.insert c.key c }

/-- Takes the command out that is under a key. -/
def delete (k : Key) (l : Ledger) : Except Fault (Command × Ledger) :=
  match l.get? k with
  | some c => .ok (c, { l with commands := l.commands.erase k })
  | none => .error (.notFound .command k.wire)

/-! ### What operators give -/

/-- A command as it is when an operator has just given it. -/
def renewed (now : Time.Instant) (c : Command) : Command :=
  { c.stamped now with status := .new, retries := 0 }

/-- The copies to be stored of a command: one for every client if it is meant for all of them. -/
def copies (c : Command) (clients : List String) : List Command :=
  if c.flags.all then clients.map fun client ↦ { c with client := some client } else [c]

/-- Stores a copy unless it asks not to replace what is there, and says whether it was stored. -/
def giveCopy (c : Command) (l : Ledger) : Bool × Ledger :=
  if c.flags.noOverwrite && l.commands.contains c.key then (false, l) else (true, l.store c)

/-- Stores copies one after the other and lists the keys written. -/
def giveCopies : List Command → Ledger → List Key × Ledger
  | [], l => ([], l)
  | c :: cs, l =>
    let (stored, l) := l.giveCopy c
    let (keys, l) := giveCopies cs l
    (if stored then c.key :: keys else keys, l)

/-- An operator gives a command. The keys written are listed. -/
def give (now : Time.Instant) (c : Command) (clients : List String) (l : Ledger) :
    List Key × Ledger :=
  l.giveCopies (copies (renewed now c) clients)

/-! ### What is still to be run -/

/-- The commands that are still to be run, in the order of their keys. -/
def runnable (l : Ledger) : List (Key × Command) :=
  l.commands.entries.filter (·.2.status.isRunnable)

/-- The keys of the commands that are still to be run. -/
def runnableKeys (l : Ledger) : List Key := l.runnable.map (·.1)

/-- What a client may take: commands still to be run that are not meant for another client and
that this node did not run itself. -/
def pullFor (client : String) (l : Ledger) : List Command :=
  (l.runnable.filter fun (k, c) ↦ k.isFor client && c.node != l.owner).map (·.2)

/-! ### What other nodes report -/

/-- Whether a stored command gives way to one that is pulled. -/
def yieldsToPulled (stored : Command) : Bool :=
  !stored.flags.noOverwrite && !stored.status.isTerminal

/-- What is kept of a pulled command beside the stored one. -/
def mergedPulled (stored pulled : Command) : Command :=
  { pulled with retries := max pulled.retries stored.retries, flags := stored.flags }

/-- Merges a pulled command in and says whether it was taken. -/
def takePulled (c : Command) (l : Ledger) : Bool × Ledger :=
  match l.get? c.key with
  | none => (true, l.store { c with node := l.owner })
  | some stored =>
    if yieldsToPulled stored then
      (true, l.store { mergedPulled stored c with node := l.owner })
    else (false, l)

/-- Merges a pushed command in and says whether it was taken. -/
def takePushed (now : Time.Instant) (c : Command) (l : Ledger) : Bool × Ledger :=
  match l.get? c.key with
  | none => (true, l.store (c.stamped now))
  | some stored =>
    if stored.status.isTerminal then (false, l)
    else (true, l.store { c.stamped now with flags := stored.flags })

/-- Merges commands one after the other and counts those taken. -/
def takeAll (take : Command → Ledger → Bool × Ledger) : List Command → Ledger → Nat × Ledger
  | [], l => (0, l)
  | c :: cs, l =>
    let (taken, l) := take c l
    let (count, l) := takeAll take cs l
    (taken.toNat + count, l)

/-- A client merges what it pulled, taking each command for its own. What it has done or protects
stays. -/
def mergePulled (cs : List Command) (l : Ledger) : Nat × Ledger := l.takeAll takePulled cs

/-- The root merges what a client pushed. What is done stays; a missing timestamp is added. -/
def mergePushed (now : Time.Instant) (cs : List Command) (l : Ledger) : Nat × Ledger :=
  l.takeAll (takePushed now) cs

/-! ### Outcomes -/

/-- Keeps the outcome of an attempt, unless its command is gone or done in the meantime. -/
def complete (c : Command) (l : Ledger) : Bool × Ledger :=
  match l.get? c.key with
  | none => (false, l)
  | some current => if current.status.isTerminal then (false, l) else (true, l.store c)

end Ledger

end Switchyard
