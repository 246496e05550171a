import Switchyard.Inventory
import Switchyard.Ledger

/-!
# Nodes and what they do with commands

A node has a ledger, an inventory and further surroundings. A handler carries out a command: it
changes the node and says what became of the command. A dispatch chooses the handler by the first
word of the command text. Whatever a handler answers, the command keeps its key, and a command that
no handler serves is invalid.

An execution pass attempts every command that is still to be run, one after the other in the order
of keys. A command still pending after its last attempt is cancelled.

Retries are counted with 32 bits. An attempt that would count past the last number ends the pass
where it stands: nothing more is kept, and nothing more is attempted.

## Main definitions

* `Handler`, `Dispatch`, `Dispatch.run`.
* `Command.attempted`, `Command.settled` — how an attempt is counted, and the rule that cancels.
* `Node.beginning`, `Node.carryOut` — the two halves of an attempt.
* `Node.attempt`, `Node.runPending` — one attempt, and the execution pass.
-/

namespace Switchyard

/-- A node: its commands, its devices, and what else its handlers work with. -/
structure Node (ε : Type) where
  ledger : Ledger
  inventory : Inventory
  site : ε

/-- A handler carries a command out at a node and answers with what became of it. -/
abbrev Handler (ε : Type) := Command → Node ε → Command × Node ε

/-- The handler for a first word, if there is one. -/
abbrev Dispatch (ε : Type) := String → Option (Handler ε)

namespace Dispatch

variable {ε : Type}

/-- No handler at all. -/
def empty : Dispatch ε := fun _ ↦ none

/-- A handler for some first words, and otherwise another dispatch. -/
def serving (verbs : List String) (h : Handler ε) (d : Dispatch ε) : Dispatch ε :=
  fun verb ↦ if verb ∈ verbs then some h else d verb

/-- Whether there is a handler for a first word. -/
def handles (d : Dispatch ε) (verb : String) : Bool := (d verb).isSome

/-- Carries a command out. Its key is not the handler's to change. -/
def run (d : Dispatch ε) : Handler ε := fun c n ↦
  match d c.verb with
  | none => (c.invalid, n)
  | some h =>
    let (answer, n) := h c n
    ({ answer with text := c.text, client := c.client }, n)

end Dispatch

namespace Command

/-- One more than a counter, if the counter goes so far. -/
def next? (count : UInt32) : Option UInt32 :=
  if count.toNat + 1 < UInt32.size then some (count + 1) else none

/-- The command as it goes into an attempt at the named node, if the attempt can be counted. Only a
command that was already attempted counts as retried. -/
def attempted (owner : String) (c : Command) : Option Command :=
  if c.status.isPending then
    (next? c.retries).map fun retries ↦ { c with node := owner, retries }
  else some { c with node := owner }

/-- The note of a cancellation: the device the command concerns, if it is not known. -/
def missingDevice (c : Command) (inv : Inventory) : Option String :=
  (c.device.filter fun d ↦ !inv.contains d).map fun d ↦ "device " ++ d ++ " not found"

/-- The outcome of an attempt as it is kept: a command still pending after its last attempt is
cancelled. There is none if the next attempt of a pending command could not be counted. -/
def settled (c : Command) (inv : Inventory) : Option Command :=
  if c.status.isPending then
    (next? c.retries).map fun next ↦
      if next < maxAttempts then c else c.finish (.cancelled (c.missingDevice inv))
  else some c

end Command

/-- How an attempt begins: not at all if the command is gone or done, with the command as it is
handed over, or with the end of the pass if the attempt cannot be counted. -/
inductive Beginning where
  | skip
  | overflow
  | handOver (given : Command)

namespace Node

variable {ε : Type}

/-- Keeps the outcome of an attempt. -/
def complete (c : Command) (n : Node ε) : Node ε :=
  { n with ledger := (n.ledger.complete c).2 }

/-- How an attempt of the command under a key begins. -/
def beginning (k : Key) (n : Node ε) : Beginning :=
  match n.ledger.get? k with
  | none => .skip
  | some c =>
    if c.status.isRunnable then
      match c.attempted n.ledger.owner with
      | some given => .handOver given
      | none => .overflow
    else .skip

/-- Carries out a command that was handed over and keeps the outcome, if there is one. -/
def carryOut (d : Dispatch ε) (given : Command) (n : Node ε) : Option Command × Node ε :=
  let (answer, n) := d.run given n
  match answer.settled n.inventory with
  | some outcome => (some outcome, n.complete outcome)
  | none => (none, n)

/-- Attempts the command under a key if it is there and still to be run, and says whether it was
attempted. There is no answer if the attempt ends the pass. -/
def attempt (d : Dispatch ε) (k : Key) (n : Node ε) : Option Bool × Node ε :=
  match n.beginning k with
  | .skip => (some false, n)
  | .overflow => (none, n)
  | .handOver given =>
    let (outcome, n) := n.carryOut d given
    (outcome.map fun _ ↦ true, n)

/-- Attempts the commands under some keys and counts the attempts, if none of them ends the pass. -/
def attemptAll (d : Dispatch ε) : List Key → Node ε → Option Nat × Node ε
  | [], n => (some 0, n)
  | k :: ks, n =>
    match n.attempt d k with
    | (none, n) => (none, n)
    | (some made, n) =>
      let (count, n) := attemptAll d ks n
      (count.map (made.toNat + ·), n)

/-- The execution pass: attempts every command that is still to be run when the pass begins, and
counts the attempts. -/
def runPending (d : Dispatch ε) (n : Node ε) : Option Nat × Node ε :=
  n.attemptAll d n.ledger.runnableKeys

end Node

end Switchyard
