import Switchyard.Client.Loop
import Switchyard.Http.Surface
import Switchyard.Rehearsal.Stage

/-!
# Rehearsals

A rehearsal is a root and some clients in one place, with rehearsed collaborators. Its clock moves
on a little from one step to the next, so that no two steps happen at the same moment.

## Main definitions

* `Member` — a client in a rehearsal.
* `Rehearsal` — the root and its members.
* `Rehearsal.cycle`, `Rehearsal.flush`, … — the steps that join a member and the root.
-/

namespace Switchyard

/-- A client in a rehearsal: what it will find on the network, which calls are refused, and what it
has done so far. -/
structure Member where
  client : Client Stage
  survey : Survey := .empty
  gate : Call → Option Fault := fun _ ↦ none
  calls : CallLog := []
  broadcasts : List String := []

/-- A root and its clients. The link and the handlers of the clients are the same for all of
them. -/
structure Rehearsal where
  now : Time.Instant
  surface : Http.Surface
  members : Table String Member := .empty
  link : Time.Instant → Link Root
  dispatch : Time.Instant → Dispatch (Bench Stage)

namespace Rehearsal

/-- The root of a rehearsal. -/
def root (w : Rehearsal) : Root := w.surface.root

/-- The rehearsal with another root. -/
def withRoot (root : Root) (w : Rehearsal) : Rehearsal :=
  { w with surface := { w.surface with root } }

/-- The rehearsal with another member under a name. -/
def withMember (name : String) (m : Member) (w : Rehearsal) : Rehearsal :=
  { w with members := w.members.insert name m }

/-- The handlers of a client in a rehearsal, the one that plays cues included. -/
def fullDispatch (now : Time.Instant) : Dispatch (Bench Stage) :=
  .serving Stage.improviseVerbs (Stage.improvise now) (Client.dispatch now Stage.protocol)

/-- Lets a member act over its link to the root. -/
def acting {α : Type} (name : String) (m : Member) (w : Rehearsal)
    (act : Link (CallLog × Root) → Client Stage → CallLog × Root →
      α × Client Stage × CallLog × Root) : α × Rehearsal :=
  let (answer, client, calls, root) :=
    act ((w.link w.now).gated m.gate) m.client (m.calls, w.root)
  (answer, (w.withRoot root).withMember name { m with client, calls })

/-- One cycle of a member. -/
def cycle (name : String) (m : Member) (w : Rehearsal) :
    Option (Except Fault CycleReport) × Rehearsal :=
  w.acting name m fun link client far ↦ client.cycle link (w.dispatch w.now) far

/-- Announces a member to the root. -/
def register (name : String) (m : Member) (addresses : List String) (w : Rehearsal) :
    Except Fault Unit × Rehearsal :=
  w.acting name m fun link client far ↦
    let (answer, far) := client.register link w.now addresses far
    (answer, client, far)

/-- Sends devices from a member to the root. -/
def publish (name : String) (m : Member) (ds : List Device) (w : Rehearsal) :
    Except Fault Unit × Rehearsal :=
  w.acting name m fun link client far ↦
    let (answer, far) := Client.publish link ds far
    (answer, client, far)

/-- Sends what is on the feed of a member. -/
def flush (name : String) (m : Member) (w : Rehearsal) : Except Fault Nat × Rehearsal :=
  w.acting name m fun link client far ↦ client.publishFeed link far

/-- Sends what is on the feed of a member and stops listening to it. -/
def publishAndStop (name : String) (m : Member) (w : Rehearsal) : Rehearsal :=
  (w.acting name m fun link client far ↦
    let (_, client, far) := client.publishFeed link far
    ((), client.stopListening, far)).2

/-- The clock while a loop runs. It moves on between two turns, however long the pause. -/
def clock (w : Rehearsal) (elapsed : Nat) : Time.Instant :=
  ⟨w.now.seconds, w.now.nanos + elapsed⟩

/-- Runs the command loop of a member for a number of milliseconds. -/
def commandLoop (name : String) (m : Member) (limit : Nat) (w : Rehearsal) : Rehearsal :=
  let (client, calls, root) :=
    m.client.commandLoop (fun t ↦ (w.link t).gated m.gate) w.dispatch w.clock limit
      (m.calls, w.root)
  { (w.withRoot root).withMember name { m with client, calls } with now := w.clock limit }

/-- Checks which devices of a member answer. -/
def liveness (name : String) (m : Member) (w : Rehearsal) :
    Except Fault LivenessReport × Rehearsal :=
  let (report, client) := m.client.checkLiveness w.now m.survey
  let asked := m.survey.interfaces.toOption.getD []
  (report, w.withMember name { m with client, broadcasts := m.broadcasts ++ asked })

/-- Runs the liveness loop of a member for a number of milliseconds. -/
def livenessLoop (name : String) (m : Member) (limit : Nat) (w : Rehearsal) : Rehearsal :=
  let client := m.client.livenessLoop m.survey w.clock limit
  { w.withMember name { m with client } with now := w.clock limit }

/-- Runs one cycle of each of some members and stops at the first that fails. There is no answer if
a cycle has none. -/
def cycleAll : List (String × Member) → Rehearsal → Option (Except Fault Unit) × Rehearsal
  | [], w => (some (.ok ()), w)
  | (name, m) :: rest, w =>
    match w.cycle name m with
    | (none, w) => (none, w)
    | (some (.error fault), w) => (some (.error fault), w)
    | (some (.ok _), w) => cycleAll rest w

/-- A new client joins and announces itself. If there is a member of its name already, that one
stays. -/
def join (name : String) (m : Member) (w : Rehearsal) : Except Fault Unit × Rehearsal :=
  let known := w.members.get? name
  match w.register name m ["127.0.0.1"] with
  | (.error fault, w) => (.error fault, w)
  | (.ok _, w) =>
    match known with
    | some m => (.ok (), w.withMember name m)
    | none => (.ok (), w)

/-- Moves the clock on. -/
def tick (w : Rehearsal) : Rehearsal := { w with now := w.now.succ }

end Rehearsal

end Switchyard
