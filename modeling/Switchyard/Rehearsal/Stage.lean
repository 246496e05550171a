import Switchyard.Client

/-!
# Rehearsed collaborators

In a rehearsal the network answers as it is told, the link to the root fails on demand, and a
handler for the words `mock` and `stub` plays cues, one in each run.

## Main definitions

* `Stage`, `Stage.protocol` — a network that answers as it is told.
* `Cue`, `Stage.improvise` — the handler that plays cues.
* `Link.gated` — a link that fails on demand and notes its calls.
-/

namespace Switchyard

/-- One run of the rehearsed handler: a command it deletes, a command it merges in, and what it
makes of the command it was given. -/
structure Cue where
  delete : Option Key := none
  push : Option Command := none
  change : Command → Command := id

/-- How the network answers from now on, and the cues not played yet. -/
structure Stage where
  execute : Device.Request → Except Fault String := fun _ ↦ .ok ""
  scan : Source → Except Fault (List Device) := fun _ ↦ .ok []
  cues : List Cue := []

namespace Stage

/-- The protocol of a rehearsed network. -/
def protocol : Protocol Stage where
  execute r s := (s.execute r, s)
  scan source s := (s.scan source, s)

/-- Plays a cue. -/
def play (now : Time.Instant) (cue : Cue) (l : Ledger) : Ledger :=
  let l := match cue.delete.map l.delete with
    | some (.ok (_, l)) => l
    | _ => l
  match cue.push with
  | some c => (l.mergePushed now [c]).2
  | none => l

/-- The handler that plays the next cue. Without one it leaves the command as it is. -/
def improvise (now : Time.Instant) : Handler (Bench Stage) := fun c n ↦
  match n.site.network.cues with
  | [] => (c, n)
  | cue :: cues =>
    (cue.change c,
      { n with
        ledger := play now cue n.ledger
        site := { n.site with network := { n.site.network with cues } } })

/-- The first words of the rehearsed commands. -/
def improviseVerbs : List String := ["mock", "stub"]

/-- A network on which some actions fail and all others succeed. -/
def withFailing (failing : List String) (sweeps : Source → List Device) (s : Stage) : Stage :=
  { s with
    execute := fun r ↦
      if r.action ∈ failing then .error (.execution (r.action ++ " failed on " ++ r.mac))
      else .ok (r.action ++ " " ++ r.mac ++ " ok")
    scan := fun source ↦
      if "scan" ∈ failing then .error (.execution "scan failed") else .ok (sweeps source) }

end Stage

/-- A call on a link, with the number of things sent. -/
inductive Call where
  | pull
  | push (size : Nat)
  | pushDevices (size : Nat)
  | register
  deriving Repr, DecidableEq

/-- The name of a call. -/
def Call.name : Call → String
  | .pull => "pull"
  | .push _ => "push"
  | .pushDevices _ => "push_devices"
  | .register => "register"

/-- The calls made on a link, and whether each was let through. -/
abbrev CallLog := List (Call × Bool)

/-- Makes a call unless the gate refuses it, and notes it. -/
def Link.through {α ρ : Type} (gate : Call → Option Fault) (call : Call)
    (make : ρ → Except Fault α × ρ) : CallLog × ρ → Except Fault α × CallLog × ρ :=
  fun (log, far) ↦
    match gate call with
    | some fault => (.error fault, log ++ [(call, false)], far)
    | none =>
      let (answer, far) := make far
      (answer, log ++ [(call, true)], far)

/-- A link behind a gate that may refuse calls. All calls are noted. -/
def Link.gated {ρ : Type} (gate : Call → Option Fault) (link : Link ρ) : Link (CallLog × ρ) where
  pull client := Link.through gate .pull (link.pull client)
  push cs := Link.through gate (.push cs.length) (link.push cs)
  pushDevices ds := Link.through gate (.pushDevices ds.length) (link.pushDevices ds)
  register a := Link.through gate .register (link.register a)

end Switchyard
