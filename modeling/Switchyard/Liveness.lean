import Switchyard.Inventory

/-!
# Liveness

A liveness check asks on every interface which devices answer, marks those as seen at the moment of
the check, and counts a miss for every device that is not marked. The second miss in a row raises
the alert that a device is offline, and its first answer after that the alert that it is online
again. Without an interface nothing is counted, since every device would seem to be missing.

## Main definitions

* `Survey` — what a check finds on the network.
* `Inventory.markSeen`, `Inventory.markMissed` — the two kinds of marks.
* `Inventory.checkLiveness` — the whole check.
-/

namespace Switchyard

/-- A device that answered, and the address on the network it answered from. -/
structure Sighting where
  mac : String
  ip : String
  deriving Repr, DecidableEq

/-- What a check finds: the interfaces to ask on, whether the question could be sent on one, and
who answered there. -/
structure Survey where
  interfaces : Except Fault (List String)
  broadcast : String → Except Fault Unit
  probe : String → Except Fault (List Sighting)

/-- The survey that finds no interface. -/
def Survey.empty : Survey := ⟨.ok [], fun _ ↦ .ok (), fun _ ↦ .ok []⟩

/-- What a check found out: how many interfaces there were, how many answers came from known
devices, how many devices were missed, and which of them are offline from now on. -/
structure LivenessReport where
  interfaces : Nat := 0
  responded : Nat := 0
  missed : Nat := 0
  offline : List String := []
  deriving Repr, DecidableEq

namespace Inventory

/-- The number of misses in a row that make a device offline. -/
def offlineMisses : UInt32 := 2

/-- A device as it is after it answered. -/
def seen (stamp : Time.Instant) (ip : String) (d : Device) : Device :=
  { d with
    ip := if ip.isEmpty then d.ip else ip
    missed := 0
    lastSeen := some stamp }

/-- The alerts that an answer of a device raises. -/
def sightingAlerts (mac ip : String) (d : Device) : List Alert :=
  (if offlineMisses ≤ d.missed then [.online mac] else []) ++
    (if !ip.isEmpty && d.ip != ip then [.newIp mac ip] else [])

/-- Marks a device as seen, and says whether it is known. -/
def markSeen (stamp : Time.Instant) (s : Sighting) (inv : Inventory) : Bool × Inventory :=
  match Mac.canonical? s.mac with
  | none => (false, inv)
  | some mac =>
    let alerts := ((inv.devices.get? mac).map (sightingAlerts mac s.ip)).getD []
    match inv.update mac (seen stamp s.ip) with
    | .error _ => (false, inv)
    | .ok (_, inv) => (true, { inv with alerts := inv.alerts ++ alerts })

/-- Marks devices as seen one after the other and counts the known ones. -/
def markAllSeen (stamp : Time.Instant) : List Sighting → Inventory → Nat × Inventory
  | [], inv => (0, inv)
  | s :: ss, inv =>
    let (known, inv) := inv.markSeen stamp s
    let (count, inv) := markAllSeen stamp ss inv
    (known.toNat + count, inv)

/-- One more, as far as the counter goes. -/
def oneMore (n : UInt32) : UInt32 := if n = 0xFFFFFFFF then n else n + 1

/-- Counts a miss of a device, and says what became of it if it is known. -/
def markMissed (mac : String) (inv : Inventory) : Option Device × Inventory :=
  match inv.update mac fun d ↦ { d with missed := oneMore d.missed } with
  | .error _ => (none, inv)
  | .ok (d, inv) =>
    (some d, if d.missed = offlineMisses then inv.raise (.offline mac) else inv)

/-- Counts a miss of each of some devices, and lists what became of them. -/
def markAllMissed : List String → Inventory → List Device × Inventory
  | [], inv => ([], inv)
  | mac :: macs, inv =>
    let (missed, inv) := inv.markMissed mac
    let (rest, inv) := markAllMissed macs inv
    (missed.toList ++ rest, inv)

/-- The addresses of the devices that are not marked with a moment. -/
def unmarked (stamp : Time.Instant) (inv : Inventory) : List String :=
  (inv.devices.values.filter (·.lastSeen != some stamp)).map (·.mac)

/-- What is seen on some interfaces. Nothing is seen where asking fails. -/
def sightings (survey : Survey) (interfaces : List String) : List Sighting :=
  interfaces.flatMap fun interface ↦ (survey.probe interface).toOption.getD []

/-- One liveness check at a moment. -/
def checkLiveness (stamp : Time.Instant) (survey : Survey) (inv : Inventory) :
    Except Fault LivenessReport × Inventory :=
  match survey.interfaces with
  | .error fault => (.error fault, inv)
  | .ok [] => (.ok {}, inv)
  | .ok interfaces =>
    let (responded, inv) := inv.markAllSeen stamp (sightings survey interfaces)
    let (missed, inv) := inv.markAllMissed (inv.unmarked stamp)
    (.ok
      { interfaces := interfaces.length, responded, missed := missed.length
        offline := (missed.filter (·.missed = offlineMisses)).map (·.mac) },
      inv)

end Inventory

end Switchyard
