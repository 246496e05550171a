import Switchyard.Alert
import Switchyard.Device.Basic
import Switchyard.Fault

/-!
# The inventory

The inventory of a node holds one device for every canonical address. Reports are merged in: a
known device gives way only to a complete report of at least its own rank, and keeps its lock. An
inventory remembers the alerts it raised, and if somebody listens it also puts a copy of every
device it stored or changed on a feed. The locks are the node's own business: changing one raises
no alert and does not appear on the feed.

## Main definitions

* `Inventory.insert` — merges a report in.
* `Inventory.find` — looks a device up by its address or its address on the network.
* `Inventory.update` — changes a stored device in place.
* `Inventory.tryAcquire`, `Inventory.release` — the locks.
-/

namespace Switchyard

/-- The devices a node knows by their canonical addresses, the alerts raised so far, and the feed
of changes if somebody listens. -/
structure Inventory where
  devices : DeviceTable := .empty
  alerts : List Alert := []
  feed : Option (List Device) := none
  deriving Repr, DecidableEq, Inhabited

namespace Inventory

/-- An inventory with nothing in it, whose changes are listened to. -/
def listened : Inventory := { feed := some [] }

/-- Raises an alert. -/
def raise (a : Alert) (inv : Inventory) : Inventory := { inv with alerts := inv.alerts ++ [a] }

/-- Puts a device on the feed. -/
def publish (d : Device) (inv : Inventory) : Inventory :=
  { inv with feed := inv.feed.map (· ++ [d]) }

/-- Stores a device under its address. -/
def store (d : Device) (inv : Inventory) : Inventory :=
  { inv with devices := inv.devices.insert d.mac d }

/-- Whether a report replaces what is stored of its device. -/
def accepts (stored report : Device) : Bool :=
  stored.source.rank ≤ report.source.rank && report.isComplete

/-- Merges a report of the device with the given canonical address. -/
def insertAs (now : Time.Instant) (mac : String) (report : Device) (inv : Inventory) :
    Bool × Inventory :=
  let fresh := { report with mac, lastSeen := some now }
  match inv.devices.get? mac with
  | none => (true, ((inv.store fresh).raise (.newDevice mac)).publish fresh)
  | some stored =>
    if accepts stored report then
      let kept := { fresh with locked := stored.locked }
      (true, (inv.store kept).publish kept)
    else (false, inv)

/-- Merges a report in and says whether it was accepted. A report whose address cannot be read is
not. -/
def insert (now : Time.Instant) (report : Device) (inv : Inventory) : Bool × Inventory :=
  match Mac.canonical? report.mac with
  | none => (false, inv)
  | some mac => inv.insertAs now mac report

/-- Merges reports in one after the other and counts those accepted. -/
def insertAll (now : Time.Instant) : List Device → Inventory → Nat × Inventory
  | [], inv => (0, inv)
  | d :: ds, inv =>
    let (accepted, inv) := inv.insert now d
    let (count, inv) := insertAll now ds inv
    (accepted.toNat + count, inv)

/-- The first device, in the order of addresses, that has the given address on the network. -/
def atIp? (ip : String) (inv : Inventory) : Option Device :=
  inv.devices.values.find? (·.ip == ip)

/-- The device with the given address in any spelling. -/
def atMac? (mac : String) (inv : Inventory) : Option Device :=
  (Mac.canonical? mac).bind inv.devices.get?

/-- The device that a target names: by its address on the network if the target is an IPv4
address, else by its own address or by an equal address on the network. -/
def find? (target : String) (inv : Inventory) : Option Device :=
  if isIpv4 target then inv.atIp? target else inv.atMac? target <|> inv.atIp? target

/-- What is missing when no device is found. -/
def notFound (target : String) : Fault := .notFound .device target

/-- The device that a target names. -/
def find (target : String) (inv : Inventory) : Except Fault Device :=
  match inv.find? target with
  | some d => .ok d
  | none => .error (notFound target)

/-- Whether a device with the given address is stored. -/
def contains (mac : String) (inv : Inventory) : Bool := (inv.atMac? mac).isSome

/-- The addresses of all devices in their order. -/
def macs (inv : Inventory) : List String := inv.devices.keys

/-- The number of devices. -/
def size (inv : Inventory) : Nat := inv.devices.size

/-- Changes a stored device without telling anybody. The device stays under the address it is
stored under. -/
def modify (mac : String) (f : Device → Device) (inv : Inventory) :
    Except Fault (Device × Inventory) :=
  match Mac.canonical? mac with
  | none => .error (notFound mac)
  | some key =>
    match inv.devices.get? key with
    | none => .error (notFound mac)
    | some d => .ok (f d, { inv with devices := inv.devices.insert key (f d) })

/-- Changes a stored device in place, past the rule for reports, and puts it on the feed. -/
def update (mac : String) (f : Device → Device) (inv : Inventory) :
    Except Fault (Device × Inventory) :=
  (inv.modify mac f).map fun (d, inv) ↦ (d, inv.publish d)

/-- Locks or unlocks a device. -/
def setLock (locked : Bool) (mac : String) (inv : Inventory) : Except Fault Inventory :=
  (inv.modify mac fun d ↦ { d with locked }).map (·.2)

/-- Locks a device, whoever holds its lock. -/
def lock (mac : String) (inv : Inventory) : Except Fault Inventory := inv.setLock true mac

/-- Unlocks a device, whoever holds its lock. -/
def unlock (mac : String) (inv : Inventory) : Except Fault Inventory := inv.setLock false mac

/-- Gives a lock back. -/
def release (mac : String) (inv : Inventory) : Except Fault Inventory := inv.unlock mac

/-- Whether the device that a target names is locked. -/
def isLocked (target : String) (inv : Inventory) : Except Fault Bool :=
  (inv.find target).map (·.locked)

/-- Takes the lock of a device if nobody holds it, and says whether it was taken. -/
def tryAcquire (mac : String) (inv : Inventory) : Except Fault (Bool × Inventory) :=
  match inv.atMac? mac with
  | none => .error (notFound mac)
  | some d => if d.locked then .ok (false, inv) else (inv.lock mac).map fun inv ↦ (true, inv)

end Inventory

end Switchyard
