import Switchyard.Device.Mac
import Switchyard.Json.Reader
import Switchyard.Json.Value
import Switchyard.Time.Reading

/-!
# Devices

What is known of one device: who it is, where it is on the network, what it runs, which source
reported it, how many liveness checks it has missed, and when it was seen last. The lock is a matter
of the node that holds it and never leaves that node.
-/

namespace Switchyard

/-- The sources that report devices. -/
inductive Source where
  | gwd
  | snmp
  deriving Repr, DecidableEq, Inhabited

namespace Source

/-- A report never gives way to one of a lower rank. -/
def rank : Source → Nat
  | .gwd => 1
  | .snmp => 0

/-- The name of a source. -/
def name : Source → String
  | .gwd => "gwd"
  | .snmp => "snmp"

/-- Reads a source; anything unknown counts as the lowest. -/
def ofName (s : Option String) : Source := if s = some "gwd" then .gwd else .snmp

end Source

/-- A device as a node knows it. -/
structure Device where
  mac : String
  model : String := ""
  source : Source := .gwd
  ip : String := ""
  netmask : String := ""
  gateway : String := ""
  hostname : String := ""
  kernel : String := ""
  application : String := ""
  scannedBy : String := ""
  missed : UInt32 := 0
  readCommunity : String := ""
  writeCommunity : String := ""
  lastSeen : Option Time.Instant := none
  locked : Bool := false
  deriving Repr, DecidableEq, Inhabited

namespace Device

/-- Whether everything is there that a device reports in a full answer. Some report no host
name. -/
def isComplete (d : Device) : Bool :=
  [d.model, d.application, d.kernel, d.ip, d.netmask, d.gateway].all (!·.isEmpty)

open Json Reader in
/-- The members of a device in their order. Only the address has to be there; a source that is
missing or unknown is the lowest. -/
def shape : Shape Device where
  blank := { mac := "", source := .snmp }
  members :=
    [member "mac" text fun s d ↦ { d with mac := s },
     member "modelname" text fun s d ↦ { d with model := s },
     member "scanproto" (optional text) fun s d ↦ { d with source := .ofName s },
     member "ipaddress" text fun s d ↦ { d with ip := s },
     member "netmask" text fun s d ↦ { d with netmask := s },
     member "gateway" text fun s d ↦ { d with gateway := s },
     member "hostname" text fun s d ↦ { d with hostname := s },
     member "kernel" text fun s d ↦ { d with kernel := s },
     member "ap" text fun s d ↦ { d with application := s },
     member "scannedby" text fun s d ↦ { d with scannedBy := s },
     member "arpmissed" (natural Text.bound32) fun n d ↦ { d with missed := .ofNat n },
     member "readcommunity" text fun s d ↦ { d with readCommunity := s },
     member "writecommunity" text fun s d ↦ { d with writeCommunity := s },
     member "lastseen" (optional time) fun t d ↦ { d with lastSeen := t }]
  required := ["mac"]
where
  /-- Reads a point in time. -/
  time : Reader Time.Instant := fun d ↦ do
    let s ← text d
    match Time.Reading.relaxed? s with
    | some t => .ok t
    | none => .error .mistyped

/-- The JSON form. -/
def toJson (d : Device) : Json.Value :=
  .object
    ([("mac", .text d.mac), ("modelname", .text d.model), ("scanproto", .text d.source.name),
      ("ipaddress", .text d.ip), ("netmask", .text d.netmask), ("gateway", .text d.gateway),
      ("hostname", .text d.hostname), ("kernel", .text d.kernel), ("ap", .text d.application),
      ("scannedby", .text d.scannedBy), ("arpmissed", .int d.missed.toNat),
      ("readcommunity", .text d.readCommunity), ("writecommunity", .text d.writeCommunity)] ++
     (d.lastSeen.map fun t ↦ ("lastseen", Json.Value.text t.zulu)).toList)

end Device

/-- A table of devices. -/
abbrev DeviceTable := Table String Device

namespace DeviceTable

/-- The table of some devices under their addresses. Of two with one address the later is kept. -/
def encode (ds : List Device) : DeviceTable := .ofList (ds.map fun d ↦ (d.mac, d))

/-- Reads a table. -/
def read : Json.Reader DeviceTable := Json.Reader.table Device.shape.read

/-- The JSON form. -/
def toJson (t : DeviceTable) : Json.Value :=
  .object (t.entries.map fun (mac, d) ↦ (mac, d.toJson))

end DeviceTable

end Switchyard
