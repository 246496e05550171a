import Switchyard.Json.Reader
import Switchyard.Json.Value

/-!
# Alerts

What the inventory and the liveness check tell operators about a device. An alert has a line of
text and a JSON form, in which the member `type` names its kind.
-/

namespace Switchyard

/-- News of a device, named by its address. -/
inductive Alert where
  | newDevice (mac : String)
  | offline (mac : String)
  | online (mac : String)
  | newIp (mac ip : String)
  deriving Repr, DecidableEq

namespace Alert

/-- The address of the device. -/
def mac : Alert → String
  | .newDevice m => m
  | .offline m => m
  | .online m => m
  | .newIp m _ => m

/-- The line of text for operators. -/
def line : Alert → String
  | .newDevice m => "new device:" ++ m
  | .offline m => m ++ " offline"
  | .online m => m ++ " online"
  | .newIp m ip => m ++ " new IP:" ++ ip

/-- The JSON form. -/
def toJson : Alert → Json.Value
  | .newDevice m => .object [("type", "new_device"), ("mac", m)]
  | .offline m => .object [("type", "device_offline"), ("mac", m)]
  | .online m => .object [("type", "device_online"), ("mac", m)]
  | .newIp m ip => .object [("type", "ip_change"), ("mac", m), ("ip", ip)]

open Json Reader

/-- The members of an alert that names only a device. -/
def deviceShape : Shape String where
  blank := ""
  members := [member "mac" text fun s _ ↦ s]
  required := ["mac"]

/-- The members of an alert that also names an address on the network. -/
def addressShape : Shape (String × String) where
  blank := ("", "")
  members := [member "mac" text fun s p ↦ (s, p.2), member "ip" text fun s p ↦ (p.1, s)]
  required := ["mac", "ip"]

/-- Reads the rest of an alert of the named kind. -/
def ofKind (kind : String) : Reader Alert := fun d ↦
  if kind = "new_device" then (deviceShape.read d).map .newDevice
  else if kind = "device_offline" then (deviceShape.read d).map .offline
  else if kind = "device_online" then (deviceShape.read d).map .online
  else if kind = "ip_change" then (addressShape.read d).map fun (m, ip) ↦ .newIp m ip
  else .error .mistyped

/-- The deepest nesting of arrays and objects that is held in memory. -/
def maxDepth : Nat := 127

/-- The members other than `type`, and the kinds named by those called `type`. -/
def splitKind (fields : List (Spelling × Document)) :
    List Document × List (Spelling × Document) :=
  ((fields.filter (·.1 == .text "type")).map (·.2), fields.filter (·.1 != .text "type"))

/-- Reads an alert. Its kind may stand anywhere among its members, so the whole value is held in
memory before the kind is known. As an array, the kind comes first. -/
def read : Reader Alert := fun d ↦
  if ¬d.holdable maxDepth then .error .malformed
  else
    match d with
    | .object fields closed =>
      match splitKind fields with
      | ([.string (.text kind)], rest) => ofKind kind (.object rest closed)
      | _ => .error .mistyped
    | .array (.string (.text kind) :: rest) closed => ofKind kind (.array rest closed)
    | _ => .error .mistyped

end Alert

end Switchyard
