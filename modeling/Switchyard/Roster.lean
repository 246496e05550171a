import Switchyard.Json.Reader
import Switchyard.Json.Value
import Switchyard.Table
import Switchyard.Time.Instant

/-!
# The roster of clients

Clients announce themselves to the root, which keeps the newest announcement of each and the
moments of the first and the last one. Nobody is ever struck off.
-/

namespace Switchyard

/-- What a client says of itself: its name, how much it holds, when it started, what time it has,
and its addresses. -/
structure Announcement where
  name : String
  devices : Nat := 0
  commands : Nat := 0
  start : Int := 0
  now : Int := 0
  addresses : List String := []
  deriving Repr, DecidableEq, Inhabited

namespace Announcement

open Json Reader in
/-- The members of an announcement in their order. Only the name has to be there. -/
def shape : Shape Announcement where
  blank := { name := "" }
  members :=
    [member "name" text fun s a ↦ { a with name := s },
     member "numDevices" (natural Text.bound64) fun n a ↦ { a with devices := n },
     member "numCmds" (natural Text.bound64) fun n a ↦ { a with commands := n },
     member "start" integer fun n a ↦ { a with start := n },
     member "now" integer fun n a ↦ { a with now := n },
     member "ipAddresses" (list text) fun ss a ↦ { a with addresses := ss }]
  required := ["name"]

/-- Reads an announcement. -/
def read : Json.Reader Announcement := shape.read

/-- The JSON form. -/
def toJson (a : Announcement) : Json.Value :=
  .object
    [("name", .text a.name), ("numDevices", .int a.devices), ("numCmds", .int a.commands),
     ("start", .int a.start), ("now", .int a.now),
     ("ipAddresses", .array (a.addresses.map .text))]

end Announcement

/-- What the root keeps of a client. -/
structure Registration where
  info : Announcement
  first : Time.Instant
  last : Time.Instant
  deriving Repr, DecidableEq

/-- The JSON form. -/
def Registration.toJson (r : Registration) : Json.Value :=
  .object
    [("info", r.info.toJson), ("firstRegistered", .text r.first.zulu),
     ("lastRegistered", .text r.last.zulu)]

/-- The clients that announced themselves, by name. -/
abbrev Roster := Table String Registration

namespace Roster

/-- Takes an announcement down, and says whether it is the first of its client. -/
def register (now : Time.Instant) (a : Announcement) (r : Roster) : Bool × Roster :=
  match r.get? a.name with
  | some known => (false, r.insert a.name { known with info := a, last := now })
  | none => (true, r.insert a.name ⟨a, now, now⟩)

/-- The names of the clients in their order. -/
def names (r : Roster) : List String := r.keys

/-- The JSON form. -/
def toJson (r : Roster) : Json.Value := .array (r.values.map Registration.toJson)

end Roster

end Switchyard
