import Switchyard.Command.Basic
import Switchyard.Json.Reader
import Switchyard.Json.Value
import Switchyard.Time.Reading

/-!
# Commands on the wire

Nodes exchange commands as a table whose keys are wire forms and whose entries hold the rest as
texts. The key of an entry decides whom the command is for and what it says; the entry's own fields
are used only where the key leaves them open. A table lists its commands in the byte order of
their wire forms.
-/

namespace Switchyard

/-- A command as the wire carries it. An empty text stands for nothing. -/
structure Entry where
  timestamp : String := ""
  command : String := ""
  result : String := ""
  status : String := ""
  node : String := ""
  retries : UInt32 := 0
  client : String := ""
  device : String := ""
  flags : Flags := {}
  deriving Repr, DecidableEq, Inhabited

/-- A table of commands on the wire. -/
abbrev CommandTable := Table String Entry

/-- A text that is not empty. -/
def nonempty? (s : String) : Option String := if s.isEmpty then none else some s

namespace Entry

/-- The entry of a command. -/
def ofCommand (c : Command) : Entry where
  timestamp := (c.timestamp.map Time.Instant.withOffset).getD ""
  command := c.text
  result := c.result
  status := c.status.text
  node := c.node
  retries := c.retries
  client := c.client.getD ""
  device := c.device.getD ""
  flags := c.flags

/-- The command of an entry under a wire form. A timestamp that cannot be read is none. -/
def toCommand (e : Entry) (wire : String) : Command :=
  let key := Key.parse wire
  { text := if key.text.isEmpty then e.command else key.text
    timestamp := Time.Reading.rfc3339? e.timestamp
    status := .parse e.status
    result := e.result
    retries := e.retries
    node := e.node
    client := key.client <|> nonempty? e.client
    device := nonempty? e.device
    flags := e.flags }

open Json Reader in
/-- The members of an entry in their order. All may be left out. -/
def shape : Shape Entry where
  blank := {}
  members :=
    [member "timestamp" text fun s e ↦ { e with timestamp := s },
     member "command" text fun s e ↦ { e with command := s },
     member "result" text fun s e ↦ { e with result := s },
     member "status" text fun s e ↦ { e with status := s },
     member "name" text fun s e ↦ { e with node := s },
     member "retries" (natural Text.bound32) fun n e ↦ { e with retries := .ofNat n },
     member "client" text fun s e ↦ { e with client := s },
     member "devid" text fun s e ↦ { e with device := s },
     member "all" bool fun b e ↦ { e with flags := { e.flags with all := b } },
     member "nooverwrite" bool fun b e ↦ { e with flags := { e.flags with noOverwrite := b } },
     member "nosyslog" bool fun b e ↦ { e with flags := { e.flags with noSyslog := b } }]
  required := []

/-- The JSON form. An empty client or device and a flag that is off are left out. -/
def toJson (e : Entry) : Json.Value :=
  let shown (name s : String) : List (String × Json.Value) :=
    if s.isEmpty then [] else [(name, .text s)]
  let set (name : String) (b : Bool) : List (String × Json.Value) :=
    if b then [(name, .bool true)] else []
  .object
    ([("timestamp", .text e.timestamp), ("command", .text e.command), ("result", .text e.result),
      ("status", .text e.status), ("name", .text e.node), ("retries", .int e.retries.toNat)] ++
     shown "client" e.client ++ shown "devid" e.device ++ set "all" e.flags.all ++
     set "nooverwrite" e.flags.noOverwrite ++ set "nosyslog" e.flags.noSyslog)

end Entry

namespace CommandTable

/-- The table of some commands. Of two with one wire form the later is kept. -/
def encode (cs : List Command) : CommandTable :=
  .ofList (cs.map fun c ↦ (c.key.wire, Entry.ofCommand c))

/-- The commands of a table in the byte order of their wire forms. -/
def decode (t : CommandTable) : List Command :=
  t.entries.map fun (wire, e) ↦ e.toCommand wire

/-- Reads a table. -/
def read : Json.Reader CommandTable := Json.Reader.table Entry.shape.read

/-- The JSON form. -/
def toJson (t : CommandTable) : Json.Value :=
  .object (t.entries.map fun (wire, e) ↦ (wire, e.toJson))

end CommandTable

end Switchyard
