import Switchyard.Command.Entry
import Switchyard.Root

/-!
# Links to the root

A client reaches the root through a link, which has four calls. Each may fail and may change what is
on the far side. The loopback link reaches a root in the same process; commands and devices go
through their wire forms all the same.
-/

namespace Switchyard

/-- The calls of a client, acting on a far side `ρ`. -/
structure Link (ρ : Type) where
  pull : String → ρ → Except Fault (List Command) × ρ
  push : List Command → ρ → Except Fault Unit × ρ
  pushDevices : List Device → ρ → Except Fault Unit × ρ
  register : Announcement → ρ → Except Fault Unit × ρ

namespace Link

variable {ρ : Type}

/-- The link to a root in the same process. -/
def loopback (now : Time.Instant) : Link Root where
  pull client r := (.ok (CommandTable.decode (.encode (r.ledger.pullFor client))), r)
  push cs r := (.ok (), (r.accept now (CommandTable.decode (.encode cs))).2)
  pushDevices ds r := (.ok (), (r.acceptDevices now (DeviceTable.encode ds).values).2)
  register a r := (.ok (), (r.register now a).2)

/-- The link on which every call fails. -/
def severed (fault : Fault) : Link ρ where
  pull _ r := (.error fault, r)
  push _ r := (.error fault, r)
  pushDevices _ r := (.error fault, r)
  register _ r := (.error fault, r)

end Link

end Switchyard
