import Switchyard.Intervals
import Switchyard.Node

/-!
# The surroundings of a client

The handlers of a client work with its intervals and with devices on the network. Devices are
reached through a protocol, which carries out one request at a time and may answer each time
differently. A client remembers every request it made, with the lock of the device concerned at
that moment.

## Main definitions

* `Device.Request`, `Protocol` — what is asked of the network and how it answers.
* `Bench` — the surroundings of a client.
* `Bench.request`, `Bench.sweep` — asking, with a record of it.
-/

namespace Switchyard

/-- What is asked of a device: an action, whom it is for, where that is, who asks, and words for
the device. -/
structure Device.Request where
  action : String
  mac : String := ""
  ip : String := ""
  user : String := ""
  password : String := ""
  args : String := ""
  deriving Repr, DecidableEq, Inhabited

/-- The request that asks for a sweep of the network through a source. -/
def Device.Request.sweep (s : Source) : Device.Request := { action := "scan", args := s.name }

/-- How the network answers: what comes of a request, and the devices that a sweep finds. The
answers may depend on a state of the network, which they may change. -/
structure Protocol (ω : Type) where
  execute : Device.Request → ω → Except Fault String × ω
  scan : Source → ω → Except Fault (List Device) × ω

/-- A request that was made, with the lock of its device at that moment if the device was known. -/
structure Asked where
  request : Device.Request
  locked : Option Bool := none
  deriving Repr, DecidableEq

/-- The surroundings of a client: its intervals, when it started, the requests made so far, and the
state of the network. -/
structure Bench (ω : Type) where
  intervals : Intervals := .default
  started : Time.Instant := default
  asked : List Asked := []
  network : ω

namespace Bench

variable {ω : Type}

/-- Makes a request of a device. -/
def request (p : Protocol ω) (r : Device.Request) (n : Node (Bench ω)) :
    Except Fault String × Node (Bench ω) :=
  let (answer, network) := p.execute r n.site.network
  let asked : Asked := ⟨r, (n.inventory.isLocked r.mac).toOption⟩
  (answer, { n with site := { n.site with asked := n.site.asked ++ [asked], network } })

/-- Sweeps the network through a source. -/
def sweep (p : Protocol ω) (s : Source) (n : Node (Bench ω)) :
    Except Fault (List Device) × Node (Bench ω) :=
  let (answer, network) := p.scan s n.site.network
  let asked : Asked := ⟨.sweep s, none⟩
  (answer, { n with site := { n.site with asked := n.site.asked ++ [asked], network } })

end Bench

end Switchyard
