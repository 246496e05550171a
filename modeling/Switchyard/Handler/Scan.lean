import Switchyard.Client.Bench

/-!
# Sweeps of the network

`scan gwd` and `scan snmp` sweep the network and merge what is found into the inventory. Whatever
the reports say, they count as reports of the source that was asked.
-/

namespace Switchyard.Handler

variable {ω : Type}

/-- A report as it is merged: of the source asked, found by the named node unless it says
otherwise. -/
def credited (s : Source) (node : String) (d : Device) : Device :=
  { d with source := s, scannedBy := if d.scannedBy.isEmpty then node else d.scannedBy }

/-- Sweeps the network through a source. -/
def sweep (now : Time.Instant) (p : Protocol ω) (s : Source) : Handler (Bench ω) := fun c n ↦
  let (answer, n) := Bench.sweep p s n
  match answer with
  | .error fault => (c.finish (.error fault.message), n)
  | .ok found =>
    let (accepted, inventory) :=
      n.inventory.insertAll now (found.map (credited s n.ledger.owner))
    let result := toString found.length ++ " devices reported, " ++ toString accepted ++ " accepted"
    ({ c with result, status := .ok }, { n with inventory })

/-- The sweeps. -/
def scan (now : Time.Instant) (p : Protocol ω) : Handler (Bench ω) := fun c n ↦
  match c.words with
  | ["scan", "gwd"] => sweep now p .gwd c n
  | ["scan", "snmp"] => sweep now p .snmp c n
  | _ => (c.invalid, n)

/-- The first word of the sweeps. -/
def scanVerbs : List String := ["scan"]

end Switchyard.Handler
