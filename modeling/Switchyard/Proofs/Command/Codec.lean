import Switchyard.Proofs.Command.Legible
import Switchyard.Proofs.Text.ByteOrder

/-!
# Tables of commands as they arrive

A command whose key is clear, and whose text has no blanks around it, comes back from the wire with
every field but two as it was: an empty device becomes none, and the status is what its line of
text is read as. The table lists such commands in the byte order of their wire forms, and none of
them is lost or merged with another.

## Main definitions

* `Command.received` : the command with the two fields that may change.

## Main results

* `Command.carried_of_clear` : what one trip makes of a command.
* `CommandTable.wires_decode` : commands arrive in the order of the keys of their table.
* `CommandTable.received_of_clear` : what arrives of a table, and in which order.
-/

namespace Switchyard

/-! ### One command -/

namespace Command

variable {c : Command}

/-- The command as a node has it that received it: an empty device is none, and the status is read
from its line of text. -/
def received (c : Command) : Command :=
  { c with status := .parse c.status.text, device := c.device.filter (· ≠ "") }

theorem settled_of_trim_eq {text : String} (h : Text.trim text = text) :
    Key.settled text = text := by
  rw [Key.settled, h, ite_self]

theorem nonempty?_getD (s : Option String) : nonempty? (s.getD "") = s.filter (· ≠ "") := by
  cases s with
  | none => rfl
  | some s => by_cases hs : s = "" <;> simp [nonempty?, hs, Option.filter]

/-- A clear key whose text has no blanks around it stays as it is. -/
theorem key_carried_of_clear (hclear : c.key.Clear) (htrim : Text.trim c.text = c.text) :
    c.carried.key = c.key :=
  Key.carried_eq_iff.2 ⟨hclear, settled_of_trim_eq htrim⟩

/-- A trip over the wire changes only the status and the device, if the timestamp is read back. -/
theorem carried_of_clear (hclear : c.key.Clear) (htrim : Text.trim c.text = c.text)
    (htime : ∀ t, c.timestamp = some t → Time.Reading.rfc3339? t.withOffset = some t) :
    c.carried = c.received := by
  obtain ⟨hclient, htext⟩ := Key.mk.inj (key_carried_of_clear hclear htrim)
  have htimestamp : c.carried.timestamp = c.timestamp := by
    rw [carried_timestamp]
    cases ht : c.timestamp with
    | none => rfl
    | some t => rw [Option.bind_some, htime t ht]
  have hcarried : c.carried = { c with
      text := c.carried.text, timestamp := c.carried.timestamp, status := c.carried.status,
      client := c.carried.client, device := c.carried.device } := rfl
  rw [hcarried, htext, htimestamp, hclient, carried_status, carried_device, nonempty?_getD]
  rfl

end Command

/-! ### Whole tables -/

namespace CommandTable

variable {cs : List Command}

/-- Commands arrive in the order of the keys of their table, if each has its wire form back. -/
theorem wires_decode (h : ∀ c ∈ cs, c.carried.key.wire = c.key.wire) :
    (decode (encode cs)).map (·.key.wire) = (encode cs).keys := by
  rw [decode, Table.keys, List.map_map]
  refine List.map_congr_left fun e he ↦ ?_
  obtain ⟨c, hc, rfl⟩ := List.mem_map.1 (Table.mem_of_mem_ofList he)
  exact h c hc

/-- Commands arrive in the byte order of their wire forms, if each has its wire form back. -/
theorem pairwise_decode (h : ∀ c ∈ cs, c.carried.key.wire = c.key.wire) :
    (decode (encode cs)).Pairwise fun c d ↦ Text.bytes c.key.wire < Text.bytes d.key.wire := by
  have hsorted : (encode cs).keys.Pairwise (· < ·) := List.pairwise_map.2 (encode cs).sorted
  rw [← wires_decode h] at hsorted
  exact (List.pairwise_map.1 hsorted).imp Text.bytes_lt_bytes_iff.2

/-- Of commands with different keys that are clear and have no blanks around their texts, exactly
one arrives for each that was sent, in the byte order of the wire forms. It is the command that was
sent but for an empty device and the reading of its status, if the timestamps are read back. -/
theorem received_of_clear (hkeys : (cs.map (·.key)).Nodup)
    (hclear : ∀ c ∈ cs, c.key.Clear ∧ Text.trim c.text = c.text)
    (htime : ∀ c ∈ cs, ∀ t, c.timestamp = some t →
      Time.Reading.rfc3339? t.withOffset = some t) :
    (decode (encode cs)).Perm (cs.map Command.received) ∧
    (decode (encode cs)).Pairwise fun c d ↦ Text.bytes c.key.wire < Text.bytes d.key.wire := by
  have hkey (c : Command) (hc : c ∈ cs) : c.carried.key = c.key :=
    Command.key_carried_of_clear (hclear c hc).1 (hclear c hc).2
  refine ⟨?_, pairwise_decode fun c hc ↦ congrArg Key.wire (hkey c hc)⟩
  have hperm := decode_encode_perm_of_legible hkeys fun c hc ↦ Key.carried_eq_iff.1 (hkey c hc)
  rwa [List.map_congr_left fun c hc ↦
    Command.carried_of_clear (hclear c hc).1 (hclear c hc).2 (htime c hc)] at hperm

/-- A change of an interval with a device, and for one client a sweep that was cancelled and a
command without a text. -/
def assorted : List Command :=
  [{ Command.new ⟨1709287200, 5000000⟩ "arp interval 5" with retries := 3, device := some "d" },
    { Command.new default "scan gwd" with
      client := some "c1", status := .cancelled (some "(locked)") },
    { text := "", client := some "c1", device := some "" }]

/-- All three arrive, the command without a text first. The parentheses of the note are gone, and
so is the empty device. -/
theorem received_of_assorted :
    let arrived := decode (encode assorted)
    arrived.Perm (assorted.map Command.received) ∧
      arrived.map (·.key.wire) = ["@c1 ", "@c1 scan gwd", "arp interval 5"] ∧
      assorted.map (·.received.status) = [.new, .cancelled (some "locked"), .new] ∧
      assorted.map (·.received.device) = [some "d", none, none] := by
  have hclear : ∀ c ∈ assorted, c.key.Clear ∧ Text.trim c.text = c.text := by
    intro c hc
    simp only [assorted, List.mem_cons, List.not_mem_nil, or_false] at hc
    rcases hc with rfl | rfl | rfl
    · refine ⟨fun name rest h ↦ ?_, by decide⟩
      exact absurd (List.cons.inj h.1).1 (by decide)
    · exact ⟨⟨by decide, by decide⟩, by decide⟩
    · exact ⟨⟨by decide, by decide⟩, by decide⟩
  have htime : ∀ c ∈ assorted, ∀ t, c.timestamp = some t →
      Time.Reading.rfc3339? t.withOffset = some t := by
    intro c hc t ht
    simp only [assorted, List.mem_cons, List.not_mem_nil, or_false] at hc
    rcases hc with rfl | rfl | rfl
    · obtain rfl := Option.some.inj ht
      decide +kernel
    · obtain rfl := Option.some.inj ht
      decide +kernel
    · cases ht
  obtain ⟨hperm, -⟩ := received_of_clear (by decide) hclear htime
  exact ⟨hperm, by decide +kernel, by decide +kernel, by decide +kernel⟩

end CommandTable

end Switchyard
