import Switchyard.Command.Entry
import Switchyard.Proofs.Command.StatusText
import Switchyard.Proofs.Table

/-!
# Commands across the wire

A table of commands that is sent and read again holds the commands that were sent, each as it comes
back from the wire. What comes back may stand under another key: the wire form of a key is a plain
text. Commands with one wire form become one.

## Main definitions

* `Command.carried` : a command after one trip over the wire.

## Main results

* `Command.carried_status`, `Command.carried_retries`, … : what the trip does to each field.
* `CommandTable.mem_decode_encode` : what arrives is what was sent, carried.
* `CommandTable.decode_encode_perm` : with wire forms that differ nothing is lost.
-/

namespace Switchyard

namespace Command

/-- The command as it comes back from one trip over the wire. -/
def carried (c : Command) : Command := (Entry.ofCommand c).toCommand c.key.wire

@[simp] theorem carried_status (c : Command) : c.carried.status = .parse c.status.text := rfl

@[simp] theorem carried_result (c : Command) : c.carried.result = c.result := rfl

@[simp] theorem carried_retries (c : Command) : c.carried.retries = c.retries := rfl

@[simp] theorem carried_node (c : Command) : c.carried.node = c.node := rfl

@[simp] theorem carried_flags (c : Command) : c.carried.flags = c.flags := rfl

theorem carried_text (c : Command) : c.carried.text =
    if (Key.parse c.key.wire).text.isEmpty then c.text else (Key.parse c.key.wire).text := rfl

theorem carried_client (c : Command) : c.carried.client =
    ((Key.parse c.key.wire).client <|> nonempty? (c.client.getD "")) := rfl

theorem carried_device (c : Command) : c.carried.device = nonempty? (c.device.getD "") := rfl

theorem carried_timestamp (c : Command) : c.carried.timestamp =
    c.timestamp.bind fun t ↦ Time.Reading.rfc3339? t.withOffset := by
  cases h : c.timestamp with
  | none =>
    simp only [carried, Entry.toCommand, Entry.ofCommand, h]
    decide
  | some t => simp [carried, Entry.toCommand, Entry.ofCommand, h]

theorem carried_isRunnable (c : Command) :
    c.carried.status.isRunnable = c.status.isRunnable := by simp

end Command

namespace CommandTable

open Command

theorem mem_decode_encode {cs : List Command} {c : Command}
    (h : c ∈ decode (encode cs)) : ∃ sent ∈ cs, c = sent.carried := by
  obtain ⟨⟨wire, e⟩, he, rfl⟩ := List.mem_map.1 h
  obtain ⟨sent, hsent, heq⟩ := List.mem_map.1 (Table.mem_of_mem_ofList he)
  obtain ⟨rfl, rfl⟩ := Prod.mk.inj heq
  exact ⟨sent, hsent, rfl⟩

/-- Every wire form that was sent arrives, with one of the commands that have it. -/
theorem exists_mem_decode_encode {cs : List Command} {c : Command} (h : c ∈ cs) :
    ∃ sent ∈ cs, sent.key.wire = c.key.wire ∧ sent.carried ∈ decode (encode cs) := by
  have hc := List.mem_map_of_mem (f := fun c ↦ (c.key.wire, Entry.ofCommand c)) h
  obtain ⟨e, he⟩ := Table.exists_mem_ofList hc
  obtain ⟨sent, hsent, heq⟩ := List.mem_map.1 (Table.mem_of_mem_ofList he)
  obtain ⟨hwire, rfl⟩ := Prod.mk.inj heq
  exact ⟨sent, hsent, hwire, List.mem_map.2 ⟨_, he, by rw [← hwire]; rfl⟩⟩

/-- With wire forms that differ every command arrives, carried. -/
theorem decode_encode_perm {cs : List Command} (h : (cs.map (·.key.wire)).Nodup) :
    (decode (encode cs)).Perm (cs.map carried) := by
  have hkeys : ((cs.map fun c ↦ (c.key.wire, Entry.ofCommand c)).map (·.1)).Nodup := by
    rwa [List.map_map]
  have hperm := (Table.ofList_entries_perm hkeys).map fun e ↦ e.2.toCommand e.1
  rwa [List.map_map] at hperm

end CommandTable

end Switchyard
