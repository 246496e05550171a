import Switchyard.Device.Basic
import Switchyard.Proofs.Table

/-!
# Devices in a table

Devices that are sent stand in a table under their addresses. The table holds one device for every
address that occurs: the last one of the list.

## Main results

* `DeviceTable.mem_of_mem_values_encode`, `DeviceTable.nodup_values_encode` : what the table holds.
* `DeviceTable.mem_values_encode_of_newest` : the last device with an address is kept.
-/

namespace Switchyard

namespace DeviceTable

variable {ds : List Device} {d d' : Device}

/-- A table holds devices of the list, each under its own address. -/
theorem of_mem_entries_encode {e : String × Device} (h : e ∈ (encode ds).entries) :
    e.2 ∈ ds ∧ e.1 = e.2.mac := by
  obtain ⟨d, hd, rfl⟩ := List.mem_map.1 (Table.mem_of_mem_ofList h)
  exact ⟨hd, rfl⟩

theorem mem_of_mem_values_encode (h : d ∈ (encode ds).values) : d ∈ ds := by
  obtain ⟨e, he, rfl⟩ := List.mem_map.1 h
  exact (of_mem_entries_encode he).1

/-- A table holds one device for every address. -/
theorem nodup_values_encode (ds : List Device) : ((encode ds).values.map (·.mac)).Nodup := by
  have hkeys : (encode ds).values.map (·.mac) = (encode ds).keys := by
    rw [Table.values, List.map_map]
    exact List.map_congr_left fun e he ↦ (of_mem_entries_encode he).2.symm
  rw [hkeys]
  exact Table.nodup_keys _

theorem exists_mem_values_encode (h : d ∈ ds) : ∃ d' ∈ (encode ds).values, d'.mac = d.mac := by
  have hentry : (d.mac, d) ∈ ds.map fun d ↦ (d.mac, d) := List.mem_map.2 ⟨d, h, rfl⟩
  obtain ⟨d', hd'⟩ := Table.exists_mem_ofList hentry
  exact ⟨d', List.mem_map.2 ⟨_, hd', rfl⟩, (of_mem_entries_encode hd').2.symm⟩

/-- The last device with an address is the one that the table holds. -/
theorem mem_values_encode_of_newest {older newer : List Device}
    (h : ∀ e ∈ newer, e.mac ≠ d.mac) : d ∈ (encode (older ++ d :: newer)).values := by
  refine (Table.mem_values_iff ..).2 ⟨d.mac, ?_⟩
  rw [encode, Table.get?_ofList, ← List.map_reverse, List.reverse_append, List.reverse_cons,
    List.append_assoc, List.map_append, Table.lookup_append]
  have hnone : Table.lookup d.mac (newer.reverse.map fun e ↦ (e.mac, e)) = none := by
    rw [Option.eq_none_iff_forall_ne_some]
    intro e he
    obtain ⟨e', he', hpair⟩ := List.mem_map.1 (Table.mem_of_lookup_eq_some he)
    obtain ⟨hmac, rfl⟩ := Prod.mk.inj hpair
    exact h e' (List.mem_reverse.1 he') hmac
  rw [hnone, Option.none_or]
  simp [Table.lookup]

end DeviceTable

end Switchyard
