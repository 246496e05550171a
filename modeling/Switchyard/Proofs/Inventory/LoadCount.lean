import Mathlib.Data.List.Dedup
import Switchyard.Proofs.Inventory.Restoring

/-!
# How many devices were loaded

A snapshot is a table, and loading it goes through its devices whatever their keys. A device whose
address cannot be read is skipped, and of several devices with one address, in whatever spellings,
the last is left. The number that is reported is that of all entries of the table. It is the number
of devices that were stored exactly if every address can be read and stands there once.

## Main definitions

* `DeviceTable.addresses` : the addresses of the devices of a table.
* `Inventory.Loaded` : an inventory into which the devices of a table were loaded.

## Main results

* `Inventory.loaded_foldl_restore` : what loading a snapshot stores.
* `DeviceTable.size_eq_distinct_iff` : when a table has as many entries as addresses.
* `Inventory.count_of_load` : what the reported number counts.
-/

namespace Switchyard

namespace DeviceTable

/-- The addresses that can be read in a table, one for each device that has one. -/
def addresses (t : DeviceTable) : List String := t.values.filterMap (Mac.canonical? ·.mac)

/-- The number of devices of a table whose address cannot be read. -/
def malformed (t : DeviceTable) : Nat := t.values.countP fun d ↦ Mac.canonical? d.mac = none

variable {t : DeviceTable} {mac : String}

theorem mem_addresses_iff :
    mac ∈ t.addresses ↔ ∃ d ∈ t.values, Mac.canonical? d.mac = some mac :=
  List.mem_filterMap

theorem size_eq_add (t : DeviceTable) : t.size = t.addresses.length + t.malformed := by
  have hvalues : t.values.length = t.size := List.length_map _
  have hsplit := List.length_eq_countP_add_countP (l := t.values)
    fun d ↦ (Mac.canonical? d.mac).isSome
  simp only [Bool.not_eq_true, Option.isSome_eq_false_iff, Option.isNone_iff_eq_none] at hsplit
  rw [← hvalues, hsplit, addresses, List.length_filterMap_eq_countP, malformed]

theorem malformed_eq_zero_iff :
    t.malformed = 0 ↔ ∀ d ∈ t.values, (Mac.canonical? d.mac).isSome = true := by
  simp only [malformed, List.countP_eq_zero, decide_eq_true_eq, ← Option.isSome_iff_ne_none]

/-- A table has as many entries as different addresses exactly if every address can be read and none
occurs twice. -/
theorem size_eq_distinct_iff (t : DeviceTable) : t.size = t.addresses.dedup.length ↔
    (∀ d ∈ t.values, (Mac.canonical? d.mac).isSome = true) ∧ t.addresses.Nodup := by
  have hle : t.addresses.dedup.length ≤ t.addresses.length :=
    (List.dedup_sublist t.addresses).length_le
  have hsize := t.size_eq_add
  rw [← malformed_eq_zero_iff]
  constructor
  · intro h
    have hlength : t.addresses.length ≤ t.addresses.dedup.length := by omega
    have hdedup : t.addresses.dedup = t.addresses :=
      (List.dedup_sublist t.addresses).eq_of_length_le hlength
    exact ⟨by omega, List.dedup_eq_self.1 hdedup⟩
  · rintro ⟨hmalformed, hnodup⟩
    rw [hsize, hmalformed, hnodup.dedup, Nat.add_zero]

end DeviceTable

namespace Inventory

/-- An inventory into which the devices of a table were loaded: under every address in the table
stands the last device with it, with the lock of the device that stood there before, and under all
other addresses everything is as it was. -/
structure Loaded (t : DeviceTable) (inv inv' : Inventory) : Prop where
  written : ∀ mac ∈ t.addresses, ∃ d ∈ t.values, Mac.canonical? d.mac = some mac ∧
    lastOf? mac t.values = some d ∧
    inv'.devices.get? mac = some { d with mac, locked := inv.lockOf mac }
  kept : ∀ mac ∉ t.addresses, inv'.devices.get? mac = inv.devices.get? mac

variable {inv inv' : Inventory} {a : Archive} {file : Option String} {k : Nat}

theorem loaded_foldl_restore (t : DeviceTable) (inv : Inventory) :
    Loaded t inv (t.values.foldl (fun inv d ↦ inv.restore d) inv) where
  written mac hmac := by
    obtain ⟨d, hd, hcanonical⟩ := DeviceTable.mem_addresses_iff.1 hmac
    cases hlast : lastOf? mac t.values with
    | none => exact absurd hcanonical (lastOf?_eq_none_iff.1 hlast d hd)
    | some d =>
      obtain ⟨hmem, hcanonical⟩ := of_lastOf? hlast
      exact ⟨d, hmem, hcanonical, rfl, by rw [get?_foldl_restore, hlast]; rfl⟩
  kept mac hmac := by
    have hlast : lastOf? mac t.values = none := lastOf?_eq_none_iff.2 fun d hd hcanonical ↦
      hmac (DeviceTable.mem_addresses_iff.2 ⟨d, hd, hcanonical⟩)
    rw [get?_foldl_restore, hlast, Option.map_none, Option.none_or]

/-- The command that loads a snapshot reports the number. -/
theorem snapshot_of_load {n : Node Archive} {c : Command} (now : Time.Instant)
    (hwords : c.words = "devices" :: "load" :: file.toList)
    (hload : n.inventory.load file n.site = .ok (k, inv')) : Handler.snapshot now c n =
      ({ c with result := "loaded " ++ toString k ++ " devices", status := .ok },
        { n with inventory := inv' }) := by
  have hact : Handler.snapshotAction now c.words n =
      some (.ok ("loaded " ++ toString k ++ " devices", { n with inventory := inv' })) := by
    cases file <;> simp [Handler.snapshotAction, hwords, hload, Except.map]
  rw [Handler.snapshot, hact]

/-- Loading a snapshot stores one device for every address that can be read in its table, the last
one, and nothing else. The number that it gives, and that the command for it reports, is that of all
entries of the table: the devices with such an address, as often as it occurs, and those without.
So it is the number of addresses at which a device was stored exactly if every address of the table
can be read and none occurs in it twice, and too large otherwise. -/
theorem count_of_load (hload : inv.load file a = .ok (k, inv')) :
    ∃ t, a.readTable file = .ok t ∧ Loaded t inv inv' ∧
      k = t.addresses.length + t.malformed ∧ t.addresses.dedup.length ≤ k ∧
      (k = t.addresses.dedup.length ↔
        (∀ d ∈ t.values, (Mac.canonical? d.mac).isSome = true) ∧ t.addresses.Nodup) ∧
      ∀ (now : Time.Instant) (c : Command) (n : Node Archive),
        c.words = "devices" :: "load" :: file.toList → n.inventory = inv → n.site = a →
        Handler.snapshot now c n =
          ({ c with result := "loaded " ++ toString k ++ " devices", status := .ok },
            { n with inventory := inv' }) := by
  obtain ⟨t, htable, rfl, rfl⟩ := load_eq_ok_iff.1 hload
  have hle : t.addresses.dedup.length ≤ t.addresses.length :=
    (List.dedup_sublist t.addresses).length_le
  refine ⟨t, htable, loaded_foldl_restore t inv, t.size_eq_add, ?_, t.size_eq_distinct_iff, ?_⟩
  · rw [t.size_eq_add]
    exact hle.trans (Nat.le_add_right _ _)
  · rintro now c n hwords rfl rfl
    exact snapshot_of_load now hwords hload

/-- A table with two spellings of one address and with an address that is none. -/
def smudged : DeviceTable :=
  .ofList [("1", { mac := "00-60-E9-00-00-01" }), ("2", { mac := "0060e9000001" }),
    ("3", { mac := "00-60-E9" })]

/-- Three devices are reported, one was stored. -/
theorem count_of_load_of_smudged : ∃ name a inv',
    shelf.save evening smudged = .ok (name, a) ∧ listened.load (some name) a = .ok (3, inv') ∧
      (∃ t, a.readTable (some name) = .ok t ∧ Loaded t listened inv' ∧
        t.addresses.dedup = ["00-60-E9-00-00-01"]) ∧
      ∀ c : Command, c.words = ["devices", "load", name] →
        (Handler.snapshot evening c ⟨{ owner := "root" }, listened, a⟩).1.result =
          "loaded 3 devices" := by
  have hnow : evening.Proper := ⟨by decide, .inl (by decide)⟩
  obtain ⟨name, a, hsave⟩ : ∃ name a, shelf.save evening smudged = .ok (name, a) :=
    ⟨_, _, Archive.save_eq_ok Archive.Contents.noConfusion (by decide) smudged⟩
  have hread : a.readTable (some name) = .ok (smudged.map Device.unlocked) := by
    obtain ⟨rfl, rfl⟩ := Archive.of_save hsave
    refine Archive.readTable_snapshot (Archive.plainName_snapshotName hnow)
      ((Table.get?_insert ..).trans (if_pos rfl)) ?_
    have hseen : ∀ d ∈ smudged.values, d.lastSeen = none := by decide +kernel
    intro d hd t ht
    rw [hseen d hd] at ht
    cases ht
  have hthree : (smudged.map Device.unlocked).size = 3 := by decide +kernel
  have hload : ∃ inv', listened.load (some name) a = .ok (3, inv') :=
    ⟨_, load_eq_ok_iff.2 ⟨_, hread, hthree, rfl⟩⟩
  obtain ⟨inv', hload⟩ := hload
  obtain ⟨t, ht, hloaded, -, -, -, hreport⟩ := count_of_load hload
  obtain rfl : smudged.map Device.unlocked = t := Except.ok.inj (hread.symm.trans ht)
  refine ⟨name, a, inv', hsave, hload, ⟨_, hread, hloaded, by decide +kernel⟩, fun c hwords ↦ ?_⟩
  rw [hreport evening c ⟨{ owner := "root" }, listened, a⟩ hwords rfl rfl]
  rfl

end Inventory

end Switchyard
