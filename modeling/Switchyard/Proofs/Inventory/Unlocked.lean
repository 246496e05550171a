import Switchyard.Proofs.Inventory.Upkeep
import Switchyard.Proofs.Table

/-!
# Reports without their locks

Whether a report is accepted does not depend on any lock, and a report of a known device does not
touch the lock that the device has. So reports may be stripped of their locks before they are
merged: the same ones are accepted, the inventory is the same up to locks, and a device that was
known keeps its lock either way. Only a device that is new takes over the lock of its report.

## Main definitions

* `Device.unlocked`, `Inventory.unlocked` : without locks.

## Main results

* `Inventory.insertAll_unlocked` : merging without any locks.
* `Inventory.insertAll_map_unlocked` : merging reports stripped of their locks.
* `Inventory.get?_insertAll_map_unlocked` : the devices that were known.
* `Inventory.insertAll_map_unlocked_of_known` : when it makes no difference at all.
-/

namespace Switchyard

/-- A device without its lock. -/
def Device.unlocked (d : Device) : Device := { d with locked := false }

theorem Device.unlocked_of_not_locked {d : Device} (h : ¬d.locked) : d.unlocked = d := by
  rw [unlocked, ← Bool.eq_false_iff.2 h]

namespace Inventory

variable {inv : Inventory} {now : Time.Instant} {mac : String} {d : Device}

/-- An inventory without locks, neither in what is stored nor in what is on the feed. -/
def unlocked (inv : Inventory) : Inventory where
  devices := inv.devices.map Device.unlocked
  alerts := inv.alerts
  feed := inv.feed.map (·.map Device.unlocked)

theorem store_unlocked (d : Device) (inv : Inventory) :
    inv.unlocked.store d.unlocked = (inv.store d).unlocked := by
  simp only [store, unlocked, Table.map_insert, Device.unlocked]

theorem publish_unlocked (d : Device) (inv : Inventory) :
    inv.unlocked.publish d.unlocked = (inv.publish d).unlocked := by
  cases hfeed : inv.feed <;> simp [publish, unlocked, hfeed]

/-! ### One report -/

/-- A report is merged in the same way where there are no locks. -/
theorem insertAs_unlocked (now : Time.Instant) (mac : String) (d : Device) (inv : Inventory) :
    inv.unlocked.insertAs now mac d.unlocked =
      ((inv.insertAs now mac d).1, (inv.insertAs now mac d).2.unlocked) := by
  have hget : inv.unlocked.devices.get? mac = (inv.devices.get? mac).map Device.unlocked :=
    Table.get?_map _ _ _
  let fresh : Device := { d with mac, lastSeen := some now }
  cases hd : inv.devices.get? mac with
  | none =>
    rw [hd] at hget
    simp only [insertAs, hget, hd, Option.map_none]
    have hstored := congrArg (fun inv' ↦ (raise (.newDevice mac) inv').publish fresh.unlocked)
      (store_unlocked fresh inv)
    exact congrArg (true, ·) (hstored.trans (publish_unlocked fresh (raise _ (inv.store fresh))))
  | some stored =>
    rw [hd] at hget
    have haccepts : accepts stored.unlocked d.unlocked = accepts stored d := rfl
    let kept : Device := { fresh with locked := stored.locked }
    simp only [insertAs, hget, hd, Option.map_some, haccepts]
    split
    · have hstored := congrArg (publish kept.unlocked) (store_unlocked kept inv)
      exact congrArg (true, ·) (hstored.trans (publish_unlocked kept (inv.store kept)))
    · rfl

theorem insert_unlocked (now : Time.Instant) (d : Device) (inv : Inventory) :
    inv.unlocked.insert now d.unlocked =
      ((inv.insert now d).1, (inv.insert now d).2.unlocked) := by
  rw [insert, insert, Device.unlocked]
  cases Mac.canonical? d.mac with
  | none => rfl
  | some mac => exact insertAs_unlocked now mac d inv

/-- A report of a known device is merged without regard to its lock. -/
theorem insert_unlocked_of_known
    (h : d.locked → ∀ mac ∈ Mac.canonical? d.mac, (inv.devices.get? mac).isSome) :
    inv.insert now d.unlocked = inv.insert now d := by
  by_cases hlocked : d.locked
  · rw [insert, insert, Device.unlocked]
    cases hmac : Mac.canonical? d.mac with
    | none => rfl
    | some mac =>
      obtain ⟨stored, hstored⟩ := Option.isSome_iff_exists.1 (h hlocked mac hmac)
      simp only [insertAs, hstored]
      rfl
  · rw [Device.unlocked_of_not_locked hlocked]

/-! ### Many reports -/

/-- Reports are merged in the same way where there are no locks. -/
theorem insertAll_unlocked (now : Time.Instant) (ds : List Device) (inv : Inventory) :
    inv.unlocked.insertAll now (ds.map Device.unlocked) =
      ((inv.insertAll now ds).1, (inv.insertAll now ds).2.unlocked) := by
  induction ds generalizing inv with
  | nil => rfl
  | cons d ds ih => simp only [List.map_cons, insertAll, insert_unlocked, ih]

/-- Reports stripped of their locks are accepted as they would be with them, and the inventory is
the same up to locks. -/
theorem insertAll_map_unlocked (now : Time.Instant) (ds : List Device) (inv : Inventory) :
    (inv.insertAll now (ds.map Device.unlocked)).1 = (inv.insertAll now ds).1 ∧
      (inv.insertAll now (ds.map Device.unlocked)).2.unlocked =
        (inv.insertAll now ds).2.unlocked := by
  have htwice : (ds.map Device.unlocked).map Device.unlocked = ds.map Device.unlocked := by
    rw [List.map_map]
    rfl
  have hstripped := insertAll_unlocked now (ds.map Device.unlocked) inv
  rw [htwice, insertAll_unlocked] at hstripped
  exact ⟨(Prod.mk.inj hstripped).1.symm, (Prod.mk.inj hstripped).2.symm⟩

/-- Merging reports leaves the lock of a known device as it is. -/
theorem exists_get?_insertAll (hd : inv.devices.get? mac = some d) (now : Time.Instant)
    (ds : List Device) :
    ∃ d', (inv.insertAll now ds).2.devices.get? mac = some d' ∧ d'.locked = d.locked := by
  obtain ⟨d', hd', -, hlocked⟩ := exists_get?_after hd (ds.map (.insert now))
  rw [after_map_insert] at hd'
  refine ⟨d', hd', hlocked fun op hop ↦ ?_⟩
  obtain ⟨report, -, rfl⟩ := List.mem_map.1 hop
  exact id

/-- A device that was known is the same after either. -/
theorem get?_insertAll_map_unlocked (hd : (inv.devices.get? mac).isSome) (now : Time.Instant)
    (ds : List Device) :
    (inv.insertAll now (ds.map Device.unlocked)).2.devices.get? mac =
      (inv.insertAll now ds).2.devices.get? mac := by
  obtain ⟨d, hd⟩ := Option.isSome_iff_exists.1 hd
  obtain ⟨d₁, hd₁, hlocked₁⟩ := exists_get?_insertAll hd now (ds.map Device.unlocked)
  obtain ⟨d₂, hd₂, hlocked₂⟩ := exists_get?_insertAll hd now ds
  have hsame : d₁.unlocked = d₂.unlocked := by
    have hinv := congrArg (·.devices.get? mac) (insertAll_map_unlocked now ds inv).2
    simp only [unlocked, Table.get?_map, hd₁, hd₂] at hinv
    exact Option.some.inj hinv
  have hback (e : Device) : e = { e.unlocked with locked := e.locked } := rfl
  rw [hd₁, hd₂, hback d₁, hback d₂, hsame, hlocked₁, hlocked₂]

/-- Where every locked report is of a known device, its lock makes no difference. -/
theorem insertAll_map_unlocked_of_known (now : Time.Instant) {ds : List Device}
    (h : ∀ d ∈ ds, d.locked → ∀ mac ∈ Mac.canonical? d.mac, (inv.devices.get? mac).isSome) :
    inv.insertAll now (ds.map Device.unlocked) = inv.insertAll now ds := by
  induction ds generalizing inv with
  | nil => rfl
  | cons d ds ih =>
    obtain ⟨hd, hds⟩ := List.forall_mem_cons.1 h
    have hkept : ∀ e ∈ ds, e.locked → ∀ mac ∈ Mac.canonical? e.mac,
        ((inv.insert now d).2.devices.get? mac).isSome := by
      intro e he hlocked mac hmac
      obtain ⟨stored, hstored⟩ := Option.isSome_iff_exists.1 (hds e he hlocked mac hmac)
      obtain ⟨stored', hstored', -⟩ := exists_get?_insertAll hstored now [d]
      exact Option.isSome_iff_exists.2 ⟨stored', hstored'⟩
    simp only [List.map_cons, insertAll, insert_unlocked_of_known hd, ih hkept]

end Inventory

end Switchyard
