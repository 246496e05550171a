import Switchyard.Proofs.Inventory.Operation

/-!
# What a target names

A target names the device that has it as its hardware address, in any spelling, or else the first
one that has it as its address on the network. In a canonical inventory the device found stands
under its own address.

The lock of a device goes by its hardware address alone. Taking it changes nothing but the lock, and
giving it back restores the inventory exactly, since the lock was free when it was taken.

## Main results

* `Inventory.find?_eq`, `Inventory.contains_canonical` : the two ways of looking up a target.
* `Inventory.Canonical.atMac?_of_find?` : where the device found stands.
* `Inventory.isLocked_of_tryAcquire`, `Inventory.release_of_tryAcquire` : taking a lock and giving it
  back.
-/

namespace Switchyard.Inventory

variable {inv held : Inventory} {target mac : String} {d : Device}

/-! ### Two ways of looking up -/

theorem atMac?_of_isIpv4 (h : isIpv4 target = true) (inv : Inventory) :
    inv.atMac? target = none := by
  rw [atMac?, Mac.canonical?_of_isIpv4 h, Option.bind_none]

/-- A target names a device by its hardware address, else by its address on the network. -/
theorem find?_eq (target : String) (inv : Inventory) :
    inv.find? target = (inv.atMac? target <|> inv.atIp? target) := by
  unfold find?
  split
  next h => rw [atMac?_of_isIpv4 h]; rfl
  next => rfl

/-- The canonical spelling of a target is stored if a device has it as its hardware address. -/
theorem contains_canonical (target : String) (inv : Inventory) :
    inv.contains ((Mac.canonical? target).getD target) = (inv.atMac? target).isSome := by
  cases h : Mac.canonical? target with
  | none => rw [Option.getD_none, contains]
  | some mac => rw [Option.getD_some, contains, atMac?, atMac?, Mac.canonical?_canonical h, h]

/-- Only stored devices are found. -/
theorem exists_get?_of_find? (h : inv.find? target = some d) :
    ∃ mac, inv.devices.get? mac = some d := by
  rw [find?_eq] at h
  cases hmac : inv.atMac? target with
  | some d' =>
    rw [hmac] at h
    obtain rfl := Option.some.inj h
    obtain ⟨mac, -, hd⟩ := Option.bind_eq_some_iff.1 hmac
    exact ⟨mac, hd⟩
  | none =>
    rw [hmac] at h
    exact (Table.mem_values_iff ..).1 (List.mem_of_find?_eq_some h)

/-- In a canonical inventory the device found stands under its own address. -/
theorem Canonical.atMac?_of_find? (hinv : inv.Canonical) (h : inv.find? target = some d) :
    inv.devices.get? d.mac = some d ∧ inv.atMac? d.mac = some d := by
  obtain ⟨mac, hd⟩ := exists_get?_of_find? h
  obtain ⟨rfl, hcanonical⟩ := hinv mac d hd
  exact ⟨hd, by rw [atMac?, hcanonical, Option.bind_some, hd]⟩

/-! ### Locks -/

theorem isLocked_of_atMac? (h : inv.atMac? mac = some d) : inv.isLocked mac = .ok d.locked := by
  rw [isLocked, find, find?_eq, h]
  rfl

/-- A lock that is taken was free, and nothing but the lock is changed. -/
theorem exists_of_tryAcquire (h : inv.tryAcquire mac = .ok (true, held)) :
    ∃ key d, Mac.canonical? mac = some key ∧ inv.devices.get? key = some d ∧ d.locked = false ∧
      held = { inv with devices := inv.devices.insert key { d with locked := true } } := by
  rw [tryAcquire, atMac?, lock, setLock, modify] at h
  cases hmac : Mac.canonical? mac with
  | none => rw [hmac] at h; cases h
  | some key =>
    cases hd : inv.devices.get? key with
    | none => simp [hmac, hd] at h
    | some d =>
      cases hlocked : d.locked with
      | true => simp [hmac, hd, hlocked] at h
      | false => exact ⟨key, d, rfl, hd, hlocked, by simpa [hmac, hd, hlocked, Except.map] using h.symm⟩

theorem exists_tryAcquire (hd : inv.atMac? mac = some d) (hfree : d.locked = false) :
    ∃ held, inv.tryAcquire mac = .ok (true, held) := by
  obtain ⟨key, hmac, hkey⟩ := Option.bind_eq_some_iff.1 hd
  rw [tryAcquire, hd]
  simp only [hfree, lock, setLock, modify, hmac, hkey]
  exact ⟨_, rfl⟩

/-- While a lock is held the device is locked. -/
theorem isLocked_of_tryAcquire (h : inv.tryAcquire mac = .ok (true, held)) :
    held.isLocked mac = .ok true := by
  obtain ⟨key, d, hmac, -, -, rfl⟩ := exists_of_tryAcquire h
  refine isLocked_of_atMac? (d := { d with locked := true }) ?_
  rw [atMac?, hmac, Option.bind_some, Table.get?_insert, if_pos rfl]

/-- A lock that was taken can be given back, and then the inventory is as it was. -/
theorem release_of_tryAcquire (h : inv.tryAcquire mac = .ok (true, held)) :
    held.release mac = .ok inv := by
  obtain ⟨key, d, hmac, hd, hfree, rfl⟩ := exists_of_tryAcquire h
  have hback : (inv.devices.insert key { d with locked := true }).insert key
      { d with locked := false } = inv.devices := by
    refine Table.ext_get? fun k ↦ ?_
    rw [Table.get?_insert, Table.get?_insert]
    split
    next hk => rw [hk, hd, ← hfree]
    next => rfl
  simp only [release, unlock, setLock, modify, hmac, Table.get?_insert, if_true, hback, Except.map]

end Switchyard.Inventory
