import Switchyard.Proofs.Device.Readable
import Switchyard.Proofs.Inventory.Identity

/-!
# Which texts are taken for addresses

An inventory takes exactly the readable texts for addresses. A report under any other text is not
stored, and no such text names a stored device by its hardware address. But a readable text need not
spell an address: what follows the sixth part is not looked at, missing parts are zero, and numerals
need not have two digits. Whatever is asked or done under such a text concerns the device whose
address is read from it, and a report under such a text is a report of this device.

## Main definitions

* `Inventory.Ignores` : an inventory takes a text for no address.

## Main results

* `Inventory.ignores_of_canonical?`, `Inventory.insert_of_canonical?` : texts that are read as no
  address, and reports whose address is read.
* `Inventory.addresses_taken` : which texts are taken for addresses, and which of them spell one.
-/

namespace Switchyard

open Text

namespace Inventory

/-- An inventory takes a text for no address: a report under it is not stored, and it names no
device that is stored but by an address on the network. -/
structure Ignores (inv : Inventory) (s : String) : Prop where
  insert : ∀ now (d : Device), d.mac = s → inv.insert now d = (false, inv)
  find : inv.find? s = inv.atIp? s
  contains : inv.contains s = false
  update : ∀ f, inv.update s f = .error (notFound s)
  lock : inv.lock s = .error (notFound s)
  unlock : inv.unlock s = .error (notFound s)
  release : inv.release s = .error (notFound s)
  tryAcquire : inv.tryAcquire s = .error (notFound s)

variable {inv : Inventory} {m : Mac} {mac s : String} {d : Device}

/-- What is read as no address is taken for none. -/
theorem ignores_of_canonical? (h : Mac.canonical? s = none) (inv : Inventory) : inv.Ignores s := by
  have hat : inv.atMac? s = none := by rw [atMac?, h, Option.bind_none]
  have hmodify (f : Device → Device) : inv.modify s f = .error (notFound s) := by
    rw [modify_eq, h, Option.bind_none]
  have hlock (locked : Bool) : inv.setLock locked s = .error (notFound s) := by
    rw [setLock, hmodify]
    rfl
  refine ⟨fun now d hd ↦ ?_, ?_, ?_, fun f ↦ ?_, hlock true, hlock false, hlock false, ?_⟩
  · rw [Inventory.insert, hd, h]
  · rw [find?_eq, hat]
    rfl
  · rw [contains, hat]
    rfl
  · rw [update, hmodify]
    rfl
  · rw [tryAcquire, hat]

/-- A report whose address is read is a report under the canonical text, and it is accepted if the
device is new. -/
theorem insert_of_canonical? (hd : Mac.canonical? d.mac = some mac) (now : Time.Instant)
    (inv : Inventory) : inv.insert now d = inv.insert now { d with mac } ∧
      (inv.devices.get? mac = none → (inv.insert now d).1 = true) := by
  have hread : inv.insert now d = inv.insertAs now mac d := by rw [Inventory.insert, hd]
  have hcanonical : inv.insert now { d with mac } = inv.insertAs now mac { d with mac } := by
    rw [Inventory.insert, Mac.canonical?_canonical hd]
  refine ⟨hread.trans hcanonical.symm, fun hnew ↦ ?_⟩
  rw [hread, insertAs, hnew]

/-- A text is taken for an address exactly if it is readable, and a readable text spells an address
exactly if it is neat. Under any other text nothing is stored, and no device is found by its
hardware address. Under a readable text, neat or not, a report is stored as one of the device whose
address is read, and if this device is stored then the text names it. -/
theorem addresses_taken (s : String) :
    (∀ t, Mac.canonical? s = some t ↔
      ∃ m : Mac, m.Readable (trimChars s.toList) ∧ m.text = t) ∧
    (∀ m : Mac, m.Spelling s ↔
      m.Readable (trimChars s.toList) ∧ Mac.Neat (trimChars s.toList)) ∧
    ∀ inv : Inventory,
      ((∀ m : Mac, ¬m.Readable (trimChars s.toList)) → inv.Ignores s) ∧
      ∀ m : Mac, m.Readable (trimChars s.toList) →
        (∀ now (d : Device), d.mac = s →
          inv.insert now d = inv.insert now { d with mac := m.text } ∧
            (inv.devices.get? m.text = none → (inv.insert now d).1 = true)) ∧
        ∀ d, inv.devices.get? m.text = some d → inv.Resolves m.text d s := by
  have hread (t : String) : Mac.canonical? s = some t ↔
      ∃ m : Mac, m.Readable (trimChars s.toList) ∧ m.text = t := by
    rw [Mac.canonical?, Option.map_eq_some_iff]
    simp only [Mac.parse?_eq_some_iff]
  refine ⟨hread, fun m ↦ Mac.spelling_iff, fun inv ↦ ⟨fun hnone ↦ ?_, fun m hm ↦ ?_⟩⟩
  · refine ignores_of_canonical? (Option.eq_none_iff_forall_ne_some.2 fun t ht ↦ ?_) inv
    obtain ⟨m, hm, -⟩ := (hread t).1 ht
    exact hnone m hm
  · have hs : Mac.canonical? s = some m.text := (hread _).2 ⟨m, hm, rfl⟩
    refine ⟨fun now d hd ↦ ?_, fun d ↦ resolves_of_canonical? hs⟩
    subst hd
    exact insert_of_canonical? hs now inv

/-- Seventeen characters with numerals of one digit and a seventh part are taken for the address of
the recorded device, though they do not spell it. Five octets are taken for no address. -/
theorem addresses_taken_of_sloppy :
    Mac.canonical? "0-60-e9-0-0-1-zzz" = some "00-60-E9-00-00-01" ∧
      (∀ m : Mac, ¬m.Spelling "0-60-e9-0-0-1-zzz") ∧
      (∃ d, recorded.devices.get? "00-60-E9-00-00-01" = some d ∧
        recorded.Resolves "00-60-E9-00-00-01" d "0-60-e9-0-0-1-zzz") ∧
      recorded.Ignores "00-60-E9-00-00" := by
  obtain ⟨hread, hspelling, htaken⟩ := addresses_taken "0-60-e9-0-0-1-zzz"
  obtain ⟨hread', -, hignored⟩ := addresses_taken "00-60-E9-00-00"
  have hsloppy : Mac.canonical? "0-60-e9-0-0-1-zzz" = some "00-60-E9-00-00-01" := by decide
  refine ⟨hsloppy, fun m hm ↦ ?_, ?_, (hignored recorded).1 fun m hm ↦ ?_⟩
  · have hmarked := ((hspelling m).1 hm).2.2 (by decide)
    exact absurd ((hmarked 1 '-' (by decide)).1 rfl) (by decide)
  · obtain ⟨d, hd⟩ : ∃ d, recorded.devices.get? "00-60-E9-00-00-01" = some d :=
      Option.isSome_iff_exists.1 (by decide +kernel)
    obtain ⟨m, hm, htext⟩ := (hread _).1 hsloppy
    have hresolves := ((htaken recorded).2 m hm).2
    rw [htext] at hresolves
    exact ⟨d, hd, hresolves d hd⟩
  · have hnone : Mac.canonical? "00-60-E9-00-00" = none := by decide
    rw [(hread' _).2 ⟨m, hm, rfl⟩] at hnone
    cases hnone

end Inventory

end Switchyard
