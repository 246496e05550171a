import Switchyard.Proofs.Inventory.Restoring

/-!
# One identity per device

All spellings of an address have one canonical text, which is itself a spelling: seventeen
characters, dashes and upper-case digits. In every inventory that a node can come to have, a device
stands under such a text. So whoever asks for a device that is stored, or has it changed, may spell
its address in any way: the answer and the change are the same.

## Main definitions

* `Inventory.Resolves` : an inventory takes a text for the address of a device.

## Main results

* `Mac.canonical?_of_spelling` : all spellings of an address have one canonical text.
* `Inventory.resolves_of_canonical?` : what is asked about a device depends on the canonical text.
* `Inventory.one_identity_per_address` : devices are the same under all spellings.
-/

namespace Switchyard

open Text

namespace Mac

variable {m : Mac} {s t : String}

/-- All spellings of an address have the same canonical text. -/
theorem canonical?_of_spelling (h : m.Spelling s) : canonical? s = some m.text := by
  rw [canonical?, parse?_of_spelling h, Option.map_some]

theorem length_text (m : Mac) : m.text.toList.length = 17 := by
  rw [toList_text]
  obtain ⟨_ | ⟨a, _ | ⟨b, _ | ⟨c, _ | ⟨d, _ | ⟨e, _ | ⟨f, _ | ⟨g, ns⟩⟩⟩⟩⟩⟩⟩, h⟩ := m
  all_goals first | rfl | simp at h

/-- A canonical text has dashes and upper-case digits. -/
theorem forall_mem_text (m : Mac) :
    ∀ c ∈ m.text.toList, c = '-' ∨ c ∈ "0123456789ABCDEF".toList := by
  have hdigit : ∀ d < 16, hexDigit d ∈ "0123456789ABCDEF".toList := by decide
  intro c hc
  rw [toList_text] at hc
  refine (mem_of_mem_intercalate hc).imp_right fun ⟨w, hw, hcw⟩ ↦ ?_
  obtain ⟨n, -, rfl⟩ := List.mem_map.1 hw
  rw [hexByte_eq, List.mem_cons, List.mem_singleton] at hcw
  rcases hcw with rfl | rfl
  · exact hdigit _ (Nat.mod_lt _ (by decide))
  · exact hdigit _ (Nat.mod_lt _ (by decide))

/-- Every canonical text is that of an address. -/
theorem exists_of_canonical? (h : canonical? s = some t) :
    ∃ m : Mac, (∀ n ∈ m.octets, n < 256) ∧ m.text = t := by
  obtain ⟨m, hm, rfl⟩ := Option.map_eq_some_iff.1 h
  exact ⟨m, octets_lt_of_parse? hm, rfl⟩

end Mac

namespace Inventory

/-- An inventory takes a text for the address of the device `d` that stands under `mac`, whatever it
is asked about this device or has to change about it. -/
structure Resolves (inv : Inventory) (mac : String) (d : Device) (s : String) : Prop where
  find : inv.find s = .ok d
  contains : inv.contains s = true
  update : ∀ f, inv.update s f = .ok (f d, Effect.make mac { device := f d } inv)
  lock : inv.lock s =
    .ok (Effect.make mac { device := { d with locked := true }, published := false } inv)
  unlock : inv.unlock s =
    .ok (Effect.make mac { device := { d with locked := false }, published := false } inv)
  release : inv.release s =
    .ok (Effect.make mac { device := { d with locked := false }, published := false } inv)
  isLocked : inv.isLocked s = .ok d.locked
  tryAcquire : inv.tryAcquire s =
    .ok (if d.locked then (false, inv)
      else (true, Effect.make mac { device := { d with locked := true }, published := false } inv))

variable {inv : Inventory} {mac s : String} {d : Device}

theorem setLock_of_canonical? (hs : Mac.canonical? s = some mac)
    (hd : inv.devices.get? mac = some d) (locked : Bool) : inv.setLock locked s =
      .ok (Effect.make mac { device := { d with locked }, published := false } inv) := by
  rw [setLock, modify_eq, hs, Option.bind_some, hd]
  rfl

/-- Whatever is asked about a device that is stored, only the canonical text of its address
matters. -/
theorem resolves_of_canonical? (hs : Mac.canonical? s = some mac)
    (hd : inv.devices.get? mac = some d) : inv.Resolves mac d s := by
  have hat : inv.atMac? s = some d := by rw [atMac?, hs, Option.bind_some, hd]
  -- a text with a canonical text is no address on the network
  have hnet : isIpv4 s = false := by
    rw [← Bool.not_eq_true]
    intro hnet
    rw [Mac.canonical?_of_isIpv4 hnet] at hs
    cases hs
  have hfind : inv.find s = .ok d := by
    simp [find, find?, hnet, hat]
  refine ⟨hfind, by rw [contains, hat]; rfl, fun f ↦ ?_, setLock_of_canonical? hs hd true,
    setLock_of_canonical? hs hd false, setLock_of_canonical? hs hd false, ?_, ?_⟩
  · rw [update_eq, hs, Option.bind_some, hd]
    rfl
  · rw [isLocked, hfind]
    rfl
  · simp only [tryAcquire, hat, lock, setLock_of_canonical? hs hd]
    split <;> rfl

/-- All spellings of an address have one canonical text, of seventeen characters, dashes and
upper-case digits, which is its own canonical text. In an inventory that a node can come to have,
every device stands under the canonical text of an address, and it is taken for the same device
under all spellings of this address. -/
theorem one_identity_per_address :
    (∀ (m : Mac) (s : String), m.Spelling s → Mac.canonical? s = some m.text) ∧
    (∀ m : Mac, (∀ n ∈ m.octets, n < 256) → m.Spelling m.text ∧ m.text.toList.length = 17 ∧
      ∀ c ∈ m.text.toList, c = '-' ∨ c ∈ "0123456789ABCDEF".toList) ∧
    (∀ s t, Mac.canonical? s = some t → Mac.canonical? t = some t) ∧
    ∀ inv : Inventory, inv.Reached → ∀ mac d, inv.devices.get? mac = some d →
      ∃ m : Mac, (∀ n ∈ m.octets, n < 256) ∧ m.text = mac ∧ d.mac = mac ∧
        ∀ s, m.Spelling s → inv.Resolves mac d s := by
  refine ⟨fun m s ↦ Mac.canonical?_of_spelling, fun m hm ↦ ?_, fun s t ↦ Mac.canonical?_canonical,
    fun inv hinv mac d hd ↦ ?_⟩
  · exact ⟨Mac.spelling_text hm, m.length_text, m.forall_mem_text⟩
  · obtain ⟨hmac, hcanonical⟩ := hinv.canonical mac d hd
    obtain ⟨m, hm, rfl⟩ := Mac.exists_of_canonical? hcanonical
    refine ⟨m, hm, rfl, hmac, fun s hs ↦ ?_⟩
    exact resolves_of_canonical? (Mac.canonical?_of_spelling hs) hd

/-- The address of the recorded device. -/
def recordedMac : Mac := ⟨[0x00, 0x60, 0xE9, 0x00, 0x00, 0x01], rfl⟩

/-- The address with marks of both kinds and digits of both cases between blanks. -/
theorem spelling_mixed : recordedMac.Spelling "\t00:60-e9:00-00:01 " := by
  refine ⟨['\t'], "00:60-e9:00-00:01".toList, [' '], by decide,
    List.forall_mem_singleton.2 rfl, List.forall_mem_singleton.2 rfl, .inl ?_⟩
  exact .next (w := ['0', '0']) (g := [':']) (.mk (by decide) (by decide) (by decide)) (.inl rfl) <|
    .next (w := ['6', '0']) (g := ['-']) (.mk (by decide) (by decide) (by decide)) (.inr rfl) <|
    .next (w := ['e', '9']) (g := [':']) (.mk (by decide) (by decide) (by decide)) (.inl rfl) <|
    .next (w := ['0', '0']) (g := ['-']) (.mk (by decide) (by decide) (by decide)) (.inr rfl) <|
    .next (w := ['0', '0']) (g := [':']) (.mk (by decide) (by decide) (by decide)) (.inl rfl) <|
    .last (.mk (by decide) (by decide) (by decide))

/-- The address as bare digits. -/
theorem spelling_bare : recordedMac.Spelling "0060E9000001" := by
  refine ⟨[], "0060E9000001".toList, [], by decide, List.forall_mem_nil _,
    List.forall_mem_nil _, .inr ?_⟩
  exact .next (w := ['0', '0']) (g := []) (.mk (by decide) (by decide) (by decide)) rfl <|
    .next (w := ['6', '0']) (g := []) (.mk (by decide) (by decide) (by decide)) rfl <|
    .next (w := ['E', '9']) (g := []) (.mk (by decide) (by decide) (by decide)) rfl <|
    .next (w := ['0', '0']) (g := []) (.mk (by decide) (by decide) (by decide)) rfl <|
    .next (w := ['0', '0']) (g := []) (.mk (by decide) (by decide) (by decide)) rfl <|
    .last (.mk (by decide) (by decide) (by decide))

/-- Under both spellings the recorded device is found, and its lock is there to be taken. -/
theorem one_identity_of_recorded : ∃ d, recorded.devices.get? "00-60-E9-00-00-01" = some d ∧
    recorded.find "\t00:60-e9:00-00:01 " = .ok d ∧ recorded.find "0060E9000001" = .ok d ∧
    recorded.tryAcquire "\t00:60-e9:00-00:01 " = recorded.tryAcquire "0060E9000001" := by
  obtain ⟨-, -, -, hstored⟩ := one_identity_per_address
  obtain ⟨d, hd⟩ : ∃ d, recorded.devices.get? "00-60-E9-00-00-01" = some d :=
    Option.isSome_iff_exists.1 (by decide +kernel)
  obtain ⟨m, hm, htext, -, hresolves⟩ := hstored recorded reached_recorded _ d hd
  have hmac : m = recordedMac := by
    have hread : Mac.parse? "00-60-E9-00-00-01" = some recordedMac := by decide
    rw [← htext, Mac.parse?_text hm] at hread
    exact Option.some.inj hread
  subst hmac
  have hmixed := hresolves _ spelling_mixed
  have hbare := hresolves _ spelling_bare
  exact ⟨d, hd, hmixed.find, hbare.find, hmixed.tryAcquire.trans hbare.tryAcquire.symm⟩

end Inventory

end Switchyard
