import Switchyard.Proofs.Device.DeviceTable
import Switchyard.Proofs.Inventory.Feed
import Switchyard.Proofs.Inventory.RollCall
import Switchyard.Proofs.Inventory.Unlocked

/-!
# The feed mirrors the inventory

Whoever listened to an inventory from its beginning knows it: the newest entry of each device on the
feed is what is stored of it, up to its lock. A deed that stores a device puts it on the feed as it
is stored, under the address that it is stored under, and a deed on a lock, which tells nobody,
changes nothing else. A roll call puts every device on the feed, since a device is either marked or
counted in it.

## Main definitions

* `Inventory.Deed` : what is done to an inventory, each deed at one go.
* `Inventory.Mirrored` : the feed tells what is stored.
* `Inventory.Deed.Tells` : how much of a deed is heard of.

## Main results

* `Inventory.Mirrored.apply`, `Inventory.Mirrored.after` : operations keep the feed a mirror.
* `Inventory.exists_mem_publishedBy_operations` : a roll call puts every device on the feed.
* `Inventory.feed_mirrors` : deeds on an inventory that started empty.
-/

namespace Switchyard.Inventory

/-- The newest device with each address is what is stored of it, up to its lock, and nothing else is
stored. -/
def Mirrored (inv : Inventory) : Prop :=
  ∃ feed, inv.feed = some feed ∧
    (DeviceTable.encode feed).map Device.unlocked = inv.devices.map Device.unlocked

/-- What is done to an inventory: an operation, such as a report that is merged or a lock that is
taken or given back, a change of a device in place that leaves it its address, or a roll call, as
every liveness check is one. -/
inductive Deed where
  | operate (op : Operation)
  | update (target : String) (f : Device → Device) (mac_eq : ∀ d, (f d).mac = d.mac)
  | check (r : RollCall)

namespace Deed

/-- The inventory after a deed. Devices that are not known are not changed. -/
def apply : Deed → Inventory → Inventory
  | .operate op, inv => op.apply inv
  | .update target f _, inv => ((inv.update target f).toOption.map (·.2)).getD inv
  | .check r, inv => (r.hold inv).2

/-- Whether just as many devices are told of a deed as have to be: one if it stores or changes a
device, none if it is refused or about a lock, and each one at least once in a roll call with an
interface whose moment is new to all devices. -/
def Tells (inv : Inventory) (told : List Device) : Deed → Prop
  | .operate (.insert now report) => told.length = (inv.insert now report).1.toNat
  | .operate (.see stamp s) => told.length = (inv.markSeen stamp s).1.toNat
  | .operate (.miss mac) => told.length = (inv.markMissed mac).1.isSome.toNat
  | .operate (.setLock ..) => told = []
  | .operate (.tryAcquire _) => told = []
  | .update target f _ => told.length = (inv.update target f).toOption.isSome.toNat
  | .check r => ∀ probes, r.probes = .ok probes → probes ≠ [] →
      (∀ mac d, inv.devices.get? mac = some d → d.lastSeen ≠ some r.stamp) →
      ∀ mac d, inv.devices.get? mac = some d → ∃ e ∈ told, e.mac = mac

end Deed

/-- The inventory after some deeds. -/
def afterDeeds : List Deed → Inventory → Inventory
  | [], inv => inv
  | u :: us, inv => afterDeeds us (u.apply inv)

variable {inv : Inventory} {mac : String} {d : Device} {op : Operation} {ops : List Operation}
  {e : Effect} {r : RollCall}

/-! ### Effects -/

theorem Mirrored.of_empty (hdevices : inv.devices = .empty) (hfeed : inv.feed = some []) :
    inv.Mirrored :=
  ⟨[], hfeed, by rw [hdevices]; rfl⟩

/-- A device that is put on the feed as it is stored. -/
theorem Mirrored.make_of_published (h : inv.Mirrored) (hpublished : e.published = true)
    (hmac : e.device.mac = mac) : (e.make mac inv).Mirrored := by
  obtain ⟨feed, hfeed, hmirror⟩ := h
  refine ⟨feed ++ [e.device], by simp [Effect.make, hpublished, hfeed], ?_⟩
  have hencode : DeviceTable.encode (feed ++ [e.device]) =
      (DeviceTable.encode feed).insert mac e.device := by
    simp [DeviceTable.encode, Table.ofList, hmac]
  rw [hencode, Table.map_insert, hmirror, Effect.make, Table.map_insert]

/-- A device of which only the lock is changed need not be on the feed. -/
theorem Mirrored.make_of_not_published (h : inv.Mirrored) (hpublished : e.published = false)
    (hd : inv.devices.get? mac = some d) (hsame : e.device.unlocked = d.unlocked) :
    (e.make mac inv).Mirrored := by
  obtain ⟨feed, hfeed, hmirror⟩ := h
  refine ⟨feed, by simp [Effect.make, hpublished, hfeed], ?_⟩
  refine hmirror.trans (Table.ext_get? fun k ↦ ?_)
  rw [Effect.make, Table.map_insert, Table.get?_insert, Table.get?_map, hsame]
  split
  next hk => rw [hk, hd]; rfl
  next => rfl

theorem Canonical.make (h : inv.Canonical) (hmac : e.device.mac = mac)
    (hcanonical : Mac.canonical? mac = some mac) : (e.make mac inv).Canonical := by
  intro m d hd
  rw [Effect.make, Table.get?_insert] at hd
  split at hd
  next hm =>
    obtain rfl := Option.some.inj hd
    exact ⟨hmac.trans hm.symm, hm ▸ hcanonical⟩
  next => exact h m d hd

/-! ### Operations -/

/-- An operation that tells nobody changes only a lock. -/
theorem Operation.unlocked_edit (h : (op.edit mac d).published = false) :
    (op.edit mac d).device.unlocked = d.unlocked := by
  cases op with
  | setLock => rfl
  | tryAcquire => rfl
  | _ => cases h

theorem Mirrored.apply (h : inv.Mirrored) (hcanonical : inv.Canonical) (op : Operation) :
    (op.apply inv).Mirrored := by
  cases hch : op.change? inv with
  | none => rwa [apply_of_change?_eq_none hch]
  | some ch =>
    obtain ⟨mac, e⟩ := ch
    obtain ⟨-, he⟩ := Operation.change?_eq_some_iff.1 hch
    rw [apply_of_change? hch]
    cases hpublished : e.published with
    | true =>
      exact h.make_of_published hpublished
        (Operation.mac_of_effect? he fun d hd ↦ (hcanonical mac d hd).1)
    | false =>
      rcases Operation.effect?_cases he with ⟨d, hd, -, rfl⟩ | ⟨-, now, report, -, rfl⟩
      · exact h.make_of_not_published hpublished hd (Operation.unlocked_edit hpublished)
      · cases hpublished

theorem Mirrored.after (h : inv.Mirrored) (hcanonical : inv.Canonical) (ops : List Operation) :
    (inv.after ops).Mirrored := by
  induction ops generalizing inv with
  | nil => exact h
  | cons op ops ih => exact ih (h.apply hcanonical op) (hcanonical.apply op)

/-! ### How much is told -/

/-- As much is told of an operation as has to be. -/
theorem tells_published (op : Operation) (inv : Inventory) :
    (Deed.operate op).Tells inv (op.published inv) := by
  rw [Operation.published, Operation.change?, Operation.mac?]
  cases op with
  | insert now report =>
    rw [Deed.Tells, Operation.target]
    cases hmac : Mac.canonical? report.mac with
    | none => simp [insert, hmac]
    | some mac =>
      rw [fst_insert hmac]
      cases hd : inv.devices.get? mac with
      | none => simp [hd, Operation.effect?]
      | some d =>
        cases haccepts : accepts d report <;>
          simp [hd, Operation.effect?, Operation.permitted, Operation.edit, haccepts]
  | see stamp s =>
    rw [Deed.Tells, fst_markSeen, knows, Operation.target]
    cases Mac.canonical? s.mac with
    | none => rfl
    | some mac =>
      cases hd : inv.devices.get? mac <;>
        simp [hd, Table.contains, Operation.effect?, Operation.permitted, Operation.edit]
  | miss target =>
    rw [Deed.Tells, markMissed, update_eq, Operation.target]
    cases Mac.canonical? target with
    | none => rfl
    | some mac =>
      cases hd : inv.devices.get? mac <;>
        simp [hd, Operation.effect?, Operation.permitted, Operation.edit]
  | setLock locked target =>
    rw [Deed.Tells, Operation.target]
    cases Mac.canonical? target with
    | none => rfl
    | some mac =>
      cases hd : inv.devices.get? mac <;>
        simp [hd, Operation.effect?, Operation.permitted, Operation.edit]
  | tryAcquire target =>
    rw [Deed.Tells, Operation.target]
    cases Mac.canonical? target with
    | none => rfl
    | some mac =>
      cases hd : inv.devices.get? mac with
      | none => simp [hd, Operation.effect?]
      | some d =>
        cases hlocked : d.locked <;>
          simp [hd, Operation.effect?, Operation.permitted, Operation.edit, hlocked]

/-- An operation that is published whatever is stored of its device puts the device on the feed. -/
theorem exists_mem_publishedBy (hcanonical : inv.Canonical) (hd : inv.devices.get? mac = some d)
    (hop : op ∈ ops) (hmac : op.mac? = some mac)
    (hpublished : ∀ d, op.permitted d = true ∧ (op.edit mac d).published = true) :
    ∃ d' ∈ inv.publishedBy ops, d'.mac = mac := by
  induction ops generalizing inv d with
  | nil => cases hop
  | cons op' ops ih =>
    rcases List.mem_cons.1 hop with rfl | hop
    · obtain ⟨hpermitted, hpublished⟩ := hpublished d
      have hch : op.change? inv = some (mac, op.edit mac d) := by
        rw [Operation.change?_eq_some_iff, hd, Operation.effect?_some_eq_some_iff]
        exact ⟨hmac, hpermitted, rfl⟩
      refine ⟨(op.edit mac d).device, List.mem_append_left _ ?_,
        Operation.mac_edit (hcanonical mac d hd).1 op⟩
      rw [Operation.published, hch, Option.elim_some, if_pos hpublished]
      exact List.mem_singleton_self _
    · obtain ⟨d₁, hd₁, -⟩ := exists_get?_apply hd op'
      obtain ⟨d', hd', hmac'⟩ := ih (hcanonical.apply op') hd₁ hop
      exact ⟨d', List.mem_append_right _ hd', hmac'⟩

/-- A roll call at a moment that is new to all devices puts every device on the feed: it is marked if
it answered, and counted if it did not. -/
theorem exists_mem_publishedBy_operations (hcanonical : inv.Canonical) (r : RollCall)
    (hfresh : ∀ mac d, inv.devices.get? mac = some d → d.lastSeen ≠ some r.stamp)
    (hd : inv.devices.get? mac = some d) :
    ∃ d' ∈ inv.publishedBy (r.operations inv), d'.mac = mac := by
  cases hheard : r.order.any (·.isOf mac) with
  | true =>
    obtain ⟨s, hs, hsees⟩ := List.any_eq_true.1 hheard
    have hop : .see r.stamp s ∈ r.operations inv :=
      List.mem_append_left _ (List.mem_map.2 ⟨s, hs, rfl⟩)
    exact exists_mem_publishedBy hcanonical hd hop (of_decide_eq_true hsees) fun _ ↦ ⟨rfl, rfl⟩
  | false =>
    have hmissed : mac ∈ (inv.after (r.order.map (.see r.stamp))).unmarked r.stamp := by
      rw [unmarked_after_sees hcanonical hfresh, List.mem_filter, hheard, Table.mem_keys_iff, hd]
      exact ⟨rfl, rfl⟩
    have hop : .miss mac ∈ r.operations inv :=
      List.mem_append_right _ (List.mem_map.2 ⟨mac, hmissed, rfl⟩)
    exact exists_mem_publishedBy hcanonical hd hop (hcanonical mac d hd).2 fun _ ↦ ⟨rfl, rfl⟩

/-! ### Deeds -/

/-- A deed keeps the feed a mirror, and as much is told of it as has to be. -/
structure Deed.Reflected (u : Deed) (inv : Inventory) : Prop where
  canonical : (u.apply inv).Canonical
  mirrored : (u.apply inv).Mirrored
  tells : ∃ told, (u.apply inv).feed = inv.feed.map (· ++ told) ∧ u.Tells inv told

namespace Deed

variable {u : Deed}

/-- A deed of which nothing comes and nothing has to be told. -/
theorem reflected_of_apply_eq (hcanonical : inv.Canonical) (h : inv.Mirrored)
    (happly : u.apply inv = inv) (htells : u.Tells inv []) : u.Reflected inv where
  canonical := by rwa [happly]
  mirrored := by rwa [happly]
  tells := ⟨[], by simp [happly], htells⟩

theorem reflected_update (hcanonical : inv.Canonical) (h : inv.Mirrored) (target : String)
    (f : Device → Device) (mac_eq : ∀ d, (f d).mac = d.mac) :
    (update target f mac_eq).Reflected inv := by
  have hupdate := update_eq target f inv
  cases hstored : (Mac.canonical? target).bind fun mac ↦
      (inv.devices.get? mac).map fun d ↦ (mac, d) with
  | none =>
    rw [hstored] at hupdate
    refine reflected_of_apply_eq hcanonical h ?_ ?_
    · rw [apply, hupdate]
      rfl
    · rw [Tells, hupdate]
      rfl
  | some found =>
    obtain ⟨mac, d⟩ := found
    rw [hstored] at hupdate
    obtain ⟨m, hm, hpair⟩ := Option.bind_eq_some_iff.1 hstored
    obtain ⟨d', hd, heq⟩ := Option.map_eq_some_iff.1 hpair
    obtain ⟨rfl, rfl⟩ := Prod.mk.inj heq
    have hmac : (f d').mac = m := (mac_eq d').trans (hcanonical m d' hd).1
    have happly : (update target f mac_eq).apply inv =
        ({ device := f d' } : Effect).make m inv := by
      rw [apply, hupdate]
      rfl
    refine ⟨?_, ?_, [f d'], by rw [happly]; rfl, ?_⟩
    · rw [happly]
      exact hcanonical.make hmac (Mac.canonical?_canonical hm)
    · rw [happly]
      exact h.make_of_published rfl hmac
    · rw [Tells, hupdate]
      rfl

theorem reflected_check (hcanonical : inv.Canonical) (h : inv.Mirrored) (r : RollCall) :
    (check r).Reflected inv := by
  rcases hprobes : r.probes with fault | ⟨- | ⟨probe, probes⟩⟩
  · refine reflected_of_apply_eq hcanonical h (by rw [apply, RollCall.hold, hprobes]) ?_
    intro probes hok
    rw [hprobes] at hok
    cases hok
  · refine reflected_of_apply_eq hcanonical h (by rw [apply, RollCall.hold, hprobes]) ?_
    intro probes hok hne
    rw [hprobes] at hok
    exact absurd (Except.ok.inj hok).symm hne
  · have happly : (check r).apply inv = inv.after (r.operations inv) :=
      RollCall.snd_hold hprobes (List.cons_ne_nil probe probes) inv
    refine ⟨?_, ?_, inv.publishedBy (r.operations inv), ?_, ?_⟩
    · rw [happly]
      exact hcanonical.after _
    · rw [happly]
      exact h.after hcanonical _
    · rw [happly]
      exact feed_after ..
    · intro probes hok hne hfresh mac d hd
      exact exists_mem_publishedBy_operations hcanonical r hfresh hd

/-- Every deed is reflected. -/
theorem reflected (hcanonical : inv.Canonical) (h : inv.Mirrored) (u : Deed) :
    u.Reflected inv := by
  cases u with
  | operate op =>
    exact ⟨hcanonical.apply op, h.apply hcanonical op, op.published inv, feed_apply op inv,
      tells_published op inv⟩
  | update target f mac_eq => exact reflected_update hcanonical h target f mac_eq
  | check r => exact reflected_check hcanonical h r

end Deed

/-- Deeds keep an inventory canonical and its feed a mirror. -/
theorem Mirrored.afterDeeds (hcanonical : inv.Canonical) (h : inv.Mirrored) (us : List Deed) :
    (inv.afterDeeds us).Canonical ∧ (inv.afterDeeds us).Mirrored := by
  induction us generalizing inv with
  | nil => exact ⟨hcanonical, h⟩
  | cons u us ih =>
    have hreflected := u.reflected hcanonical h
    exact ih hreflected.canonical hreflected.mirrored

/-- Over any deeds on an inventory that started without devices and with an empty feed, each at one
go: the newest device with each address on the feed is what is stored of it, up to its lock, and
nothing else is stored. Of an accepted report and of a device that is changed in place one device is
told, and none of a refused report, a change of an unknown device or a deed on a lock; and every
roll call with an interface, at a moment that is new to all devices, tells of every stored device. -/
theorem feed_mirrors (hdevices : inv.devices = .empty) (hfeed : inv.feed = some [])
    (us : List Deed) :
    (∃ feed, (inv.afterDeeds us).feed = some feed ∧
      (DeviceTable.encode feed).map Device.unlocked =
        (inv.afterDeeds us).devices.map Device.unlocked) ∧
    ∀ earlier u later, us = earlier ++ u :: later →
      let now := inv.afterDeeds earlier
      ∃ told, (u.apply now).feed = now.feed.map (· ++ told) ∧ u.Tells now told := by
  have hcanonical : inv.Canonical := .of_empty hdevices
  have hmirrored : inv.Mirrored := .of_empty hdevices hfeed
  refine ⟨(hmirrored.afterDeeds hcanonical us).2, ?_⟩
  intro earlier u later _ now
  obtain ⟨hnow, hmirror⟩ := hmirrored.afterDeeds hcanonical earlier
  exact (u.reflected hnow hmirror).tells

/-- A device is reported, locked and renamed, a report of it is refused, nobody finds another one,
and a roll call hears it three times. -/
def eventful : List Deed :=
  [.operate (.insert ⟨0, 0⟩ { mac := "0060e9000001" }),
    .operate (.setLock true "00:60:e9:00:00:01"),
    .update "00:60:E9:00:00:01" (fun d ↦ { d with hostname := "desk" }) fun _ ↦ rfl,
    .operate (.insert ⟨0, 0⟩ { mac := "0060e9000001" }),
    .update "0060e9000002" (fun d ↦ { d with hostname := "hand" }) fun _ ↦ rfl,
    .check RollCall.crossed]

/-- Five devices are told, and the newest is what is stored. -/
theorem feed_mirrors_of_eventful :
    let m := listened.afterDeeds eventful
    (m.feed.map List.length = some 5 ∧ (m.devices.values.map (·.locked)) = [true]) ∧
      ∃ feed, m.feed = some feed ∧
        (DeviceTable.encode feed).map Device.unlocked = m.devices.map Device.unlocked :=
  ⟨by decide +kernel, (feed_mirrors rfl rfl eventful).1⟩

end Switchyard.Inventory
