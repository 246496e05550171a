import Switchyard.Inventory.Archive
import Switchyard.Liveness
import Switchyard.Proofs.Device.MacText
import Switchyard.Proofs.Table

/-!
# What operations change in an inventory

An inventory changes by five operations: a report is merged, a device is marked as seen or counted
as missed, a lock is set, or taken if nobody holds it. An operation is about one device. What it
does to this device depends on what is stored of it and on nothing else in the inventory, and it
does nothing to any other. Sweeps of the network and liveness checks come down to operations, one
after the other.

In a canonical inventory every device stands under its own canonical address. All operations keep it
so, and so does loading a snapshot.

## Main definitions

* `Inventory.Operation` : the operations on an inventory.
* `Inventory.Operation.edit`, `Inventory.Operation.effect?` : what an operation makes of the device
  that it is about.
* `Inventory.after`, `Inventory.raisedBy` : the inventory after some operations, and the alerts that
  they raise.
* `Inventory.Canonical` : every device stands under its own canonical address.

## Main results

* `Inventory.apply_eq` : an operation has its effect and no other.
* `Inventory.Canonical.after`, `Inventory.Canonical.load` : inventories stay canonical.
* `Inventory.after_checkRecord` : a liveness check comes down to operations.
-/

namespace Switchyard.Inventory

/-- What may be done to an inventory. -/
inductive Operation where
  | insert (now : Time.Instant) (report : Device)
  | see (stamp : Time.Instant) (s : Sighting)
  | miss (mac : String)
  | setLock (locked : Bool) (mac : String)
  | tryAcquire (mac : String)
  deriving Repr, DecidableEq

/-- A device as it is stored from now on, the alerts that are raised, and whether the device is put
on the feed. -/
structure Effect where
  device : Device
  alerts : List Alert := []
  published : Bool := true
  deriving Repr, DecidableEq

/-- The inventory after an effect on the device with the given canonical address. -/
def Effect.make (mac : String) (e : Effect) (inv : Inventory) : Inventory where
  devices := inv.devices.insert mac e.device
  alerts := inv.alerts ++ e.alerts
  feed := if e.published then inv.feed.map (· ++ [e.device]) else inv.feed

namespace Operation

/-- The inventory after an operation. Locks of unknown devices are not changed. -/
def apply : Operation → Inventory → Inventory
  | .insert now report, inv => (inv.insert now report).2
  | .see stamp s, inv => (inv.markSeen stamp s).2
  | .miss mac, inv => (inv.markMissed mac).2
  | .setLock locked mac, inv => (inv.setLock locked mac).toOption.getD inv
  | .tryAcquire mac, inv => ((inv.tryAcquire mac).toOption.map (·.2)).getD inv

/-- The alerts that an operation raises. -/
def raised (op : Operation) (inv : Inventory) : List Alert :=
  (op.apply inv).alerts.drop inv.alerts.length

/-- The address of the device that an operation is about, in any spelling. -/
def target : Operation → String
  | .insert _ report => report.mac
  | .see _ s => s.mac
  | .miss mac => mac
  | .setLock _ mac => mac
  | .tryAcquire mac => mac

/-- The canonical address of the device that an operation is about. -/
def mac? (op : Operation) : Option String := Mac.canonical? op.target

/-- Whether an operation does anything to a stored device. -/
def permitted : Operation → Device → Bool
  | .insert _ report, d => accepts d report
  | .tryAcquire _, d => !d.locked
  | _, _ => true

/-- What an operation makes of the stored device with a canonical address, if it does anything. -/
def edit (mac : String) : Operation → Device → Effect
  | .insert now report, d =>
    { device := { report with mac, lastSeen := some now, locked := d.locked } }
  | .see stamp s, d => { device := seen stamp s.ip d, alerts := sightingAlerts mac s.ip d }
  | .miss target, d =>
    { device := { d with missed := oneMore d.missed }
      alerts := if oneMore d.missed = offlineMisses then [.offline target] else [] }
  | .setLock locked _, d => { device := { d with locked }, published := false }
  | .tryAcquire _, d => { device := { d with locked := true }, published := false }

/-- What an operation makes of the device with a canonical address, stored or not. Only a report
makes something of a device that is not. -/
def effect? (mac : String) : Operation → Option Device → Option Effect
  | op, some d => if op.permitted d then some (op.edit mac d) else none
  | .insert now report, none =>
    some { device := { report with mac, lastSeen := some now }, alerts := [.newDevice mac] }
  | _, none => none

/-- The effect of an operation on an inventory, with the canonical address of the device. -/
def change? (op : Operation) (inv : Inventory) : Option (String × Effect) :=
  op.mac?.bind fun mac ↦ (op.effect? mac (inv.devices.get? mac)).map fun e ↦ (mac, e)

end Operation

/-- The inventory after some operations. -/
def after : List Operation → Inventory → Inventory
  | [], inv => inv
  | op :: ops, inv => after ops (op.apply inv)

/-- The alerts that some operations raise. -/
def raisedBy (ops : List Operation) (inv : Inventory) : List Alert :=
  (inv.after ops).alerts.drop inv.alerts.length

/-- Every device stands under its own canonical address. -/
def Canonical (inv : Inventory) : Prop :=
  ∀ mac d, inv.devices.get? mac = some d → d.mac = mac ∧ Mac.canonical? mac = some mac

/-- The operations of a liveness check: every device that answers is marked, and then every device
that is not marked is counted as missed. Without an interface there are none. -/
def checkRecord (stamp : Time.Instant) (survey : Survey) (inv : Inventory) : List Operation :=
  match survey.interfaces with
  | .ok (interface :: interfaces) =>
    let marks := (sightings survey (interface :: interfaces)).map (.see stamp)
    marks ++ ((inv.after marks).unmarked stamp).map .miss
  | _ => []

variable {inv : Inventory} {mac target : String} {d : Device} {op : Operation} {e : Effect}

/-! ### One operation -/

theorem Operation.effect?_some_eq_some_iff :
    op.effect? mac (some d) = some e ↔ op.permitted d = true ∧ op.edit mac d = e := by
  simp [Operation.effect?]

theorem Operation.change?_eq_some_iff : op.change? inv = some (mac, e) ↔
    op.mac? = some mac ∧ op.effect? mac (inv.devices.get? mac) = some e := by
  simp only [Operation.change?, Option.bind_eq_some_iff, Option.map_eq_some_iff]
  constructor
  · rintro ⟨mac', hmac, e', he, hpair⟩
    cases hpair
    exact ⟨hmac, he⟩
  · rintro ⟨hmac, he⟩
    exact ⟨mac, hmac, e, he, rfl⟩

/-- An effect is an edit of a stored device, or a report of one that is not. -/
theorem Operation.effect?_cases {d? : Option Device} (h : op.effect? mac d? = some e) :
    (∃ d, d? = some d ∧ op.permitted d = true ∧ e = op.edit mac d) ∨
      d? = none ∧ ∃ now report, op = .insert now report ∧
        e = { device := { report with mac, lastSeen := some now }
              alerts := [.newDevice mac] } := by
  cases d? with
  | some d =>
    obtain ⟨hpermitted, he⟩ := Operation.effect?_some_eq_some_iff.1 h
    exact .inl ⟨d, rfl, hpermitted, he.symm⟩
  | none =>
    cases op with
    | insert now report => exact .inr ⟨rfl, now, report, rfl, (Option.some.inj h).symm⟩
    | _ => cases h

/-- Changing a device in place is an effect on it. -/
theorem modify_eq (target : String) (f : Device → Device) (inv : Inventory) :
    inv.modify target f =
      match (Mac.canonical? target).bind fun mac ↦ (inv.devices.get? mac).map fun d ↦ (mac, d) with
      | none => .error (notFound target)
      | some (mac, d) =>
        .ok (f d, ({ device := f d, published := false } : Effect).make mac inv) := by
  rw [modify]
  cases Mac.canonical? target with
  | none => rfl
  | some mac => cases hd : inv.devices.get? mac <;> simp [hd, Effect.make]

theorem update_eq (target : String) (f : Device → Device) (inv : Inventory) :
    inv.update target f =
      match (Mac.canonical? target).bind fun mac ↦ (inv.devices.get? mac).map fun d ↦ (mac, d) with
      | none => .error (notFound target)
      | some (mac, d) => .ok (f d, ({ device := f d } : Effect).make mac inv) := by
  rw [update, modify_eq]
  cases Mac.canonical? target with
  | none => rfl
  | some mac => cases hd : inv.devices.get? mac <;> simp [hd, Effect.make, Except.map, publish]

/-- An operation has its effect and no other. -/
theorem apply_eq (op : Operation) (inv : Inventory) :
    op.apply inv = (op.change? inv).elim inv fun (mac, e) ↦ e.make mac inv := by
  unfold Operation.change? Operation.mac?
  cases op with
  | insert now report =>
    simp only [Operation.target, Operation.apply, insert]
    cases Mac.canonical? report.mac with
    | none => rfl
    | some mac =>
      cases hd : inv.devices.get? mac with
      | none => simp [insertAs, hd, Operation.effect?, store, publish, raise, Effect.make]
      | some d =>
        cases haccepts : accepts d report <;>
          simp [insertAs, hd, Operation.effect?, Operation.permitted, Operation.edit, haccepts,
            store, publish, Effect.make]
  | see stamp s =>
    simp only [Operation.target, Operation.apply, markSeen, update_eq]
    cases hmac : Mac.canonical? s.mac with
    | none => rfl
    | some mac =>
      cases hd : inv.devices.get? mac <;>
        simp [hd, Mac.canonical?_canonical hmac, Operation.effect?, Operation.permitted,
          Operation.edit, Effect.make]
  | miss target =>
    simp only [Operation.target, Operation.apply, markMissed, update_eq]
    cases Mac.canonical? target with
    | none => rfl
    | some mac =>
      cases hd : inv.devices.get? mac with
      | none => simp [hd, Operation.effect?]
      | some d =>
        by_cases hoffline : oneMore d.missed = offlineMisses <;>
          simp [hd, Operation.effect?, Operation.permitted, Operation.edit, hoffline, raise,
            Effect.make]
  | setLock locked target =>
    simp only [Operation.target, Operation.apply, setLock, modify_eq]
    cases Mac.canonical? target with
    | none => rfl
    | some mac =>
      cases hd : inv.devices.get? mac <;>
        simp [hd, Operation.effect?, Operation.permitted, Operation.edit, Except.map,
          Except.toOption]
  | tryAcquire target =>
    simp only [Operation.target, Operation.apply, tryAcquire, atMac?, lock, setLock, modify_eq]
    cases Mac.canonical? target with
    | none => rfl
    | some mac =>
      cases hd : inv.devices.get? mac with
      | none => simp [hd, Operation.effect?, Except.toOption]
      | some d =>
        cases hlocked : d.locked <;>
          simp [hd, Operation.effect?, Operation.permitted, Operation.edit, hlocked, Except.map,
            Except.toOption]

/-- A report whose address can be read is accepted if what is stored of its device accepts it. -/
theorem fst_insert {now : Time.Instant} {report : Device}
    (hmac : Mac.canonical? report.mac = some mac) :
    (inv.insert now report).1 = (inv.devices.get? mac).all (accepts · report) := by
  rw [insert, hmac]
  cases hd : inv.devices.get? mac with
  | none => simp [insertAs, hd]
  | some d => cases haccepts : accepts d report <;> simp [insertAs, hd, haccepts]

theorem apply_of_change? (h : op.change? inv = some (mac, e)) : op.apply inv = e.make mac inv := by
  rw [apply_eq, h, Option.elim_some]

theorem apply_of_change?_eq_none (h : op.change? inv = none) : op.apply inv = inv := by
  rw [apply_eq, h, Option.elim_none]

/-- A device that an operation is not about stays as it is. -/
theorem get?_apply_of_mac?_ne (h : op.mac? ≠ some mac) :
    (op.apply inv).devices.get? mac = inv.devices.get? mac := by
  cases hch : op.change? inv with
  | none => rw [apply_of_change?_eq_none hch]
  | some ch =>
    have hne : mac ≠ ch.1 := fun hmac ↦ h (hmac ▸ (Operation.change?_eq_some_iff.1 hch).1)
    rw [apply_of_change? hch]
    exact (Table.get?_insert ..).trans (if_neg hne)

/-- What becomes of the device that an operation is about. -/
theorem get?_apply_of_mac?_eq (h : op.mac? = some mac) :
    (op.apply inv).devices.get? mac =
      (op.effect? mac (inv.devices.get? mac)).elim (inv.devices.get? mac) (some ·.device) := by
  cases he : op.effect? mac (inv.devices.get? mac) with
  | none =>
    have hch : op.change? inv = none := by rw [Operation.change?, h, Option.bind_some, he]; rfl
    rw [apply_of_change?_eq_none hch, Option.elim_none]
  | some e =>
    rw [apply_of_change? (Operation.change?_eq_some_iff.2 ⟨h, he⟩)]
    exact (Table.get?_insert ..).trans (if_pos rfl)

theorem raised_eq (op : Operation) (inv : Inventory) :
    op.raised inv = (op.change? inv).elim [] (·.2.alerts) := by
  rw [Operation.raised, apply_eq]
  cases op.change? inv with
  | none => simp
  | some ch => simp [Effect.make]

theorem alerts_apply (op : Operation) (inv : Inventory) :
    (op.apply inv).alerts = inv.alerts ++ op.raised inv := by
  rw [raised_eq, apply_eq]
  cases op.change? inv with
  | none => simp
  | some ch => rfl

/-! ### Some operations -/

theorem after_append (ops ops' : List Operation) (inv : Inventory) :
    inv.after (ops ++ ops') = (inv.after ops).after ops' := by
  induction ops generalizing inv with
  | nil => rfl
  | cons op ops ih => exact ih _

theorem alerts_after (ops : List Operation) (inv : Inventory) :
    (inv.after ops).alerts = inv.alerts ++ inv.raisedBy ops := by
  have hgrown : ∃ as, (inv.after ops).alerts = inv.alerts ++ as := by
    induction ops generalizing inv with
    | nil => exact ⟨[], (List.append_nil _).symm⟩
    | cons op ops ih =>
      obtain ⟨as, has⟩ := ih (op.apply inv)
      exact ⟨op.raised inv ++ as, by rw [after, has, alerts_apply, List.append_assoc]⟩
  obtain ⟨as, has⟩ := hgrown
  rw [raisedBy, has, List.drop_left]

@[simp] theorem raisedBy_nil (inv : Inventory) : inv.raisedBy [] = [] := by
  simp [raisedBy, after]

theorem raisedBy_append (ops ops' : List Operation) (inv : Inventory) :
    inv.raisedBy (ops ++ ops') = inv.raisedBy ops ++ (inv.after ops).raisedBy ops' := by
  rw [raisedBy, after_append, alerts_after, alerts_after, List.append_assoc, List.drop_left]

theorem raisedBy_cons (op : Operation) (ops : List Operation) (inv : Inventory) :
    inv.raisedBy (op :: ops) = op.raised inv ++ (op.apply inv).raisedBy ops :=
  raisedBy_append [op] ops inv

/-! ### Sweeps and checks -/

theorem after_map_insert (now : Time.Instant) (reports : List Device) (inv : Inventory) :
    inv.after (reports.map (.insert now)) = (inv.insertAll now reports).2 := by
  induction reports generalizing inv with
  | nil => rfl
  | cons report reports ih => exact ih _

theorem after_map_see (stamp : Time.Instant) (ss : List Sighting) (inv : Inventory) :
    inv.after (ss.map (.see stamp)) = (inv.markAllSeen stamp ss).2 := by
  induction ss generalizing inv with
  | nil => rfl
  | cons s ss ih => exact ih _

theorem after_map_miss (macs : List String) (inv : Inventory) :
    inv.after (macs.map .miss) = (inv.markAllMissed macs).2 := by
  induction macs generalizing inv with
  | nil => rfl
  | cons mac macs ih => exact ih _

/-- A liveness check comes down to its operations. -/
theorem after_checkRecord (stamp : Time.Instant) (survey : Survey) (inv : Inventory) :
    inv.after (inv.checkRecord stamp survey) = (inv.checkLiveness stamp survey).2 := by
  rw [checkRecord, checkLiveness]
  cases survey.interfaces with
  | error fault => rfl
  | ok interfaces =>
    cases interfaces with
    | nil => rfl
    | cons interface interfaces =>
      simp only [after_append, after_map_see, after_map_miss]

/-! ### Canonical inventories -/

theorem Canonical.of_empty (h : inv.devices = .empty) : inv.Canonical := by
  intro mac d hd
  rw [h, Table.get?_empty] at hd
  cases hd

/-- An operation leaves a device its address. -/
theorem Operation.mac_edit (h : d.mac = mac) (op : Operation) :
    (op.edit mac d).device.mac = mac := by
  cases op with
  | insert => rfl
  | _ => exact h

theorem Operation.mac_of_effect? {d? : Option Device} (he : op.effect? mac d? = some e)
    (h : ∀ d, d? = some d → d.mac = mac) : e.device.mac = mac := by
  rcases Operation.effect?_cases he with ⟨d, hd, -, rfl⟩ | ⟨-, now, report, -, rfl⟩
  · exact Operation.mac_edit (h d hd) op
  · rfl

theorem Canonical.apply (h : inv.Canonical) (op : Operation) : (op.apply inv).Canonical := by
  intro mac d hd
  by_cases hmac : op.mac? = some mac
  · refine ⟨?_, Mac.canonical?_canonical hmac⟩
    rw [get?_apply_of_mac?_eq hmac] at hd
    cases he : op.effect? mac (inv.devices.get? mac) with
    | none => rw [he] at hd; exact (h mac d hd).1
    | some e =>
      rw [he] at hd
      obtain rfl := Option.some.inj hd
      exact Operation.mac_of_effect? he fun d hd ↦ (h mac d hd).1
  · rw [get?_apply_of_mac?_ne hmac] at hd
    exact h mac d hd

/-- Operations keep an inventory canonical. -/
theorem Canonical.after (h : inv.Canonical) (ops : List Operation) : (inv.after ops).Canonical := by
  induction ops generalizing inv with
  | nil => exact h
  | cons op ops ih => exact ih (h.apply op)

theorem Canonical.restore (h : inv.Canonical) (d : Device) : (inv.restore d).Canonical := by
  unfold Inventory.restore
  split
  next => exact h
  next m hm =>
    intro mac d' hd'
    rw [store, Table.get?_insert] at hd'
    split at hd'
    next hmac =>
      obtain rfl := Option.some.inj hd'
      exact ⟨hmac.symm, hmac ▸ Mac.canonical?_canonical hm⟩
    next => exact h mac d' hd'

/-- Loading a snapshot keeps an inventory canonical, whatever stands in the snapshot. -/
theorem Canonical.load (h : inv.Canonical) {name : Option String} {a : Archive} {n : Nat}
    {inv' : Inventory} (hload : inv.load name a = .ok (n, inv')) : inv'.Canonical := by
  have hfold (ds : List Device) (inv : Inventory) (h : inv.Canonical) :
      (ds.foldl (fun inv d ↦ inv.restore d) inv).Canonical := by
    induction ds generalizing inv with
    | nil => exact h
    | cons d ds ih => exact ih _ (h.restore d)
  rw [Inventory.load] at hload
  cases htable : a.readTable name with
  | error fault => rw [htable] at hload; cases hload
  | ok table =>
    rw [htable] at hload
    obtain ⟨-, rfl⟩ := Prod.mk.inj (Except.ok.inj hload)
    exact hfold _ inv h

end Switchyard.Inventory
