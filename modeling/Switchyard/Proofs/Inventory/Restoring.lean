import Switchyard.Proofs.Handler.Outcomes
import Switchyard.Proofs.Inventory.Archive

/-!
# Snapshots saved and loaded

What is loaded takes the place of what is stored, device by device, but the locks stay as they are,
nobody is told, and a device that is not in the snapshot is left alone. A snapshot that a node saved
is loaded at any node as the devices of the first. Of a file with a fault anywhere nothing is loaded.

## Main definitions

* `Inventory.Timely` : an inventory whose devices were seen at moments that a clock can show.
* `Inventory.Reached` : the inventories that a node can come to have.
* `Inventory.Replaced` : an inventory in which the devices of a table took the place of others.

## Main results

* `Inventory.Reached.canonical`, `Inventory.Reached.timely` : what holds of such inventories.
* `Inventory.get?_foldl_restore` : of the devices with one address the last is left.
* `Inventory.replaced_restore` : loading the devices of a canonical table.
* `Inventory.loaded_whole_or_not_at_all` : saving and loading.
-/

namespace Switchyard

/-! ### Moments at which devices were seen -/

namespace Device

variable {d : Device}

/-- A device that was seen, if at all, at a moment that a clock can show. -/
def Timely (d : Device) : Prop := ∀ t ∈ d.lastSeen, t.Proper

theorem Timely.timeReadable (h : d.Timely) : d.TimeReadable := fun t ht ↦
  Time.Reading.relaxed?_zulu (h t ht)

theorem proper_of_time {document : Json.Document} {t : Time.Instant}
    (h : shape.time document = .ok t) : t.Proper := by
  obtain ⟨s, -, h⟩ := bind_eq_ok_iff.1 h
  cases ht : Time.Reading.relaxed? s with
  | none => simp [ht] at h
  | some t' =>
    obtain rfl : t' = t := by simpa [ht] using h
    exact Time.Reading.proper_of_relaxed? ht

/-- A device that is read is timely, since only such moments are read. -/
theorem timely_of_read {document : Json.Document} (h : shape.read document = .ok d) :
    d.Timely := by
  -- what is read of a member is stored, so it is a matter of what is stored
  have hmember {α : Type} {r : Json.Reader α} {store : α → Device → Device} (name : String)
      (hstore : ∀ document a d, r document = .ok a → d.Timely → (store a d).Timely) :
      ∀ document d d', d.Timely →
        (Json.Reader.member name r store).2 document d = .ok d' → d'.Timely := by
    intro document d d' hd hread
    obtain ⟨a, hr, rfl⟩ := map_eq_ok_iff.1 hread
    exact hstore document a d hr hd
  refine Json.Reader.Shape.of_read (P := Timely) (fun t ht ↦ by cases ht) ?_ h
  simp only [shape, List.forall_mem_cons]
  refine ⟨?_, ?_, ?_, ?_, ?_, ?_, ?_, ?_, ?_, ?_, ?_, ?_, ?_, ?lastSeen, fun _ hm ↦ by cases hm⟩
  case lastSeen =>
    refine hmember "lastseen" fun document seen d hread _ t ht ↦ ?_
    obtain rfl : seen = some t := ht
    exact proper_of_time (Json.Reader.of_optional hread)
  all_goals
    refine hmember _ ?_
    exact fun _ _ _ _ hd ↦ hd

end Device

namespace Inventory

variable {inv inv' : Inventory} {mac : String} {d : Device} {a a' : Archive} {devices : DeviceTable}
  {name : String} {file : Option String} {op : Operation} {k : Nat}

/-- Every device is timely. -/
def Timely (inv : Inventory) : Prop := ∀ mac d, inv.devices.get? mac = some d → d.Timely

/-- The moment at which an operation says that a device was seen. -/
def Operation.moment? : Operation → Option Time.Instant
  | .insert now _ => some now
  | .see stamp _ => some stamp
  | _ => none

/-- The inventories that a node can come to have: it begins without devices, changes them by
operations under a clock or in place under their addresses, and loads snapshots. -/
inductive Reached : Inventory → Prop
  | start {inv : Inventory} (h : inv.devices = .empty) : Reached inv
  | apply {inv : Inventory} (h : Reached inv) (op : Operation) (hclock : ∀ t ∈ op.moment?, t.Proper) :
      Reached (op.apply inv)
  | update {inv inv' : Inventory} {mac : String} {f : Device → Device} {d : Device} (h : Reached inv)
      (hmac : ∀ d, (f d).mac = d.mac) (hseen : ∀ d, d.Timely → (f d).Timely)
      (hupdate : inv.update mac f = .ok (d, inv')) : Reached inv'
  | load {inv inv' : Inventory} {file : Option String} {a : Archive} {k : Nat} (h : Reached inv)
      (hload : inv.load file a = .ok (k, inv')) : Reached inv'

/-- What is loaded is a table, and its devices are put in one after the other. -/
theorem load_eq_ok_iff : inv.load file a = .ok (k, inv') ↔ ∃ t, a.readTable file = .ok t ∧
    t.size = k ∧ t.values.foldl (fun inv d ↦ inv.restore d) inv = inv' := by
  rw [load, map_eq_ok_iff]
  simp only [Prod.mk.injEq]

theorem Timely.restore (h : inv.Timely) (hd : d.Timely) : (inv.restore d).Timely := by
  unfold Inventory.restore
  split
  next => exact h
  next m _ =>
    intro mac d' hd'
    rw [store, Table.get?_insert] at hd'
    split at hd'
    next =>
      obtain rfl := Option.some.inj hd'
      exact hd
    next => exact h mac d' hd'

theorem Timely.load (h : inv.Timely) (hload : inv.load file a = .ok (k, inv')) : inv'.Timely := by
  obtain ⟨t, htable, -, rfl⟩ := load_eq_ok_iff.1 hload
  obtain ⟨path, text, -, -, hrun⟩ := Archive.readTable_eq_ok_iff.1 htable
  obtain ⟨document, -, hread⟩ := Json.Reader.run_eq_ok_iff.1 hrun
  have hvalues : ∀ d ∈ t.values, d.Timely := by
    intro d hd
    obtain ⟨document', hdevice⟩ := Json.Reader.exists_of_mem_values hread hd
    exact Device.timely_of_read hdevice
  refine List.foldlRecOn (motive := Timely) _ _ h fun inv hinv d hd ↦ hinv.restore (hvalues d hd)

theorem Operation.timely_edit (h : d.Timely) (hclock : ∀ t ∈ op.moment?, t.Proper) :
    (op.edit mac d).device.Timely := by
  cases op with
  | insert | see => exact hclock
  | miss | setLock | tryAcquire => exact h

theorem Timely.apply (h : inv.Timely) (hclock : ∀ t ∈ op.moment?, t.Proper) :
    (op.apply inv).Timely := by
  intro mac d hd
  by_cases hmac : op.mac? = some mac
  · rw [get?_apply_of_mac?_eq hmac] at hd
    cases he : op.effect? mac (inv.devices.get? mac) with
    | none => rw [he] at hd; exact h mac d hd
    | some e =>
      rw [he] at hd
      obtain rfl := Option.some.inj hd
      rcases Operation.effect?_cases he with ⟨d, hstored, -, rfl⟩ | ⟨-, now, report, rfl, rfl⟩
      · exact Operation.timely_edit (h mac d hstored) hclock
      · exact hclock
  · rw [get?_apply_of_mac?_ne hmac] at hd
    exact h mac d hd

/-- A device that is changed in place is changed where it stands. -/
theorem of_update {f : Device → Device} (h : inv.update mac f = .ok (d, inv')) :
    ∃ key stored, Mac.canonical? mac = some key ∧ inv.devices.get? key = some stored ∧
      inv'.devices = inv.devices.insert key (f stored) := by
  rw [update, modify] at h
  cases hkey : Mac.canonical? mac with
  | none => rw [hkey] at h; cases h
  | some key =>
    cases hstored : inv.devices.get? key with
    | none => simp only [hkey, hstored] at h; cases h
    | some stored =>
      simp only [hkey, hstored] at h
      obtain ⟨-, rfl⟩ := Prod.mk.inj (Except.ok.inj h)
      exact ⟨key, stored, rfl, hstored, rfl⟩

theorem Reached.canonical (h : inv.Reached) : inv.Canonical := by
  induction h with
  | start h => exact .of_empty h
  | apply _ op _ ih => exact ih.apply op
  | update _ hmac _ hupdate ih =>
    obtain ⟨key, stored, hkey, hstored, hdevices⟩ := of_update hupdate
    intro mac d hd
    rw [hdevices, Table.get?_insert] at hd
    split at hd
    next heq =>
      obtain rfl := Option.some.inj hd
      obtain rfl := heq
      exact ⟨(hmac stored).trans (ih _ _ hstored).1, (ih _ _ hstored).2⟩
    next => exact ih mac d hd
  | load _ hload ih => exact ih.load hload

theorem Reached.timely (h : inv.Reached) : inv.Timely := by
  induction h with
  | start h =>
    intro mac d hd
    rw [h, Table.get?_empty] at hd
    cases hd
  | apply _ op hclock ih => exact ih.apply hclock
  | update _ _ hseen hupdate ih =>
    obtain ⟨key, stored, -, hstored, hdevices⟩ := of_update hupdate
    intro mac d hd
    rw [hdevices, Table.get?_insert] at hd
    split at hd
    next =>
      obtain rfl := Option.some.inj hd
      exact hseen stored (ih _ _ hstored)
    next => exact ih mac d hd
  | load _ hload ih => exact ih.load hload

/-! ### Devices in the place of others -/

/-- Whether the device under an address is locked. One that is not known is not. -/
def lockOf (mac : String) (inv : Inventory) : Bool :=
  ((inv.devices.get? mac).map (·.locked)).getD false

/-- An inventory in which the devices of a table took the place of those that stood under the same
addresses, and their locks. -/
structure Replaced (devices : DeviceTable) (inv inv' : Inventory) : Prop where
  loaded : ∀ mac d, devices.get? mac = some d →
    inv'.devices.get? mac = some { d with locked := inv.lockOf mac }
  others : ∀ mac, devices.get? mac = none → inv'.devices.get? mac = inv.devices.get? mac
  alerts : inv'.alerts = inv.alerts
  feed : inv'.feed = inv.feed

theorem restore_eq (h : Mac.canonical? d.mac = some mac) (inv : Inventory) :
    inv.restore d = inv.store { d with mac, locked := inv.lockOf mac } := by
  rw [restore, h]
  rfl

/-- No lock is changed. -/
theorem lockOf_restore (d : Device) (inv : Inventory) (mac : String) :
    (inv.restore d).lockOf mac = inv.lockOf mac := by
  cases h : Mac.canonical? d.mac with
  | none => rw [restore, h]
  | some mac' =>
    rw [restore_eq h, lockOf, store, Table.get?_insert]
    split
    next heq => rw [heq]; rfl
    next => rfl

theorem get?_restore (d : Device) (inv : Inventory) (mac : String) :
    (inv.restore d).devices.get? mac =
      if Mac.canonical? d.mac = some mac then some { d with mac, locked := inv.lockOf mac }
      else inv.devices.get? mac := by
  cases hd : Mac.canonical? d.mac with
  | none => rw [restore, hd, if_neg nofun]
  | some mac' =>
    rw [restore_eq hd, store, Table.get?_insert]
    by_cases h : mac = mac'
    · rw [if_pos h, if_pos (congrArg some h.symm), h]
    · rw [if_neg h, if_neg fun heq ↦ h (Option.some.inj heq).symm]

/-- The last of some devices with an address, however it is spelled. -/
def lastOf? (mac : String) (ds : List Device) : Option Device :=
  ds.reverse.find? fun d ↦ Mac.canonical? d.mac = some mac

theorem lastOf?_cons (mac : String) (d : Device) (ds : List Device) :
    lastOf? mac (d :: ds) =
      (lastOf? mac ds).or (if Mac.canonical? d.mac = some mac then some d else none) := by
  rw [lastOf?, List.reverse_cons, List.find?_append, List.find?_singleton]
  simp only [decide_eq_true_eq]
  rfl

theorem of_lastOf? {ds : List Device} (h : lastOf? mac ds = some d) :
    d ∈ ds ∧ Mac.canonical? d.mac = some mac :=
  ⟨List.mem_reverse.1 (List.mem_of_find?_eq_some h), of_decide_eq_true (List.find?_some h :)⟩

theorem lastOf?_eq_none_iff {ds : List Device} :
    lastOf? mac ds = none ↔ ∀ d ∈ ds, Mac.canonical? d.mac ≠ some mac := by
  simp only [lastOf?, List.find?_eq_none, List.mem_reverse, decide_eq_true_eq]

/-- Of the devices with one address the last is left. It has the lock of the device that was there
before. -/
theorem get?_foldl_restore (ds : List Device) (inv : Inventory) (mac : String) :
    (ds.foldl (fun inv d ↦ inv.restore d) inv).devices.get? mac =
      ((lastOf? mac ds).map fun d ↦ { d with mac, locked := inv.lockOf mac }).or
        (inv.devices.get? mac) := by
  induction ds generalizing inv with
  | nil => rfl
  | cons d ds ih =>
    rw [List.foldl_cons, ih, lockOf_restore, get?_restore, lastOf?_cons]
    cases lastOf? mac ds with
    | some d' => rfl
    | none => split <;> rfl

/-- Nobody is told. -/
theorem told_restore (ds : List Device) (inv : Inventory) :
    (ds.foldl (fun inv d ↦ inv.restore d) inv).alerts = inv.alerts ∧
      (ds.foldl (fun inv d ↦ inv.restore d) inv).feed = inv.feed := by
  induction ds generalizing inv with
  | nil => exact ⟨rfl, rfl⟩
  | cons d ds ih =>
    obtain ⟨halerts, hfeed⟩ := ih (inv.restore d)
    rw [List.foldl_cons, halerts, hfeed, restore]
    split <;> exact ⟨rfl, rfl⟩

/-- In a table whose keys are the addresses of its devices there is one device for an address. -/
theorem lastOf?_values (hdevices : ∀ mac d, devices.get? mac = some d →
    d.mac = mac ∧ Mac.canonical? mac = some mac) (mac : String) :
    lastOf? mac devices.values = devices.get? mac := by
  cases hlast : lastOf? mac devices.values with
  | some d =>
    obtain ⟨hmem, hmac⟩ := of_lastOf? hlast
    obtain ⟨key, hkey⟩ := (Table.mem_values_iff ..).1 hmem
    obtain ⟨rfl, hcanonical⟩ := hdevices key d hkey
    obtain rfl := Option.some.inj (hcanonical.symm.trans hmac)
    exact hkey.symm
  | none =>
    refine (Option.eq_none_iff_forall_ne_some.2 fun d hd ↦ ?_).symm
    obtain ⟨hmac, hcanonical⟩ := hdevices mac d hd
    refine lastOf?_eq_none_iff.1 hlast d ((Table.mem_values_iff ..).2 ⟨mac, hd⟩) ?_
    rw [hmac, hcanonical]

/-- Loading the devices of a table whose keys are their addresses. -/
theorem replaced_restore (hdevices : ∀ mac d, devices.get? mac = some d →
    d.mac = mac ∧ Mac.canonical? mac = some mac) (inv : Inventory) :
    Replaced devices inv (devices.values.foldl (fun inv d ↦ inv.restore d) inv) := by
  obtain ⟨halerts, hfeed⟩ := told_restore devices.values inv
  refine ⟨fun mac d hd ↦ ?_, fun mac hnone ↦ ?_, halerts, hfeed⟩
  · obtain ⟨rfl, -⟩ := hdevices mac d hd
    rw [get?_foldl_restore, lastOf?_values hdevices, hd, Option.map_some, Option.some_or]
  · rw [get?_foldl_restore, lastOf?_values hdevices, hnone, Option.map_none, Option.none_or]

/-! ### Saving and loading -/

/-- Locks that are not saved make no difference to what is loaded. -/
theorem Replaced.of_unlocked (h : Replaced (devices.map Device.unlocked) inv inv') :
    Replaced devices inv inv' where
  loaded mac d hd := by
    have hunlocked : (devices.map Device.unlocked).get? mac = some d.unlocked := by
      rw [Table.get?_map, hd, Option.map_some]
    exact h.loaded mac d.unlocked hunlocked
  others mac hnone := h.others mac (by rw [Table.get?_map, hnone, Option.map_none])
  alerts := h.alerts
  feed := h.feed

/-- The snapshot of an inventory is loaded from any archive that has its file. -/
theorem exists_load_of_item {S : Inventory} (hS : S.Reached) (hname : Archive.PlainName name)
    (hitem : a.contents.items.get? name = some (.file (Archive.snapshotBytes S.devices)))
    (inv : Inventory) :
    ∃ inv', inv.load (some name) a = .ok (S.size, inv') ∧ Replaced S.devices inv inv' := by
  have htimes : ∀ d ∈ S.devices.values, d.TimeReadable := by
    intro d hd
    obtain ⟨mac, hmac⟩ := (Table.mem_values_iff ..).1 hd
    exact (hS.timely mac d hmac).timeReadable
  have htable := Archive.readTable_snapshot hname hitem htimes
  have hkeys : ∀ mac d, (S.devices.map Device.unlocked).get? mac = some d →
      d.mac = mac ∧ Mac.canonical? mac = some mac := by
    intro mac d hd
    rw [Table.get?_map, Option.map_eq_some_iff] at hd
    obtain ⟨stored, hstored, rfl⟩ := hd
    exact hS.canonical mac stored hstored
  have hsize : (S.devices.map Device.unlocked).size = S.size := List.length_map _
  exact ⟨_, load_eq_ok_iff.2 ⟨_, htable, hsize, rfl⟩, (replaced_restore hkeys inv).of_unlocked⟩

/-- Nothing is loaded of a file that is not legible. -/
theorem exists_load_error_iff :
    (∃ fault, inv.load file a = .error fault) ↔ ¬a.Legible file := by
  rw [← Archive.exists_readTable_iff, load]
  cases a.readTable file <;> simp [Except.map]

/-- What a node saved is loaded under its name at any node: every device takes the place of the one
that stands under its address, with the lock that this one has, everything else stays, and nobody is
told. Of a file that is not legible, for whatever reason, nothing is loaded, and the command that
asked for it ends with an error and changes nothing. -/
theorem loaded_whole_or_not_at_all {S : Inventory} (hS : S.Reached) {now : Time.Instant}
    (hnow : now.Proper) (hsave : a.save now S.devices = .ok (name, a')) :
    (∀ inv : Inventory, ∃ inv', inv.load (some name) a' = .ok (S.size, inv') ∧
      Replaced S.devices inv inv') ∧
    ∀ (n : Node Archive) (file : Option String),
      ((∃ fault, n.inventory.load file n.site = .error fault) ↔ ¬n.site.Legible file) ∧
      ∀ (t : Time.Instant) (c : Command) (fault : Fault),
        c.words = "devices" :: "load" :: file.toList →
        n.inventory.load file n.site = .error fault →
        Handler.snapshot t c n = (c.finish (.error fault.message), n) := by
  constructor
  case left =>
    obtain ⟨rfl, rfl⟩ := Archive.of_save hsave
    refine exists_load_of_item hS (Archive.plainName_snapshotName hnow) ?_
    exact (Table.get?_insert ..).trans (if_pos rfl)
  case right =>
    exact fun n file ↦ ⟨exists_load_error_iff, fun t c fault hwords hfault ↦
      Handler.snapshot_of_faulty (.load hwords hfault)⟩

/-- A moment in November 2023. -/
def evening : Time.Instant := ⟨1700000000, 0⟩

/-- An inventory with one device. -/
def recorded : Inventory :=
  (Operation.insert evening { mac := "00:60:e9:00:00:01", ip := "10.0.0.1" }).apply listened

theorem reached_recorded : recorded.Reached := (Reached.start rfl).apply _ fun t ht ↦ by
  obtain rfl := Option.some.inj ht
  exact ⟨by decide, .inl (by decide)⟩

/-- An inventory that has the device too, under another network address, and has it locked. -/
def keeper : Inventory :=
  listened.after
    [.insert default { mac := "00:60:e9:00:00:01", ip := "10.0.0.7" }, .setLock true "0060e9000001"]

/-- The keeper has the network address that was recorded, and its own lock. -/
theorem ip_of_replaced_recorded (h : Replaced recorded.devices keeper inv') :
    (inv'.devices.get? "00-60-E9-00-00-01").map (fun d ↦ (d.ip, d.locked)) =
      some ("10.0.0.1", true) := by
  have hip : (recorded.devices.get? "00-60-E9-00-00-01").map (·.ip) = some "10.0.0.1" := by
    decide +kernel
  have hlock : keeper.lockOf "00-60-E9-00-00-01" = true := by decide +kernel
  obtain ⟨d, hd, hip⟩ := Option.map_eq_some_iff.1 hip
  rw [h.loaded _ d hd, hlock, ← hip, Option.map_some]

/-- A place for snapshots that is not there yet. -/
def shelf : Archive := ⟨"/var/lib/switchyard", .nothing⟩

/-- A place with a snapshot that breaks off after its first character. -/
def broken : Archive :=
  ⟨"/var/lib/switchyard", .folder (Table.empty.insert "devices-1.json" (.file [123]))⟩

theorem not_legible_broken : ¬broken.Legible (some "devices-1.json") := by
  rintro ⟨path, bytes, cs, fields, hpath, hlocate, hdecode, hdocument, -⟩
  obtain rfl : "devices-1.json" = path := Except.ok.inj hpath
  have hname : Archive.PlainName "devices-1.json" :=
    ⟨by decide, by decide, by decide +kernel, by decide, by decide, by decide⟩
  have hfile : broken.locate "devices-1.json" = .ok (.file [123]) := hname.locate (by decide)
  obtain rfl : [123] = bytes :=
    Archive.Position.file.inj (Except.ok.inj (hfile.symm.trans hlocate))
  have hbrace : Text.Utf8.decode? [123] = some ['\x7b'] := by decide
  obtain rfl : ['\x7b'] = cs := Option.some.inj (hbrace.symm.trans hdecode)
  rw [Json.Document.ofText, Json.Token.ofText, String.toList_ofList] at hdocument
  have hopen : Json.Document.build [] .value (Json.Token.scan .between ['\x7b']) =
      (.object [] false, [.bad]) := rfl
  rw [hopen] at hdocument
  cases hdocument

/-- The device is loaded with the lock of the keeper. Of a snapshot that breaks off nothing is. -/
theorem loaded_whole_or_not_at_all_of_evening :
    (∃ name a' inv', shelf.save evening recorded.devices = .ok (name, a') ∧
      keeper.load (some name) a' = .ok (1, inv') ∧
      (inv'.devices.get? "00-60-E9-00-00-01").map (fun d ↦ (d.ip, d.locked)) =
        some ("10.0.0.1", true) ∧ inv'.alerts = keeper.alerts) ∧
    let n : Node Archive := ⟨{ owner := "root" }, keeper, broken⟩
    let c : Command := { text := "devices load devices-1.json" }
    ∃ fault : Fault, Handler.snapshot evening c n = (c.finish (.error fault.message), n) := by
  have hnow : evening.Proper := ⟨by decide, .inl (by decide)⟩
  obtain ⟨name, a', hsave⟩ : ∃ name a', shelf.save evening recorded.devices = .ok (name, a') :=
    ⟨_, _, Archive.save_eq_ok Archive.Contents.noConfusion (by decide) recorded.devices⟩
  obtain ⟨hload, hrefuse⟩ := loaded_whole_or_not_at_all reached_recorded hnow hsave
  constructor
  case left =>
    obtain ⟨inv', hinv', hreplaced⟩ := hload keeper
    exact ⟨_, _, inv', hsave, hinv', ip_of_replaced_recorded hreplaced, hreplaced.alerts⟩
  case right =>
    intro n c
    obtain ⟨hiff, hkept⟩ := hrefuse n (some "devices-1.json")
    obtain ⟨fault, hfault⟩ := hiff.2 not_legible_broken
    exact ⟨fault, hkept evening c fault (by decide +kernel) hfault⟩

end Inventory

end Switchyard
