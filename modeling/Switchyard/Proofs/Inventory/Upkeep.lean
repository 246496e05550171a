import Switchyard.Client
import Switchyard.Proofs.Inventory.Operation

/-!
# What upkeep keeps of an inventory

A client keeps its inventory up by merging reports, by sweeping the network, by checking which
devices answer, and by taking and giving locks. Reports replace whole devices, checks change them
in place past the rule for reports, and locks are changed past both. Still, whatever the order of
these deeds, a device that was stored once stays stored, under its own canonical address, and
nothing is lost of it that counts: the rank of its source never falls, and what was complete stays
complete. Its lock is a matter of the deeds on locks alone. So what `gwd` reported of a device is
not touched by anything that `snmp` reports, nor by a `scan snmp`, whatever source the devices
found there claim for themselves.

A new device is announced once, by the first accepted report of it.

## Main definitions

* `Device.Succeeds` : what every operation keeps of a device.
* `Inventory.Operation.IsAcceptedReport` : the reports that a device is stored by.
* `Upkeep` : the deeds that keep the inventory of a client up.

## Main results

* `Inventory.exists_get?_after` : devices over a run of operations.
* `Client.devices_kept` : an inventory that started empty, over a run of upkeep.
-/

namespace Switchyard

/-- A device stands where another stood before: its source has no lower rank, and it is complete if
the other was. -/
structure Device.Succeeds (d d' : Device) : Prop where
  rank : d.source.rank ≤ d'.source.rank
  complete : d.isComplete = true → d'.isComplete = true

namespace Device.Succeeds

theorem refl (d : Device) : Succeeds d d := ⟨le_rfl, id⟩

theorem trans {d d' d'' : Device} (h : Succeeds d d') (h' : Succeeds d' d'') : Succeeds d d'' :=
  ⟨h.rank.trans h'.rank, h'.complete ∘ h.complete⟩

end Device.Succeeds

namespace Inventory

/-- Whether an operation is one on the lock of the device with a canonical address. -/
def Operation.Locks (mac : String) : Operation → Prop
  | .setLock _ target => Mac.canonical? target = some mac
  | .tryAcquire target => Mac.canonical? target = some mac
  | _ => False

/-- Whether an operation is a report of the device with a canonical address that is accepted. -/
def Operation.IsAcceptedReport (mac : String) (inv : Inventory) : Operation → Prop
  | .insert now report => Mac.canonical? report.mac = some mac ∧ (inv.insert now report).1 = true
  | _ => False

variable {inv : Inventory} {mac : String} {d : Device} {op : Operation} {e : Effect}

/-! ### Devices that are stored -/

theorem isComplete_seen (stamp : Time.Instant) (ip : String) (h : d.isComplete = true) :
    (seen stamp ip d).isComplete = true := by
  simp only [Device.isComplete, List.all_cons, List.all_nil, seen] at h ⊢
  cases hip : ip.isEmpty <;> simp_all

theorem accepts_iff {stored report : Device} : accepts stored report = true ↔
    stored.source.rank ≤ report.source.rank ∧ report.isComplete = true := by
  rw [accepts, Bool.and_eq_true, decide_eq_true_iff]

/-- What an operation makes of a device stands where the device stood. -/
theorem Operation.succeeds_edit (h : op.permitted d = true) (mac : String) :
    d.Succeeds (op.edit mac d).device := by
  cases op with
  | insert now report =>
    obtain ⟨hrank, hcomplete⟩ := accepts_iff.1 h
    exact ⟨hrank, fun _ ↦ hcomplete⟩
  | see stamp s => exact ⟨le_rfl, isComplete_seen stamp s.ip⟩
  | miss => exact ⟨le_rfl, id⟩
  | setLock => exact ⟨le_rfl, id⟩
  | tryAcquire => exact ⟨le_rfl, id⟩

theorem Operation.locked_edit (hmac : op.mac? = some mac) (hlocks : ¬op.Locks mac) (d : Device) :
    (op.edit mac d).device.locked = d.locked := by
  cases op with
  | setLock => exact absurd hmac hlocks
  | tryAcquire => exact absurd hmac hlocks
  | _ => rfl

/-- One operation: a device stays stored, is succeeded, and keeps its lock unless the operation is
on it. -/
theorem exists_get?_apply (hd : inv.devices.get? mac = some d) (op : Operation) :
    ∃ d', (op.apply inv).devices.get? mac = some d' ∧ d.Succeeds d' ∧
      (¬op.Locks mac → d'.locked = d.locked) := by
  by_cases hmac : op.mac? = some mac
  · rw [get?_apply_of_mac?_eq hmac, hd]
    cases he : op.effect? mac (some d) with
    | none => exact ⟨d, rfl, .refl d, fun _ ↦ rfl⟩
    | some e =>
      obtain ⟨hpermitted, rfl⟩ := Operation.effect?_some_eq_some_iff.1 he
      exact ⟨_, rfl, Operation.succeeds_edit hpermitted mac,
        fun hlocks ↦ Operation.locked_edit hmac hlocks d⟩
  · exact ⟨d, (get?_apply_of_mac?_ne hmac).trans hd, .refl d, fun _ ↦ rfl⟩

/-- Some operations: a device stays stored, is succeeded, and keeps its lock unless one of them is
on it. -/
theorem exists_get?_after (hd : inv.devices.get? mac = some d) (ops : List Operation) :
    ∃ d', (inv.after ops).devices.get? mac = some d' ∧ d.Succeeds d' ∧
      ((∀ op ∈ ops, ¬op.Locks mac) → d'.locked = d.locked) := by
  induction ops generalizing inv d with
  | nil => exact ⟨d, hd, .refl d, fun _ ↦ rfl⟩
  | cons op ops ih =>
    obtain ⟨d₁, hd₁, hsucceeds₁, hlocked₁⟩ := exists_get?_apply hd op
    obtain ⟨d₂, hd₂, hsucceeds₂, hlocked₂⟩ := ih hd₁
    refine ⟨d₂, hd₂, hsucceeds₁.trans hsucceeds₂, fun hlocks ↦ ?_⟩
    rw [List.forall_mem_cons] at hlocks
    exact (hlocked₂ hlocks.2).trans (hlocked₁ hlocks.1)

/-- A report of a lower rank changes nothing of a device. -/
theorem get?_apply_of_rank_lt {now : Time.Instant} {report : Device}
    (hd : inv.devices.get? mac = some d) (h : report.source.rank < d.source.rank) :
    ((Operation.insert now report).apply inv).devices.get? mac = some d := by
  by_cases hmac : (Operation.insert now report).mac? = some mac
  · have haccepts : ¬accepts d report = true := fun ha ↦ absurd (accepts_iff.1 ha).1 (by omega)
    rw [get?_apply_of_mac?_eq hmac, hd, Operation.effect?, Operation.permitted, if_neg haccepts,
      Option.elim_none]
  · rw [get?_apply_of_mac?_ne hmac, hd]

theorem get?_after_of_rank_lt {now : Time.Instant} {reports : List Device}
    (hd : inv.devices.get? mac = some d) (h : ∀ r ∈ reports, r.source.rank < d.source.rank) :
    (inv.after (reports.map (.insert now))).devices.get? mac = some d := by
  induction reports generalizing inv with
  | nil => exact hd
  | cons r reports ih =>
    rw [List.forall_mem_cons] at h
    exact ih (get?_apply_of_rank_lt hd h.1) h.2

/-! ### Devices that are announced -/

/-- A report of a device that is not stored is accepted. -/
theorem insert_fst_of_get?_eq_none {now : Time.Instant} {report : Device}
    (hmac : Mac.canonical? report.mac = some mac) (hd : inv.devices.get? mac = none) :
    (inv.insert now report).1 = true := by
  rw [fst_insert hmac, hd, Option.all_none]

/-- Devices become stored by accepted reports. -/
theorem isSome_get?_apply_iff (op : Operation) (inv : Inventory) (mac : String) :
    ((op.apply inv).devices.get? mac).isSome ↔
      (inv.devices.get? mac).isSome ∨ op.IsAcceptedReport mac inv := by
  cases hd : inv.devices.get? mac with
  | some d =>
    obtain ⟨d', hd', -⟩ := exists_get?_apply hd op
    simp [hd']
  | none =>
    by_cases hmac : op.mac? = some mac
    · rw [get?_apply_of_mac?_eq hmac, hd]
      cases op with
      | insert now report =>
        simp [Operation.effect?, Operation.IsAcceptedReport,
          show Mac.canonical? report.mac = some mac from hmac, insert_fst_of_get?_eq_none hmac hd]
      | _ => simp [Operation.effect?, Operation.IsAcceptedReport]
    · rw [get?_apply_of_mac?_ne hmac, hd]
      cases op with
      | insert now report =>
        have hne : ¬Mac.canonical? report.mac = some mac := hmac
        simp [Operation.IsAcceptedReport, hne]
      | _ => simp [Operation.IsAcceptedReport]

theorem isSome_get?_after_iff (ops : List Operation) (inv : Inventory) (mac : String) :
    ((inv.after ops).devices.get? mac).isSome ↔ (inv.devices.get? mac).isSome ∨
      ∃ earlier op later, ops = earlier ++ op :: later ∧
        op.IsAcceptedReport mac (inv.after earlier) := by
  induction ops generalizing inv with
  | nil => simp [after]
  | cons op ops ih =>
    rw [after, ih, isSome_get?_apply_iff, or_assoc]
    refine or_congr_right ⟨?_, ?_⟩
    · rintro (haccepted | ⟨earlier, op', later, rfl, haccepted⟩)
      · exact ⟨[], op, ops, rfl, haccepted⟩
      · exact ⟨op :: earlier, op', later, rfl, haccepted⟩
    · rintro ⟨earlier, op', later, hops, haccepted⟩
      rcases List.cons_eq_append_iff.1 hops with ⟨rfl, hhead⟩ | ⟨rest, rfl, rfl⟩
      · obtain ⟨rfl, -⟩ := List.cons.inj hhead
        exact .inl haccepted
      · exact .inr ⟨rest, op', later, rfl, haccepted⟩

theorem Operation.newDevice_notMem_edit (m : String) (op : Operation) (mac : String) (d : Device) :
    .newDevice m ∉ (op.edit mac d).alerts := by
  cases op with
  | see stamp s =>
    change _ ∉ sightingAlerts mac s.ip d
    rw [sightingAlerts]
    split <;> split <;> simp
  | miss target =>
    change _ ∉ if _ then _ else _
    split <;> simp
  | _ => exact List.not_mem_nil

/-- A device is announced once as it becomes stored, and not again. -/
theorem count_newDevice_raised (op : Operation) (inv : Inventory) (mac : String) :
    (op.raised inv).count (.newDevice mac) + (inv.devices.get? mac).isSome.toNat =
      ((op.apply inv).devices.get? mac).isSome.toNat := by
  rw [raised_eq]
  cases hch : op.change? inv with
  | none => rw [apply_of_change?_eq_none hch, Option.elim_none, List.count_nil, Nat.zero_add]
  | some ch =>
    obtain ⟨m, e⟩ := ch
    obtain ⟨hm, he⟩ := Operation.change?_eq_some_iff.1 hch
    rw [apply_of_change? hch, Option.elim_some, Effect.make, Table.get?_insert]
    rcases Operation.effect?_cases he with ⟨d, hd, -, rfl⟩ | ⟨hd, now, report, -, rfl⟩
    · rw [List.count_eq_zero.2 (Operation.newDevice_notMem_edit mac op m d), Nat.zero_add]
      split
      next h => rw [h, hd]; rfl
      next => rfl
    · rw [List.count_singleton]
      by_cases h : mac = m
      · simp [h, hd]
      · simp [h, Ne.symm h]

theorem count_newDevice_raisedBy (ops : List Operation) (inv : Inventory) (mac : String) :
    (inv.raisedBy ops).count (.newDevice mac) + (inv.devices.get? mac).isSome.toNat =
      ((inv.after ops).devices.get? mac).isSome.toNat := by
  induction ops generalizing inv with
  | nil => simp [after]
  | cons op ops ih =>
    rw [raisedBy_cons, List.count_append, after, ← ih, ← count_newDevice_raised]
    omega

/-- A device is announced by the first accepted report of it. -/
theorem newDevice_mem_raised_iff : .newDevice mac ∈ op.raised inv ↔
    op.IsAcceptedReport mac inv ∧ inv.devices.get? mac = none := by
  have hcount := count_newDevice_raised op inv mac
  have hstored := isSome_get?_apply_iff op inv mac
  cases hd : inv.devices.get? mac with
  | some d => simp_all [List.count_eq_zero]
  | none =>
    rw [hd, Option.isSome_none, Bool.toNat_false, Nat.add_zero] at hcount
    have hpos : ∀ b : Bool, 0 < b.toNat ↔ b = true := by decide
    rw [← List.count_pos_iff, hcount, hpos, hstored, hd]
    simp

end Inventory

/-! ### Upkeep -/

/-- What a client does about its inventory: an operation of its own, a command that sweeps the
network, or a liveness check. Merging a report is an operation, and so are all deeds on locks. The
marks of a check that other deeds come between are operations, too. -/
inductive Upkeep (ω : Type) where
  | operate (op : Inventory.Operation)
  | scan (now : Time.Instant) (p : Protocol ω) (c : Command)
  | check (stamp : Time.Instant) (survey : Survey)

namespace Upkeep

variable {ω : Type}

/-- The client after a deed. -/
def apply : Upkeep ω → Client ω → Client ω
  | .operate op, n => { n with inventory := op.apply n.inventory }
  | .scan now p c, n => (Handler.scan now p c n).2
  | .check stamp survey, n => { n with inventory := (n.inventory.checkLiveness stamp survey).2 }

/-- The source through which a command sweeps the network. -/
def swept? (c : Command) : Option Source :=
  if c.words = ["scan", "gwd"] then some .gwd
  else if c.words = ["scan", "snmp"] then some .snmp
  else none

/-- The operations of a sweep: what is found is merged as reports of the source asked. -/
def sweepRecord (now : Time.Instant) (p : Protocol ω) (s : Source) (n : Client ω) :
    List Inventory.Operation :=
  ((p.scan s n.site.network).1.toOption.getD []).map fun d ↦
    .insert now (Handler.credited s n.ledger.owner d)

/-- The operations of a deed. -/
def record : Upkeep ω → Client ω → List Inventory.Operation
  | .operate op, _ => [op]
  | .scan now p c, n => ((swept? c).map fun s ↦ sweepRecord now p s n).getD []
  | .check stamp survey, n => n.inventory.checkRecord stamp survey

/-- Whether a deed is one on the lock of the device with a canonical address. -/
def Locks (mac : String) : Upkeep ω → Prop
  | .operate op => op.Locks mac
  | _ => False

theorem scan_eq (now : Time.Instant) (p : Protocol ω) (c : Command) (n : Client ω) :
    Handler.scan now p c n =
      (swept? c).elim (c.invalid, n) fun s ↦ Handler.sweep now p s c n := by
  rw [Handler.scan, swept?]
  split <;> simp_all

theorem inventory_sweep (now : Time.Instant) (p : Protocol ω) (s : Source) (c : Command)
    (n : Client ω) : (Handler.sweep now p s c n).2.inventory =
      n.inventory.after (sweepRecord now p s n) := by
  rcases hscan : p.scan s n.site.network with ⟨answer, network⟩
  rw [Handler.sweep, Bench.sweep, sweepRecord, hscan]
  cases answer with
  | error fault => rfl
  | ok found =>
    have hmap : found.map (fun d ↦ Inventory.Operation.insert now
        (Handler.credited s n.ledger.owner d)) =
        (found.map (Handler.credited s n.ledger.owner)).map (.insert now) :=
      (List.map_map ..).symm
    change (n.inventory.insertAll now (found.map (Handler.credited s n.ledger.owner))).2 =
      n.inventory.after (found.map _)
    rw [hmap, Inventory.after_map_insert]

/-- A deed comes down to its operations. -/
theorem inventory_apply (u : Upkeep ω) (n : Client ω) :
    (u.apply n).inventory = n.inventory.after (u.record n) := by
  cases u with
  | operate op => rfl
  | scan now p c =>
    rw [apply, scan_eq, record]
    cases swept? c with
    | none => rfl
    | some s => exact inventory_sweep now p s c n
  | check stamp survey => exact (Inventory.after_checkRecord ..).symm

/-- Only deeds on a lock have operations on it. -/
theorem not_locks_of_mem_record {u : Upkeep ω} {mac : String} (h : ¬u.Locks mac) {n : Client ω}
    {op : Inventory.Operation} (hop : op ∈ u.record n) : ¬op.Locks mac := by
  cases u with
  | operate op' =>
    obtain rfl := List.mem_singleton.1 hop
    exact h
  | scan now p c =>
    rw [record] at hop
    cases hswept : swept? c with
    | none => rw [hswept] at hop; cases hop
    | some s =>
      rw [hswept] at hop
      obtain ⟨d, -, rfl⟩ := List.mem_map.1 hop
      exact id
  | check stamp survey =>
    rw [record, Inventory.checkRecord] at hop
    split at hop
    next =>
      rcases List.mem_append.1 hop with hop | hop
      · obtain ⟨s, -, rfl⟩ := List.mem_map.1 hop
        exact id
      · obtain ⟨m, -, rfl⟩ := List.mem_map.1 hop
        exact id
    next => cases hop

end Upkeep

namespace Client

variable {ω : Type}

/-- The client after some upkeep. -/
def afterUpkeep : List (Upkeep ω) → Client ω → Client ω
  | [], n => n
  | u :: us, n => afterUpkeep us (u.apply n)

/-- The operations of some upkeep. -/
def upkeepRecord : List (Upkeep ω) → Client ω → List Inventory.Operation
  | [], _ => []
  | u :: us, n => u.record n ++ upkeepRecord us (u.apply n)

theorem afterUpkeep_append (us us' : List (Upkeep ω)) (n : Client ω) :
    afterUpkeep (us ++ us') n = afterUpkeep us' (afterUpkeep us n) := by
  induction us generalizing n with
  | nil => rfl
  | cons u us ih => exact ih _

/-- Upkeep comes down to its operations. -/
theorem inventory_afterUpkeep (us : List (Upkeep ω)) (n : Client ω) :
    (afterUpkeep us n).inventory = n.inventory.after (upkeepRecord us n) := by
  induction us generalizing n with
  | nil => rfl
  | cons u us ih =>
    rw [afterUpkeep, ih, Upkeep.inventory_apply, upkeepRecord, Inventory.after_append]

theorem not_locks_of_mem_upkeepRecord {us : List (Upkeep ω)} {mac : String}
    (h : ∀ u ∈ us, ¬u.Locks mac) {n : Client ω} {op : Inventory.Operation}
    (hop : op ∈ upkeepRecord us n) : ¬op.Locks mac := by
  induction us generalizing n with
  | nil => cases hop
  | cons u us ih =>
    rw [List.forall_mem_cons] at h
    rcases List.mem_append.1 hop with hop | hop
    · exact Upkeep.not_locks_of_mem_record h.1 hop
    · exact ih h.2 hop

/-- Over a run of upkeep a device stays stored and is succeeded, and its lock is changed only by
deeds on it. -/
theorem exists_get?_afterUpkeep {n : Client ω} {mac : String} {d : Device}
    (hd : n.inventory.devices.get? mac = some d) (us : List (Upkeep ω)) :
    ∃ d', (n.afterUpkeep us).inventory.devices.get? mac = some d' ∧
      d.source.rank ≤ d'.source.rank ∧ (d.isComplete = true → d'.isComplete = true) ∧
      (d'.locked ≠ d.locked → ∃ u ∈ us, u.Locks mac) := by
  obtain ⟨d', hd', hsucceeds, hlocked⟩ := Inventory.exists_get?_after hd (upkeepRecord us n)
  rw [← inventory_afterUpkeep] at hd'
  refine ⟨d', hd', hsucceeds.rank, hsucceeds.complete, fun hne ↦ ?_⟩
  by_contra hnone
  push Not at hnone
  exact hne (hlocked fun op hop ↦ not_locks_of_mem_upkeepRecord hnone hop)

/-- What `gwd` reported is not changed by a sweep through `snmp`. -/
theorem get?_scan_snmp {n : Client ω} {mac : String} {d : Device} {c : Command}
    (hd : n.inventory.devices.get? mac = some d) (hsource : d.source = .gwd)
    (hwords : c.words = ["scan", "snmp"]) (now : Time.Instant) (p : Protocol ω) :
    (Handler.scan now p c n).2.inventory.devices.get? mac = some d := by
  have hscan : Handler.scan now p c n = Handler.sweep now p .snmp c n := by
    rw [Upkeep.scan_eq, Upkeep.swept?, hwords]
    rfl
  have hrecord : Upkeep.sweepRecord now p .snmp n =
      (((p.scan .snmp n.site.network).1.toOption.getD []).map
        (Handler.credited .snmp n.ledger.owner)).map (.insert now) := by
    rw [Upkeep.sweepRecord, List.map_map]
    rfl
  rw [hscan, Upkeep.inventory_sweep, hrecord]
  refine Inventory.get?_after_of_rank_lt hd fun r hr ↦ ?_
  obtain ⟨found, -, rfl⟩ := List.mem_map.1 hr
  rw [hsource]
  exact Nat.zero_lt_one

/-- Over a run of upkeep that started without devices: every device stands under its own canonical
address; it was announced once, by the first accepted report of it; it stays stored from then on,
with a source of no lower rank, complete if it was, and with its lock unless there is a deed on the
lock; and what `gwd` reported is changed by no report of `snmp` and no `scan snmp`. -/
theorem devices_kept (n : Client ω) (hdevices : n.inventory.devices = .empty)
    (halerts : n.inventory.alerts = []) (us : List (Upkeep ω)) :
    let m := n.afterUpkeep us
    (∀ mac d, m.inventory.devices.get? mac = some d →
      d.mac = mac ∧ Mac.canonical? mac = some mac) ∧
    (∀ mac, m.inventory.alerts.count (.newDevice mac) =
      if m.inventory.devices.contains mac then 1 else 0) ∧
    (m.inventory = n.inventory.after (n.upkeepRecord us) ∧
      ∀ earlier op later, n.upkeepRecord us = earlier ++ op :: later → ∀ mac,
        (.newDevice mac ∈ op.raised (n.inventory.after earlier) ↔
          op.IsAcceptedReport mac (n.inventory.after earlier) ∧
          ∀ before op' between, earlier = before ++ op' :: between →
            ¬op'.IsAcceptedReport mac (n.inventory.after before))) ∧
    ∀ mac d, m.inventory.devices.get? mac = some d →
      (∀ later : List (Upkeep ω), ∃ d',
        (n.afterUpkeep (us ++ later)).inventory.devices.get? mac = some d' ∧
        d.source.rank ≤ d'.source.rank ∧ (d.isComplete = true → d'.isComplete = true) ∧
        (d'.locked ≠ d.locked → ∃ u ∈ later, u.Locks mac)) ∧
      (d.source = .gwd →
        (∀ now report, report.source = .snmp →
          (m.inventory.insert now report).2.devices.get? mac = some d) ∧
        ∀ now p c, c.words = ["scan", "snmp"] →
          (Handler.scan now p c m).2.inventory.devices.get? mac = some d) := by
  intro m
  have hinventory : m.inventory = n.inventory.after (n.upkeepRecord us) :=
    inventory_afterUpkeep us n
  have hnone (mac : String) : n.inventory.devices.get? mac = none := by
    rw [hdevices, Table.get?_empty]
  refine ⟨?canonical, ?announced, ⟨hinventory, ?first⟩, fun mac d hd ↦ ⟨?kept, ?untouched⟩⟩
  case canonical =>
    rw [hinventory]
    exact (Inventory.Canonical.of_empty hdevices).after _
  case announced =>
    intro mac
    have hcount := Inventory.count_newDevice_raisedBy (n.upkeepRecord us) n.inventory mac
    rw [hnone, ← hinventory] at hcount
    rw [hinventory, Inventory.alerts_after, halerts, List.nil_append, ← hinventory, Table.contains]
    cases h : (m.inventory.devices.get? mac).isSome <;> simpa [h] using hcount
  case first =>
    intro earlier op later hrecord mac
    rw [Inventory.newDevice_mem_raised_iff, ← Option.not_isSome_iff_eq_none,
      Inventory.isSome_get?_after_iff, hnone]
    simp
  case kept =>
    intro later
    rw [afterUpkeep_append]
    exact exists_get?_afterUpkeep hd later
  case untouched =>
    intro hsource
    constructor
    · intro now report hreport
      have hrank : report.source.rank < d.source.rank := by
        rw [hsource, hreport]
        exact Nat.zero_lt_one
      exact Inventory.get?_apply_of_rank_lt hd hrank
    · intro now p c hwords
      exact get?_scan_snmp hd hsource hwords now p

/-- A full report. -/
def fullReport : Device where
  mac := "00:60:e9:00:00:01"
  model := "EHG7508"
  ip := "10.0.0.9"
  netmask := "255.255.255.0"
  gateway := "10.0.0.1"
  kernel := "1.2"
  application := "1.0"

/-- A network on which every sweep finds one device, renamed, that claims to be of `gwd`. -/
def claiming : Protocol Unit where
  execute _ _ := (.ok "", ())
  scan _ _ := (.ok [{ fullReport with hostname := "renamed" }], ())

/-- A device is reported through `gwd`, swept through `snmp`, missed by a check and locked. -/
def swept : List (Upkeep Unit) :=
  [.operate (.insert default fullReport), .scan default claiming (.new default "scan snmp"),
    .check ⟨1, 0⟩ ⟨.ok ["eth0"], fun _ ↦ .ok (), fun _ ↦ .ok []⟩,
    .operate (.setLock true "0060e9000001")]

/-- The device keeps its name and its source, was announced once, and stays safe from `snmp`. -/
theorem devices_kept_of_swept :
    let m := (start default "c1" .default ()).afterUpkeep swept
    ∃ d, m.inventory.devices.get? "00-60-E9-00-00-01" = some d ∧
      (d.source = .gwd ∧ d.hostname = "" ∧ d.missed = 1 ∧ d.locked = true) ∧
      m.inventory.alerts.count (.newDevice "00-60-E9-00-00-01") = 1 ∧
      ∀ now p c, c.words = ["scan", "snmp"] →
        (Handler.scan now p c m).2.inventory.devices.get? "00-60-E9-00-00-01" = some d := by
  intro m
  have hstored : (m.inventory.devices.get? "00-60-E9-00-00-01").any fun d ↦
      d.source = .gwd ∧ d.hostname = "" ∧ d.missed = 1 ∧ d.locked = true := by decide +kernel
  obtain ⟨-, hannounced, -, hkept⟩ := devices_kept (start default "c1" .default ()) rfl rfl swept
  obtain ⟨d, hd, hfields⟩ := (Option.any_eq_true ..).1 hstored
  refine ⟨d, hd, of_decide_eq_true hfields, ?_, (hkept _ d hd).2 (of_decide_eq_true hfields).1 |>.2⟩
  exact (hannounced _).trans (if_pos (Option.isSome_of_mem hd))

end Client

end Switchyard
