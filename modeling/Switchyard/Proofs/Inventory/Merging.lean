import Switchyard.Proofs.Inventory.Upkeep

/-!
# What the reports of a device come to

Reports are merged one after the other, and whether one is accepted goes by what is stored when it
comes. Still, what the reports of a device come to in an inventory that started without devices can
be said of the whole list. A complete report of `gwd` displaces everything, so the last one of them
stands. Without one, a first report that is of `gwd` stands, since nothing but a complete report of
`gwd` displaces it. Otherwise all that is stored is of `snmp`, and the last complete report of `snmp`
stands, or the first report of all. Reports of other devices have no part in it.

So the order of the reports matters in general. It does not if just one report is of `gwd` and this
one is complete.

## Main definitions

* `Inventory.prevailing?` : the report that the reports of one device come to.

## Main results

* `Inventory.prevailing?_concat` : one more report prevails if it is accepted over the one that did.
* `Inventory.merged_closed_form` : what reports come to.
-/

namespace Switchyard.Inventory

/-- A report of a device, and the moment at which it is merged. -/
structure Report where
  now : Time.Instant
  device : Device
  deriving Repr, DecidableEq

namespace Report

/-- Whether a report is one of the device with a canonical address. -/
def isOf (mac : String) (r : Report) : Bool := Mac.canonical? r.device.mac = some mac

/-- Whether a report is a complete one of a source. -/
def isFull (s : Source) (r : Report) : Bool := r.device.source = s && r.device.isComplete

end Report

/-- The inventory after some reports. -/
def merged (rs : List Report) (inv : Inventory) : Inventory :=
  inv.after (rs.map fun r ↦ .insert r.now r.device)

/-- The reports of the device with a canonical address. -/
def reportsOf (mac : String) (rs : List Report) : List Report := rs.filter (·.isOf mac)

/-- The last complete report of a source. -/
def lastFull? (s : Source) (rs : List Report) : Option Report := (rs.filter (·.isFull s)).getLast?

/-- What `gwd` has to say of a device: its last complete report, else the first report of all if that
one is of `gwd`. -/
def byGwd? (rs : List Report) : Option Report :=
  (lastFull? .gwd rs).or (rs.head?.filter fun r ↦ r.device.source = .gwd)

/-- The report that the reports of one device come to: the last complete one of `gwd` if there is
one, else the first one if it is of `gwd`, else the last complete one of `snmp` if there is one, else
the first one. -/
def prevailing? (rs : List Report) : Option Report :=
  ((byGwd? rs).or (lastFull? .snmp rs)).or rs.head?

variable {inv : Inventory} {mac : String} {s : Source} {rs : List Report} {r p : Report}

/-! ### The report that prevails -/

theorem source_of_lastFull? (h : lastFull? s rs = some r) : r.device.source = s := by
  have hfull := (List.mem_filter.1 (List.mem_of_getLast? h)).2
  exact of_decide_eq_true (Bool.and_eq_true_iff.1 hfull).1

theorem source_of_byGwd? (h : byGwd? rs = some r) : r.device.source = .gwd := by
  rcases Option.or_eq_some_iff.1 h with hlast | ⟨-, hfirst⟩
  · exact source_of_lastFull? hlast
  · exact of_decide_eq_true (Option.filter_eq_some_iff.1 hfirst).2

/-- If `gwd` has nothing to say of a device, a report of `snmp` prevails. -/
theorem source_of_prevailing? (hgwd : byGwd? rs = none) (h : prevailing? rs = some p) :
    p.device.source = .snmp := by
  rw [prevailing?, hgwd, Option.none_or] at h
  rcases Option.or_eq_some_iff.1 h with hlast | ⟨-, hfirst⟩
  · exact source_of_lastFull? hlast
  · have hother : p.device.source ≠ .gwd := by
      have hnone := (Option.or_eq_none_iff.1 hgwd).2
      rw [hfirst] at hnone
      simpa using hnone
    cases hsource : p.device.source with
    | gwd => exact absurd hsource hother
    | snmp => rfl

theorem lastFull?_concat (s : Source) (rs : List Report) (r : Report) :
    lastFull? s (rs ++ [r]) = if r.isFull s then some r else lastFull? s rs := by
  rw [lastFull?, List.filter_append]
  cases hfull : r.isFull s <;> simp [hfull, lastFull?]

theorem byGwd?_concat (hne : rs ≠ []) (r : Report) :
    byGwd? (rs ++ [r]) = if r.isFull .gwd then some r else byGwd? rs := by
  rw [byGwd?, lastFull?_concat, List.head?_append_of_ne_nil _ hne]
  cases r.isFull .gwd <;> rfl

theorem prevailing?_eq_none_iff : prevailing? rs = none ↔ rs = [] := by
  rw [prevailing?, Option.or_eq_none_iff, List.head?_eq_none_iff, and_iff_right_iff_imp]
  rintro rfl
  rfl

theorem prevailing?_singleton (r : Report) : prevailing? [r] = some r := by
  cases hfirst : r.device.source <;> cases hcomplete : r.device.isComplete <;>
    simp [prevailing?, byGwd?, lastFull?, Report.isFull, Option.filter, hfirst, hcomplete]

/-- What is accepted over what is stored, by the sources of both. -/
theorem accepts_eq (stored report : Device) : accepts stored report =
    ((report.source = .gwd || stored.source = .snmp) && report.isComplete) := by
  rw [accepts]
  cases stored.source <;> cases report.source <;> rfl

/-- One more report prevails if it is accepted over the one that did. -/
theorem prevailing?_concat (h : prevailing? rs = some p) (r : Report) :
    prevailing? (rs ++ [r]) = some (if accepts p.device r.device then r else p) := by
  have hne : rs ≠ [] := fun hrs ↦ by rw [prevailing?_eq_none_iff.2 hrs] at h; cases h
  rw [prevailing?, byGwd?_concat hne, lastFull?_concat, List.head?_append_of_ne_nil _ hne,
    accepts_eq, Report.isFull, Report.isFull]
  cases hcomplete : r.device.isComplete with
  | false => simpa [prevailing?] using h
  | true =>
    cases hsource : r.device.source with
    | gwd => simp
    | snmp =>
      cases hgwd : byGwd? rs with
      | some g =>
        have hp : g = p := by simpa [prevailing?, hgwd] using h
        have hstays : p.device.source = .gwd := hp ▸ source_of_byGwd? hgwd
        simp [hstays, hp]
      | none =>
        have hgives : p.device.source = .snmp := source_of_prevailing? hgwd h
        simp [hgives]

/-! ### Reports that are merged -/

theorem reportsOf_concat (mac : String) (rs : List Report) (r : Report) :
    reportsOf mac (rs ++ [r]) = if r.isOf mac then reportsOf mac rs ++ [r] else reportsOf mac rs := by
  rw [reportsOf, List.filter_append]
  cases hof : r.isOf mac <;> simp [hof, reportsOf]

theorem merged_concat (rs : List Report) (r : Report) (inv : Inventory) :
    inv.merged (rs ++ [r]) = (Operation.insert r.now r.device).apply (inv.merged rs) := by
  rw [merged, List.map_append, after_append]
  rfl

/-- What reports leave of a device in an inventory that had none: the report that prevails, with the
lock that the first one came with. -/
theorem get?_merged (h : inv.devices = .empty) (rs : List Report) (mac : String) :
    (inv.merged rs).devices.get? mac = (prevailing? (reportsOf mac rs)).map fun r ↦
      { r.device with
        mac
        lastSeen := some r.now
        locked := (reportsOf mac rs).head?.any (·.device.locked) } := by
  induction rs using List.reverseRecOn with
  | nil => exact (congrArg (Table.get? · mac) h).trans (Table.get?_empty mac)
  | append_singleton rs r ih =>
    rw [merged_concat, reportsOf_concat]
    cases hof : r.isOf mac with
    | false =>
      have hother : (Operation.insert r.now r.device).mac? ≠ some mac := of_decide_eq_false hof
      rw [get?_apply_of_mac?_ne hother, ih, if_neg Bool.false_ne_true]
    | true =>
      have hown : (Operation.insert r.now r.device).mac? = some mac := of_decide_eq_true hof
      rw [get?_apply_of_mac?_eq hown, ih, if_pos rfl]
      cases hp : prevailing? (reportsOf mac rs) with
      | none =>
        rw [prevailing?_eq_none_iff.1 hp, List.nil_append, prevailing?_singleton]
        rfl
      | some p =>
        have hne : reportsOf mac rs ≠ [] := fun hnone ↦ by
          rw [prevailing?_eq_none_iff.2 hnone] at hp
          cases hp
        rw [prevailing?_concat hp, List.head?_append_of_ne_nil _ hne, Option.map_some,
          Option.map_some, Operation.effect?, Operation.permitted]
        -- Whether the report is accepted goes by the source of what is stored.
        change Option.elim (if accepts p.device r.device then _ else _) _ _ = _
        cases accepts p.device r.device <;> rfl

theorem mem_reportsOf : r ∈ reportsOf mac rs ↔ r ∈ rs ∧ Mac.canonical? r.device.mac = some mac := by
  rw [reportsOf, List.mem_filter, Report.isOf, decide_eq_true_iff]

/-- Just the devices that are reported are stored. -/
theorem contains_merged (h : inv.devices = .empty) (rs : List Report) (mac : String) :
    (inv.merged rs).devices.contains mac = true ↔
      ∃ r ∈ rs, Mac.canonical? r.device.mac = some mac := by
  rw [Table.contains, get?_merged h, Option.isSome_map, Option.isSome_iff_ne_none, ne_eq,
    prevailing?_eq_none_iff, List.eq_nil_iff_forall_not_mem, not_forall_not]
  exact exists_congr fun r ↦ mem_reportsOf

/-- If just one report of a device is of `gwd` and this one is complete, it prevails wherever it
stands. -/
theorem device_of_prevailing? {g : Device}
    (hgwd : (rs.map (·.device)).filter (·.source = .gwd) = [g]) (hcomplete : g.isComplete = true) :
    ∃ r, prevailing? rs = some r ∧ r.device = g := by
  have hfull : (rs.filter (·.isFull .gwd)).map (·.device) = [g] := by
    rw [← List.filter_eq_self.2 (List.forall_mem_singleton.2 hcomplete), ← hgwd, List.filter_filter,
      List.filter_map]
    exact congrArg _ (List.filter_congr fun r _ ↦ Bool.and_comm ..)
  obtain ⟨r, hr, hdevice⟩ := List.map_eq_singleton_iff.1 hfull
  refine ⟨r, ?_, hdevice⟩
  rw [prevailing?, byGwd?, lastFull?, hr]
  rfl

/-- What reports come to in an inventory that started without devices, in closed form. A device is
stored if there was a report of it with an address that can be read, and it stands under the
canonical form of this address. What is stored of it is, up to the moment and the lock, the report
that prevails among its own, so reports of other devices never matter. If just one of its reports is
of `gwd` and this one is complete, it is what is stored after the same reports in any order, whatever
else is reported. -/
theorem merged_closed_form (h : inv.devices = .empty) (rs : List Report) :
    (∀ mac, (inv.merged rs).devices.contains mac = true ↔
      ∃ r ∈ rs, Mac.canonical? r.device.mac = some mac) ∧
    (∀ mac, (inv.merged rs).devices.get? mac = (prevailing? (reportsOf mac rs)).map fun r ↦
      { r.device with
        mac
        lastSeen := some r.now
        locked := (reportsOf mac rs).head?.any (·.device.locked) }) ∧
    (∀ mac, (inv.merged (reportsOf mac rs)).devices.get? mac = (inv.merged rs).devices.get? mac) ∧
    ∀ mac g, ((reportsOf mac rs).map (·.device)).filter (·.source = .gwd) = [g] →
      g.isComplete = true → ∀ rs',
        ((reportsOf mac rs').map (·.device)).Perm ((reportsOf mac rs).map (·.device)) →
          ∃ now locked, (inv.merged rs').devices.get? mac =
            some { g with mac, lastSeen := some now, locked } := by
  refine ⟨contains_merged h rs, get?_merged h rs, ?others, ?orders⟩
  case others =>
    intro mac
    have hown : reportsOf mac (reportsOf mac rs) = reportsOf mac rs := by
      simp [reportsOf, List.filter_filter]
    rw [get?_merged h, get?_merged h, hown]
  case orders =>
    intro mac g hgwd hcomplete rs' hperm
    have hgwd' : ((reportsOf mac rs').map (·.device)).filter (·.source = .gwd) = [g] :=
      List.perm_singleton.1 (hgwd ▸ hperm.filter _)
    obtain ⟨r, hr, rfl⟩ := device_of_prevailing? hgwd' hcomplete
    exact ⟨r.now, _, by rw [get?_merged h, hr]; rfl⟩

/-- A device with everything in it that a complete report needs. -/
def completed (d : Device) : Device :=
  { d with
    model := "EH7508", ip := "10.0.0.1", netmask := "255.255.255.0", gateway := "10.0.0.254"
    kernel := "5.31", application := "EH7508 V5.31" }

/-- A complete report of `gwd`. -/
def found : Device := completed { mac := "0060e9000001", hostname := "found" }

/-- A device that `snmp` reports, then `gwd` in full, and then `snmp` in full; and another one that
`gwd` reports in part, and then `snmp` in full. -/
def mixed : List Report :=
  [⟨⟨1, 0⟩, { mac := "00-60-e9-00-00-01", source := .snmp }⟩,
    ⟨⟨2, 0⟩, found⟩,
    ⟨⟨3, 0⟩, { mac := "00:60:e9:00:00:02", hostname := "first" }⟩,
    ⟨⟨4, 0⟩, completed { mac := "00:60:E9:00:00:01", source := .snmp }⟩,
    ⟨⟨5, 0⟩, completed { mac := "0060e9000002", source := .snmp }⟩]

/-- Of both devices the report of `gwd` is stored, and of the first one also the other way round. -/
theorem merged_closed_form_of_mixed :
    (({} : Inventory).merged mixed).devices.values.map (fun d ↦ (d.hostname, d.lastSeen)) =
        [("found", some ⟨2, 0⟩), ("first", some ⟨3, 0⟩)] ∧
      ∃ now locked, (({} : Inventory).merged mixed.reverse).devices.get? "00-60-E9-00-00-01" =
        some { found with mac := "00-60-E9-00-00-01", lastSeen := some now, locked } := by
  refine ⟨by decide +kernel, ?_⟩
  have hempty : ({} : Inventory).devices = .empty := rfl
  obtain ⟨-, -, -, horders⟩ := merged_closed_form hempty mixed
  exact horders "00-60-E9-00-00-01" found (by decide +kernel) (by decide +kernel) mixed.reverse
    (by decide +kernel)

end Switchyard.Inventory
