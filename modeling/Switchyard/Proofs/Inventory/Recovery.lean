import Switchyard.Proofs.Inventory.RollCall
import Switchyard.Proofs.Inventory.Upkeep

/-!
# Recoveries that nobody is told of

The misses of a device are counted by the liveness checks, but a report brings a counter of its own,
and an accepted report replaces the whole device. So there are two ways for a device that is offline
to have fewer than two misses again. If it answers a check, it is called online, once in each check
however often it answers. If a report of it is accepted, nothing is said. From then on the device
may miss two checks and be called offline a second time, although it was not called online.

This is all that can go wrong: between two offline alerts of a device there is an online alert of it
or an accepted report that took its misses back.

## Main definitions

* `Inventory.Operation.Forgives` : an accepted report that brings fewer than two misses.

## Main results

* `Inventory.missed_lt_two_iff`, `Inventory.count_online_raised` : one operation.
* `Inventory.exists_crossing` : a run of operations after which a device is no more offline.
* `Client.recovery_announced` : runs of upkeep.
-/

namespace Switchyard

namespace Inventory

/-- Whether an operation is an accepted report of the device with a canonical address that brings
fewer than two misses. -/
def Operation.Forgives (mac : String) (inv : Inventory) : Operation → Prop
  | .insert now report =>
    (Operation.insert now report).IsAcceptedReport mac inv ∧ report.missed < 2
  | _ => False

variable {inv : Inventory} {mac : String} {d d' : Device} {op : Operation} {ops : List Operation}

/-! ### One operation -/

theorem isAcceptedReport_insert_iff {now : Time.Instant} {report : Device}
    (hmac : Mac.canonical? report.mac = some mac) (hd : inv.devices.get? mac = some d) :
    (Operation.insert now report).IsAcceptedReport mac inv ↔ accepts d report = true := by
  rw [Operation.IsAcceptedReport, fst_insert hmac, hd, Option.all_some, and_iff_right hmac]

theorem Operation.mac?_of_forgives (h : op.Forgives mac inv) : op.mac? = some mac := by
  cases op with
  | insert => exact h.1.1
  | _ => exact h.elim

theorem Operation.mac?_of_sees (h : op.sees mac = true) : op.mac? = some mac := by
  cases op with
  | see => exact of_decide_eq_true h
  | _ => cases h

/-- What an operation makes of a device that is offline has fewer than two misses if it is an answer
or a report that brings fewer. -/
theorem Operation.missed_edit_lt_two_iff (hmac : op.mac? = some mac)
    (hpermitted : op.permitted d = true) (hd : inv.devices.get? mac = some d)
    (hoffline : 2 ≤ d.missed) :
    (op.edit mac d).device.missed < 2 ↔ op.sees mac = true ∨ op.Forgives mac inv := by
  have hstays : ¬d.missed < 2 := UInt32.not_lt.2 hoffline
  cases op with
  | insert now report =>
    have haccepted : (Operation.insert now report).IsAcceptedReport mac inv :=
      (isAcceptedReport_insert_iff hmac hd).2 hpermitted
    simp [Operation.edit, Operation.sees, Operation.Forgives, haccepted]
  | see stamp s =>
    have hsees : (Operation.see stamp s).sees mac = true := decide_eq_true hmac
    simp [Operation.edit, seen, hsees]
  | miss target =>
    have hsecond : d.missed ≠ 1 := fun h ↦ hstays (h ▸ by decide)
    simpa [Operation.edit, Operation.sees, Operation.Forgives] using
      (oneMore_lt_two_iff hsecond).not.2 hstays
  | setLock => simpa [Operation.edit, Operation.sees, Operation.Forgives] using hstays
  | tryAcquire => simpa [Operation.edit, Operation.sees, Operation.Forgives] using hstays

/-- What ends the misses of a device that is offline: an answer, or a report that forgives them. -/
theorem missed_lt_two_iff (hd : inv.devices.get? mac = some d)
    (hd' : (op.apply inv).devices.get? mac = some d') (hoffline : 2 ≤ d.missed) :
    d'.missed < 2 ↔ op.sees mac = true ∨ op.Forgives mac inv := by
  by_cases hmac : op.mac? = some mac
  · rw [get?_apply_of_mac?_eq hmac, hd, Operation.effect?] at hd'
    by_cases hpermitted : op.permitted d = true
    · rw [if_pos hpermitted] at hd'
      obtain rfl := Option.some.inj hd'
      exact Operation.missed_edit_lt_two_iff hmac hpermitted hd hoffline
    · rw [if_neg hpermitted] at hd'
      obtain rfl := Option.some.inj hd'
      have hneither : ¬(op.sees mac = true ∨ op.Forgives mac inv) := by
        cases op with
        | insert now report =>
          rintro (hsees | ⟨haccepted, -⟩)
          · cases hsees
          · exact hpermitted ((isAcceptedReport_insert_iff hmac hd).1 haccepted)
        | see => exact absurd rfl hpermitted
        | _ => simp [Operation.sees, Operation.Forgives]
      exact iff_of_false (UInt32.not_lt.2 hoffline) hneither
  · rw [get?_apply_of_mac?_ne hmac, hd] at hd'
    obtain rfl := Option.some.inj hd'
    have hneither : ¬(op.sees mac = true ∨ op.Forgives mac inv) :=
      not_or.2 ⟨mt Operation.mac?_of_sees hmac, mt Operation.mac?_of_forgives hmac⟩
    exact iff_of_false (UInt32.not_lt.2 hoffline) hneither

/-- Only an answer calls a device online. -/
theorem online_notMem_raised (h : op.sees mac = false) (inv : Inventory) :
    .online mac ∉ op.raised inv := by
  intro hraised
  obtain ⟨m, hm, ⟨d, -, hmem⟩ | hnew⟩ := Operation.raised_cases hraised
  · cases op with
    | see stamp s =>
      have hsame : mac = m := mac_of_mem_sightingAlerts (d := d) hmem
      exact of_decide_eq_false h (hsame ▸ hm)
    | miss target => cases List.mem_singleton.1 (List.mem_ite_nil_right.1 hmem).2
    | _ => cases hmem
  · cases hnew

theorem online_notMem_raisedBy (h : answered mac ops = false) (inv : Inventory) :
    .online mac ∉ inv.raisedBy ops := by
  induction ops generalizing inv with
  | nil => simp
  | cons op ops ih =>
    rw [answered_cons, Bool.or_eq_false_iff] at h
    rw [raisedBy_cons, List.mem_append, not_or]
    exact ⟨online_notMem_raised h.1 inv, ih h.2 _⟩

/-- Only a miss, the second in a row, calls a device offline. -/
theorem of_offline_mem_raised (hcanonical : Mac.canonical? mac = some mac)
    (h : .offline mac ∈ op.raised inv) :
    op = .miss mac ∧ ∃ d, inv.devices.get? mac = some d ∧ oneMore d.missed = 2 := by
  obtain ⟨m, hm, ⟨d, hd, hmem⟩ | hnew⟩ := Operation.raised_cases h
  · cases op with
    | see stamp s =>
      have hnever : .offline mac ∉ sightingAlerts m s.ip d := by
        rw [sightingAlerts]
        split <;> split <;> simp
      exact absurd hmem hnever
    | miss target =>
      obtain ⟨hsecond, hmac⟩ := List.mem_ite_nil_right.1 hmem
      cases List.mem_singleton.1 hmac
      obtain rfl : mac = m := Option.some.inj (hcanonical.symm.trans hm)
      exact ⟨rfl, d, hd, hsecond⟩
    | _ => cases hmem
  · cases hnew

/-! ### Some operations -/

/-- Marks call a device that is offline online once, however often it answers. -/
theorem count_online_raisedBy {stamp : Time.Instant} {marks rest : List Operation}
    (hcanonical : Mac.canonical? mac = some mac) (hmarks : ∀ op ∈ marks, ∃ s, op = .see stamp s)
    (hrest : answered mac rest = false) (hd : inv.devices.get? mac = some d)
    (hoffline : 2 ≤ d.missed) :
    (inv.raisedBy (marks ++ rest)).count (.online mac) =
      if answered mac (marks ++ rest) then 1 else 0 := by
  have hthroughout : Throughout (fun inv op ↦ op.IsAside inv ∨ ∃ s, op = .see stamp s) marks inv :=
    throughout_of_forall_mem (fun op hop _ ↦ .inr (hmarks op hop)) inv
  obtain ⟨d', hpasses, -, -⟩ := passes_marks hcanonical hthroughout hd
  have hswing : isSwing mac (.online mac) = true := decide_eq_true rfl
  rw [raisedBy_append, List.count_append, List.count_eq_zero.2 (online_notMem_raisedBy hrest _),
    answered_append, hrest, Bool.or_false, Nat.add_zero, ← List.count_filter hswing, hpasses.raised]
  cases answered mac marks <;> simp [hoffline]

/-- An operation calls a device that is offline online if it is an answer. -/
theorem count_online_raised (hcanonical : Mac.canonical? mac = some mac)
    (hd : inv.devices.get? mac = some d) (hoffline : 2 ≤ d.missed) (op : Operation) :
    (op.raised inv).count (.online mac) = if op.sees mac then 1 else 0 := by
  cases hsees : op.sees mac with
  | false => exact List.count_eq_zero.2 (online_notMem_raised hsees inv)
  | true =>
    cases op with
    | see stamp s =>
      have hcount : (inv.raisedBy ([.see stamp s] ++ [])).count (.online mac) =
          if answered mac ([.see stamp s] ++ []) then 1 else 0 :=
        count_online_raisedBy hcanonical (List.forall_mem_singleton.2 ⟨s, rfl⟩) rfl hd hoffline
      simpa [raisedBy_cons, answered, hsees] using hcount
    | _ => cases hsees

/-- Operations after which a device that was offline has fewer than two misses: one of them was an
answer of it while it was offline, or forgave its misses. -/
theorem exists_crossing (hd : inv.devices.get? mac = some d) (hoffline : 2 ≤ d.missed)
    (hd' : (inv.after ops).devices.get? mac = some d') (hover : d'.missed < 2) :
    ∃ earlier op later, ops = earlier ++ op :: later ∧
      (op.sees mac = true ∨ op.Forgives mac (inv.after earlier)) ∧
      ∃ d, (inv.after earlier).devices.get? mac = some d ∧ 2 ≤ d.missed := by
  induction ops generalizing inv d with
  | nil =>
    obtain rfl := Option.some.inj (hd.symm.trans hd')
    exact absurd hover (UInt32.not_lt.2 hoffline)
  | cons op ops ih =>
    obtain ⟨d₁, hd₁, -⟩ := exists_get?_apply hd op
    -- The device is offline up to the first operation that ends its misses, and this is the one.
    by_cases hcross : d₁.missed < 2
    · exact ⟨[], op, ops, rfl, (missed_lt_two_iff hd hd₁ hoffline).1 hcross, d, hd, hoffline⟩
    · obtain ⟨earlier, op', later, rfl, hends, hstored⟩ := ih hd₁ (UInt32.not_lt.1 hcross) hd'
      exact ⟨op :: earlier, op', later, rfl, hends, hstored⟩

/-- Between two alerts that a device is offline there is one that it is online, or a report that
forgave its misses while it was offline. -/
theorem exists_between_offlines {op' : Operation} (hcanonical : Mac.canonical? mac = some mac)
    (hfirst : .offline mac ∈ op.raised inv)
    (hsecond : .offline mac ∈ op'.raised ((op.apply inv).after ops)) :
    ∃ earlier o later, ops = earlier ++ o :: later ∧
      let now := (op.apply inv).after earlier
      .online mac ∈ o.raised now ∨
        o.Forgives mac now ∧ ∃ d, now.devices.get? mac = some d ∧ 2 ≤ d.missed := by
  obtain ⟨rfl, d, hd, hmissed⟩ := of_offline_mem_raised hcanonical hfirst
  obtain ⟨-, d', hd', hmissed'⟩ := of_offline_mem_raised hcanonical hsecond
  -- The first alert leaves two misses, and the second one finds less than that.
  have hd₁ : ((Operation.miss mac).apply inv).devices.get? mac = some (unseen d) := by
    rw [get?_apply_miss hcanonical, hd, Option.map_some, if_pos rfl]
  have hover : d'.missed < 2 := by
    rw [(oneMore_eq_two_iff _).1 hmissed']
    decide
  obtain ⟨earlier, o, later, hops, hends, d₂, hd₂, hoffline⟩ :=
    exists_crossing hd₁ (UInt32.le_of_eq hmissed.symm) hd' hover
  refine ⟨earlier, o, later, hops, hends.imp (fun hsees ↦ ?_) fun hforgives ↦
    ⟨hforgives, d₂, hd₂, hoffline⟩⟩
  rw [← List.count_pos_iff, count_online_raised hcanonical hd₂ hoffline, hsees, if_pos rfl]
  exact Nat.one_pos

end Inventory

namespace Upkeep

variable {ω : Type}

/-- A deed marks answers at one moment, if any, and does the rest after that. -/
theorem exists_marks (u : Upkeep ω) (n : Client ω) : ∃ stamp marks rest,
    u.record n = marks ++ rest ∧ (∀ op ∈ marks, ∃ s, op = Inventory.Operation.see stamp s) ∧
      ∀ mac, Inventory.answered mac rest = false := by
  cases u with
  | operate op =>
    cases op with
    | see stamp s =>
      exact ⟨stamp, [.see stamp s], [], rfl, List.forall_mem_singleton.2 ⟨s, rfl⟩, fun _ ↦ rfl⟩
    | _ => exact ⟨default, [], _, rfl, List.forall_mem_nil _, fun _ ↦ rfl⟩
  | scan now p c =>
    refine ⟨now, [], _, rfl, List.forall_mem_nil _, fun mac ↦ List.any_eq_false.2 fun op hop ↦ ?_⟩
    change op ∈ ((swept? c).map fun s ↦ sweepRecord now p s n).getD [] at hop
    cases hswept : swept? c with
    | none => rw [hswept] at hop; cases hop
    | some s =>
      rw [hswept] at hop
      obtain ⟨d, -, rfl⟩ := List.mem_map.1 hop
      exact Bool.false_ne_true
  | check stamp survey =>
    change ∃ stamp' marks rest, n.inventory.checkRecord stamp survey = marks ++ rest ∧ _
    rw [Inventory.checkRecord]
    split
    next interface interfaces _ =>
      refine ⟨stamp, _, _, rfl, List.forall_mem_map.2 fun s _ ↦ ⟨s, rfl⟩, fun mac ↦ ?_⟩
      exact List.any_eq_false.2 (List.forall_mem_map.2 fun _ _ ↦ Bool.false_ne_true)
    next => exact ⟨stamp, [], [], rfl, List.forall_mem_nil _, fun _ ↦ rfl⟩

end Upkeep

namespace Client

open Inventory (answered)

variable {ω : Type}

/-- Over a run of upkeep of a canonical inventory, whatever checks, sweeps and reports there are and
however they come between one another: an operation on a device that is offline leaves it fewer than
two misses just if it is an answer of the device, which raises one online alert, or an accepted
report that brings fewer, which raises none. So a whole deed that ends the misses of a device raises
one online alert if the device answered in it, and otherwise none, and then a report forgave them.
Between two offline alerts of a device there is an online alert of it, or a report that forgave its
misses. -/
theorem recovery_announced (n : Client ω) (hcanonical : n.inventory.Canonical)
    (us : List (Upkeep ω)) :
    let ops := n.upkeepRecord us
    (n.afterUpkeep us).inventory = n.inventory.after ops ∧
    (∀ earlier op later, ops = earlier ++ op :: later →
      let now := n.inventory.after earlier
      ∀ mac d d', now.devices.get? mac = some d → (op.apply now).devices.get? mac = some d' →
        2 ≤ d.missed →
          (d'.missed < 2 ↔ op.sees mac = true ∨ op.Forgives mac now) ∧
          (op.raised now).count (.online mac) = if op.sees mac then 1 else 0) ∧
    (∀ earlier u later, us = earlier ++ u :: later →
      let now := n.afterUpkeep earlier
      ∀ mac d d', now.inventory.devices.get? mac = some d →
        (u.apply now).inventory.devices.get? mac = some d' → 2 ≤ d.missed → d'.missed < 2 →
          ((now.inventory.raisedBy (u.record now)).count (.online mac) =
            if answered mac (u.record now) then 1 else 0) ∧
          (answered mac (u.record now) = false → ∃ before op rest,
            u.record now = before ++ op :: rest ∧
              op.Forgives mac (now.inventory.after before))) ∧
    ∀ mac, Mac.canonical? mac = some mac → ∀ before op between op' rest,
      ops = before ++ op :: (between ++ op' :: rest) →
      let offline := op.apply (n.inventory.after before)
      .offline mac ∈ op.raised (n.inventory.after before) →
      .offline mac ∈ op'.raised (offline.after between) →
        ∃ earlier o later, between = earlier ++ o :: later ∧
          let now := offline.after earlier
          .online mac ∈ o.raised now ∨
            o.Forgives mac now ∧ ∃ d, now.devices.get? mac = some d ∧ 2 ≤ d.missed := by
  refine ⟨inventory_afterUpkeep us n, ?operation, ?deed, ?run⟩
  case operation =>
    intro earlier op later _ now mac d d' hd hd' hoffline
    have hmac := ((hcanonical.after earlier) mac d hd).2
    exact ⟨Inventory.missed_lt_two_iff hd hd' hoffline,
      Inventory.count_online_raised hmac hd hoffline op⟩
  case deed =>
    intro earlier u later _ now mac d d' hd hd' hoffline hover
    have hnow : now.inventory.Canonical := by
      rw [inventory_afterUpkeep]
      exact hcanonical.after _
    obtain ⟨stamp, marks, rest, hrecord, hmarks, hrest⟩ := u.exists_marks now
    refine ⟨?_, fun hsilent ↦ ?_⟩
    · rw [hrecord]
      exact Inventory.count_online_raisedBy (hnow mac d hd).2 hmarks (hrest mac) hd hoffline
    · rw [Upkeep.inventory_apply] at hd'
      obtain ⟨before, op, rest, hops, hends, -⟩ := Inventory.exists_crossing hd hoffline hd' hover
      refine ⟨before, op, rest, hops, hends.resolve_left fun hsees ↦ ?_⟩
      have hanswered : answered mac (u.record now) = true :=
        List.any_eq_true.2 ⟨op, by rw [hops]; simp, hsees⟩
      exact Bool.false_ne_true (hsilent.symm.trans hanswered)
  case run =>
    intro mac hmac before op between op' rest _ offline hfirst hsecond
    exact Inventory.exists_between_offlines hmac hfirst hsecond

/-- A device is reported, and nobody answers two checks. -/
def lapsed : List (Upkeep Unit) :=
  [.operate (.insert default fullReport), .check ⟨1, 0⟩ Inventory.silence,
    .check ⟨2, 0⟩ Inventory.silence]

/-- A sweep that finds the device. -/
def rescan : Upkeep Unit := .scan ⟨3, 0⟩ claiming (.new default "scan gwd")

/-- The sweep forgives the misses, and after two more checks the device is called offline again. -/
theorem recovery_announced_of_rescan :
    let n := start default "c1" .default ()
    let now := n.afterUpkeep lapsed
    (n.afterUpkeep (lapsed ++ rescan ::
        [.check ⟨4, 0⟩ Inventory.silence, .check ⟨5, 0⟩ Inventory.silence])).inventory.alerts =
      [.newDevice "00-60-E9-00-00-01", .offline "00-60-E9-00-00-01",
        .offline "00-60-E9-00-00-01"] ∧
      ∃ before op rest, rescan.record now = before ++ op :: rest ∧
        op.Forgives "00-60-E9-00-00-01" (now.inventory.after before) := by
  intro n now
  have hbefore : (now.inventory.devices.get? "00-60-E9-00-00-01").any (2 ≤ ·.missed) := by
    decide +kernel
  have hafter : ((rescan.apply now).inventory.devices.get? "00-60-E9-00-00-01").any
      (·.missed < 2) := by
    decide +kernel
  obtain ⟨d, hd, hoffline⟩ := (Option.any_eq_true ..).1 hbefore
  obtain ⟨d', hd', hover⟩ := (Option.any_eq_true ..).1 hafter
  obtain ⟨-, -, hdeed, -⟩ := recovery_announced n (.of_empty rfl) (lapsed ++ rescan :: [])
  obtain ⟨-, hsilent⟩ := hdeed lapsed rescan [] rfl "00-60-E9-00-00-01" d d' hd hd'
    (of_decide_eq_true hoffline) (of_decide_eq_true hover)
  exact ⟨by decide +kernel, hsilent (by decide +kernel)⟩

end Client

end Switchyard
