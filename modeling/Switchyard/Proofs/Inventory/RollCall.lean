import Switchyard.Proofs.Inventory.Watch

/-!
# Roll calls

A liveness check is a roll call. The interfaces are asked at the same time, so their answers may be
marked in any order, and the misses are counted when all of them are through. What a roll call
leaves of a device depends on the answers of this device alone: with one it was seen, with none it
missed the call. Only the address on the network depends on the order, and it is the last one that
an answer gave. This needs the moment of the roll call to be new to all devices, since the count goes
by it.

## Main definitions

* `Inventory.RollCall` : a check, what came of asking, and an order of the answers.
* `Inventory.RollCall.hold` : what is found out, and the inventory afterwards.

## Main results

* `Inventory.get?_after_sees`, `Inventory.get?_after_misses` : the two halves of a roll call.
* `Inventory.RollCall.hold_ofSurvey` : a liveness check is the roll call that takes one interface
  after the other.
* `Inventory.RollCall.hold_closed_form` : what a roll call comes to.
-/

namespace Switchyard

/-- Whether an answer is one of the device with a canonical address. -/
def Sighting.isOf (mac : String) (s : Sighting) : Bool := Mac.canonical? s.mac = some mac

namespace Inventory

/-- The answers on some interfaces, one interface after the other. There are none where asking
failed. -/
def answers (probes : List (Except Fault (List Sighting))) : List Sighting :=
  probes.flatMap (·.toOption.getD [])

/-- The addresses on the network from which a device answered. -/
def ipsOf (mac : String) (ss : List Sighting) : List String := (ss.filter (·.isOf mac)).map (·.ip)

/-- The last address on the network from which a device answered, if an answer gave one. -/
def lastIp? (mac : String) (ss : List Sighting) : Option String :=
  ((ipsOf mac ss).filter (!·.isEmpty)).getLast?

/-- A device as it is after it missed a check. -/
def unseen (d : Device) : Device := { d with missed := oneMore d.missed }

/-- A liveness check whose interfaces are asked at the same time: its moment, what came of asking on
every interface, if they could be listed, and the order in which the answers are marked. -/
structure RollCall where
  stamp : Time.Instant
  probes : Except Fault (List (Except Fault (List Sighting)))
  order : List Sighting
  perm : order.Perm (answers (probes.toOption.getD []))

namespace RollCall

/-- The operations of a roll call with an interface: the answers are marked, and then every device
that is not marked is counted as missed. -/
def operations (r : RollCall) (inv : Inventory) : List Operation :=
  let marks := r.order.map (.see r.stamp)
  marks ++ ((inv.after marks).unmarked r.stamp).map .miss

/-- Holds a roll call. Without an interface nothing is counted. -/
def hold (r : RollCall) (inv : Inventory) : Except Fault LivenessReport × Inventory :=
  match r.probes with
  | .error fault => (.error fault, inv)
  | .ok [] => (.ok {}, inv)
  | .ok probes =>
    let (responded, inv) := inv.markAllSeen r.stamp r.order
    let (missed, inv) := inv.markAllMissed (inv.unmarked r.stamp)
    (.ok
      { interfaces := probes.length, responded, missed := missed.length
        offline := (missed.filter (·.missed = offlineMisses)).map (·.mac) },
      inv)

/-- The roll call of a survey that takes one interface after the other. -/
def ofSurvey (stamp : Time.Instant) (survey : Survey) : RollCall where
  stamp := stamp
  probes := survey.interfaces.map (·.map survey.probe)
  order := answers ((survey.interfaces.toOption.getD []).map survey.probe)
  perm := by cases survey.interfaces <;> exact .refl _

/-- A liveness check is a roll call, whether the question could be sent or not. -/
theorem hold_ofSurvey (stamp : Time.Instant) (survey : Survey) (inv : Inventory) :
    (ofSurvey stamp survey).hold inv = inv.checkLiveness stamp survey := by
  obtain ⟨interfaces, broadcast, probe⟩ := survey
  rcases interfaces with fault | ⟨- | ⟨interface, interfaces⟩⟩
  · rfl
  · rfl
  · have hanswers : answers ((interface :: interfaces).map probe) =
        sightings ⟨.ok (interface :: interfaces), broadcast, probe⟩ (interface :: interfaces) :=
      List.flatMap_map ..
    simp only [checkLiveness, ← hanswers]
    simp [hold, ofSurvey, Except.map, Except.toOption]

end RollCall

variable {inv : Inventory} {mac : String} {d : Device} {stamp : Time.Instant} {ss : List Sighting}
  {macs : List String}

/-! ### Marking answers -/

theorem get?_apply_see (stamp : Time.Instant) (s : Sighting) (inv : Inventory) (mac : String) :
    ((Operation.see stamp s).apply inv).devices.get? mac =
      (inv.devices.get? mac).map fun d ↦ if s.isOf mac then seen stamp s.ip d else d := by
  have htarget : (Operation.see stamp s).mac? = Mac.canonical? s.mac := rfl
  by_cases hmac : Mac.canonical? s.mac = some mac
  · rw [get?_apply_of_mac?_eq (htarget.trans hmac)]
    cases inv.devices.get? mac <;>
      simp [Operation.effect?, Operation.permitted, Operation.edit, Sighting.isOf, hmac]
  · rw [get?_apply_of_mac?_ne (htarget ▸ hmac)]
    simp [Sighting.isOf, hmac]

/-- A device that answers several times is as if it had answered once, from the last address that it
gave. -/
theorem foldl_seen (stamp : Time.Instant) (ips : List String) (d : Device) :
    ips.foldl (fun d ip ↦ seen stamp ip d) d =
      if ips = [] then d
      else { d with
        ip := (ips.filter (!·.isEmpty)).getLast?.getD d.ip
        missed := 0
        lastSeen := some stamp } := by
  induction ips using List.reverseRecOn with
  | nil => rfl
  | append_singleton ips ip ih =>
    rw [List.foldl_append, ih, List.foldl_cons, List.foldl_nil, List.filter_append,
      if_neg (List.append_ne_nil_of_right_ne_nil _ (List.cons_ne_nil _ _)), seen]
    by_cases hip : ip.isEmpty = true
    · by_cases hips : ips = [] <;> simp [hip, hips]
    · by_cases hips : ips = [] <;> simp [hip, hips]

theorem ipsOf_eq_nil_iff : ipsOf mac ss = [] ↔ ss.any (·.isOf mac) = false := by
  simp [ipsOf, List.filter_eq_nil_iff]

/-- The first half of a roll call, for one device. -/
theorem get?_after_sees (stamp : Time.Instant) (ss : List Sighting) (inv : Inventory)
    (mac : String) :
    (inv.after (ss.map (.see stamp))).devices.get? mac =
      (inv.devices.get? mac).map fun d ↦
        if ss.any (·.isOf mac) then
          { d with ip := (lastIp? mac ss).getD d.ip, missed := 0, lastSeen := some stamp }
        else d := by
  have hfold (inv : Inventory) : (inv.after (ss.map (.see stamp))).devices.get? mac =
      (inv.devices.get? mac).map ((ipsOf mac ss).foldl fun d ip ↦ seen stamp ip d) := by
    induction ss generalizing inv with
    | nil => simp [after, ipsOf]
    | cons s ss ih =>
      rw [List.map_cons, after, ih, get?_apply_see, Option.map_map]
      cases hs : s.isOf mac <;> simp [ipsOf, hs, Function.comp_def]
  rw [hfold]
  refine congrArg (Option.map · _) (funext fun d ↦ ?_)
  rw [foldl_seen, lastIp?]
  by_cases hss : ipsOf mac ss = []
  · rw [if_pos hss, ipsOf_eq_nil_iff.1 hss, if_neg Bool.false_ne_true]
  · rw [if_neg hss, if_pos (Bool.not_eq_false _ ▸ mt ipsOf_eq_nil_iff.2 hss)]

/-- Whether an answer is one of a stored device. -/
def knows (inv : Inventory) (s : Sighting) : Bool :=
  (Mac.canonical? s.mac).any inv.devices.contains

/-- Marks are not what makes a device stored. -/
theorem contains_after_sees (stamp : Time.Instant) (ss : List Sighting) (inv : Inventory)
    (mac : String) :
    (inv.after (ss.map (.see stamp))).devices.contains mac = inv.devices.contains mac := by
  rw [Table.contains, get?_after_sees, Option.isSome_map, Table.contains]

theorem fst_markSeen (stamp : Time.Instant) (s : Sighting) (inv : Inventory) :
    (inv.markSeen stamp s).1 = inv.knows s := by
  rw [markSeen, knows]
  cases hmac : Mac.canonical? s.mac with
  | none => rfl
  | some mac =>
    simp only [update_eq, Mac.canonical?_canonical hmac, Option.any_some, Table.contains]
    cases hd : inv.devices.get? mac <;> simp [hd]

/-- The answers that are counted are those of stored devices. -/
theorem fst_markAllSeen (stamp : Time.Instant) (ss : List Sighting) (inv : Inventory) :
    (inv.markAllSeen stamp ss).1 = ss.countP inv.knows := by
  induction ss generalizing inv with
  | nil => rfl
  | cons s ss ih =>
    have hknows : (inv.markSeen stamp s).2.knows = inv.knows := by
      funext s'
      exact congrArg (Option.any · _) (funext fun m ↦ contains_after_sees stamp [s] inv m)
    rw [markAllSeen]
    simp only [ih, hknows, fst_markSeen, List.countP_cons]
    cases inv.knows s <;> simp [Nat.add_comm]

/-! ### Counting misses -/

theorem get?_apply_miss {m : String} (hm : Mac.canonical? m = some m) (inv : Inventory)
    (mac : String) :
    ((Operation.miss m).apply inv).devices.get? mac =
      (inv.devices.get? mac).map fun d ↦ if mac = m then unseen d else d := by
  have htarget : (Operation.miss m).mac? = some m := hm
  by_cases hmac : mac = m
  · subst hmac
    rw [get?_apply_of_mac?_eq htarget]
    cases inv.devices.get? mac <;>
      simp [Operation.effect?, Operation.permitted, Operation.edit, unseen]
  · rw [get?_apply_of_mac?_ne (htarget ▸ fun h ↦ hmac (Option.some.inj h).symm)]
    simp [hmac]

/-- The second half of a roll call, for one device. -/
theorem get?_after_misses (hmacs : ∀ m ∈ macs, Mac.canonical? m = some m) (hnodup : macs.Nodup)
    (inv : Inventory) (mac : String) :
    (inv.after (macs.map .miss)).devices.get? mac =
      (inv.devices.get? mac).map fun d ↦ if mac ∈ macs then unseen d else d := by
  induction macs generalizing inv with
  | nil => simp [after]
  | cons m macs ih =>
    rw [List.forall_mem_cons] at hmacs
    obtain ⟨hm, hnodup⟩ := List.nodup_cons.1 hnodup
    rw [List.map_cons, after, ih hmacs.2 hnodup, get?_apply_miss hmacs.1, Option.map_map]
    refine congrArg (Option.map · _) (funext fun d ↦ ?_)
    by_cases hmac : mac = m
    · subst hmac
      simp [hm]
    · simp [hmac]

theorem fst_markMissed {m : String} (hm : Mac.canonical? m = some m) (inv : Inventory) :
    (inv.markMissed m).1 = (inv.markMissed m).2.devices.get? m := by
  change _ = ((Operation.miss m).apply inv).devices.get? m
  rw [get?_apply_miss hm, markMissed, update_eq, hm, Option.bind_some]
  cases inv.devices.get? m <;> simp [unseen]

/-- What is listed of the devices that missed a check is what is stored of them afterwards. -/
theorem fst_markAllMissed (hmacs : ∀ m ∈ macs, Mac.canonical? m = some m) (hnodup : macs.Nodup)
    (inv : Inventory) :
    (inv.markAllMissed macs).1 = macs.filterMap (inv.markAllMissed macs).2.devices.get? := by
  induction macs generalizing inv with
  | nil => rfl
  | cons m macs ih =>
    rw [List.forall_mem_cons] at hmacs
    obtain ⟨hm, hnodup⟩ := List.nodup_cons.1 hnodup
    have hlater : ((inv.markMissed m).2.markAllMissed macs).2.devices.get? m =
        (inv.markMissed m).1 := by
      rw [← after_map_miss, get?_after_misses hmacs.2 hnodup, fst_markMissed hmacs.1]
      simp [hm]
    rw [markAllMissed]
    simp only [ih hmacs.2 hnodup]
    rw [List.filterMap_cons, hlater]
    cases (inv.markMissed m).1 <;> rfl

/-! ### Whole roll calls -/

theorem unmarked_eq (h : inv.Canonical) (stamp : Time.Instant) :
    inv.unmarked stamp = inv.devices.keys.filter fun mac ↦
      (inv.devices.get? mac).any (·.lastSeen != some stamp) := by
  rw [unmarked, Table.values, Table.keys, List.filter_map, List.filter_map, List.map_map]
  have hentry (e : String × Device) (he : e ∈ inv.devices.entries) :
      inv.devices.get? e.1 = some e.2 := (Table.mem_entries_iff ..).1 he
  have hfilter : inv.devices.entries.filter ((·.lastSeen != some stamp) ∘ (·.2)) =
      inv.devices.entries.filter
        ((fun mac ↦ (inv.devices.get? mac).any (·.lastSeen != some stamp)) ∘ (·.1)) := by
    refine List.filter_congr fun e he ↦ ?_
    simp [hentry e he]
  rw [← hfilter]
  exact List.map_congr_left fun e he ↦ (h e.1 e.2 (hentry e (List.mem_of_mem_filter he))).1

/-- If its moment is new to all devices, a roll call misses those without an answer. -/
theorem unmarked_after_sees (h : inv.Canonical)
    (hfresh : ∀ mac d, inv.devices.get? mac = some d → d.lastSeen ≠ some stamp)
    (ss : List Sighting) :
    (inv.after (ss.map (.see stamp))).unmarked stamp =
      inv.devices.keys.filter fun mac ↦ !ss.any (·.isOf mac) := by
  have hkeys : (inv.after (ss.map (.see stamp))).devices.keys = inv.devices.keys :=
    Table.keys_eq_of_isSome_get? (contains_after_sees stamp ss inv)
  rw [unmarked_eq (h.after _), hkeys]
  refine List.filter_congr fun mac hmac ↦ ?_
  obtain ⟨d, hd⟩ := Option.isSome_iff_exists.1 ((Table.mem_keys_iff ..).1 hmac)
  rw [get?_after_sees, hd, Option.map_some, Option.any_some]
  cases ss.any (·.isOf mac) <;> simp [hfresh mac d hd]

/-- Stored devices of a kind, among those with some addresses. -/
theorem map_mac_filter_filterMap (h : inv.Canonical)
    (hmacs : ∀ m ∈ macs, (inv.devices.get? m).isSome) (p : Device → Bool) :
    ((macs.filterMap inv.devices.get?).filter p).map (·.mac) =
      macs.filter fun m ↦ (inv.devices.get? m).any p := by
  induction macs with
  | nil => rfl
  | cons m macs ih =>
    rw [List.forall_mem_cons] at hmacs
    obtain ⟨d, hd⟩ := Option.isSome_iff_exists.1 hmacs.1
    have hmac : d.mac = m := (h m d hd).1
    rw [List.filterMap_cons_some hd, List.filter_cons, List.filter_cons, hd, Option.any_some,
      ← ih hmacs.2]
    split <;> simp [hmac]

namespace RollCall

variable {r : RollCall} {probes : List (Except Fault (List Sighting))}

theorem snd_hold (hprobes : r.probes = .ok probes) (hne : probes ≠ []) (inv : Inventory) :
    (r.hold inv).2 = inv.after (r.operations inv) := by
  obtain ⟨probe, probes, rfl⟩ := List.exists_cons_of_ne_nil hne
  simp only [hold, hprobes, operations, after_append, after_map_see, after_map_miss]

theorem any_order (hprobes : r.probes = .ok probes) (p : Sighting → Bool) :
    r.order.any p = (answers probes).any p := by
  have hperm := r.perm
  rw [hprobes] at hperm
  exact hperm.any_eq

/-- What a roll call leaves of a device. -/
theorem get?_hold (h : inv.Canonical)
    (hfresh : ∀ mac d, inv.devices.get? mac = some d → d.lastSeen ≠ some r.stamp)
    (hprobes : r.probes = .ok probes) (hne : probes ≠ []) (mac : String) :
    (r.hold inv).2.devices.get? mac = (inv.devices.get? mac).map fun d ↦
      if (answers probes).any (·.isOf mac) then
        { d with ip := (lastIp? mac r.order).getD d.ip, missed := 0, lastSeen := some r.stamp }
      else unseen d := by
  have hmarked := h.after (r.order.map (.see r.stamp))
  rw [snd_hold hprobes hne, operations, after_append,
    get?_after_misses (fun m hm ↦ canonical?_of_mem_unmarked hmarked hm) (nodup_unmarked hmarked),
    unmarked_after_sees h hfresh, get?_after_sees, any_order hprobes]
  cases hd : inv.devices.get? mac with
  | none => rfl
  | some d =>
    have hkey : mac ∈ inv.devices.keys := (Table.mem_keys_iff ..).2 (hd ▸ rfl)
    cases hheard : (answers probes).any (·.isOf mac) <;>
      simp [hkey, hheard, any_order hprobes]

/-- What a roll call finds out, by the devices that are not marked in it. -/
theorem fst_hold_eq (h : inv.Canonical) (hprobes : r.probes = .ok probes) (hne : probes ≠ []) :
    let macs := (inv.after (r.order.map (.see r.stamp))).unmarked r.stamp
    (r.hold inv).1 = .ok
      { interfaces := probes.length
        responded := r.order.countP inv.knows
        missed := macs.length
        offline := macs.filter fun mac ↦
          ((r.hold inv).2.devices.get? mac).any (·.missed = offlineMisses) } := by
  intro macs
  have hmarked := h.after (r.order.map (.see r.stamp))
  have hcanonical : ∀ m ∈ macs, Mac.canonical? m = some m :=
    fun m hm ↦ canonical?_of_mem_unmarked hmarked hm
  have hnodup : macs.Nodup := nodup_unmarked hmarked
  have hcounted : (r.hold inv).2 = (inv.after (r.order.map (.see r.stamp))).after (macs.map .miss) :=
    (snd_hold hprobes hne inv).trans (after_append ..)
  have hstored : ∀ m ∈ macs, ((r.hold inv).2.devices.get? m).isSome := by
    intro m hm
    rw [show macs = _ from unmarked_eq hmarked r.stamp] at hm
    rw [hcounted, get?_after_misses hcanonical hnodup, Option.isSome_map]
    exact (Table.mem_keys_iff ..).1 (List.mem_of_mem_filter hm)
  have hselect := map_mac_filter_filterMap (hcounted ▸ hmarked.after _) hstored
  have hall : macs.filter (fun m ↦ ((r.hold inv).2.devices.get? m).any fun _ ↦ true) = macs := by
    refine List.filter_eq_self.2 fun m hm ↦ ?_
    obtain ⟨d, hd⟩ := Option.isSome_iff_exists.1 (hstored m hm)
    rw [hd, Option.any_some]
  have hlength : (macs.filterMap (r.hold inv).2.devices.get?).length = macs.length := by
    have hlengths := congrArg List.length (hselect fun _ ↦ true)
    rwa [hall, List.length_map, List.filter_true] at hlengths
  have hlisted := fst_markAllMissed hcanonical hnodup (inv.after (r.order.map (.see r.stamp)))
  rw [← after_map_miss, ← hcounted] at hlisted
  have hresult : (r.hold inv).1 = .ok
      { interfaces := probes.length
        responded := (inv.markAllSeen r.stamp r.order).1
        missed := ((inv.after (r.order.map (.see r.stamp))).markAllMissed macs).1.length
        offline := (((inv.after (r.order.map (.see r.stamp))).markAllMissed macs).1.filter
          (·.missed = offlineMisses)).map (·.mac) } := by
    obtain ⟨probe, probes, rfl⟩ := List.exists_cons_of_ne_nil hne
    simp only [hold, hprobes, macs, after_map_see]
  rw [hresult, hlisted, hlength, hselect, fst_markAllSeen]

/-- What a roll call finds out. -/
theorem fst_hold (h : inv.Canonical)
    (hfresh : ∀ mac d, inv.devices.get? mac = some d → d.lastSeen ≠ some r.stamp)
    (hprobes : r.probes = .ok probes) (hne : probes ≠ []) :
    (r.hold inv).1 = .ok
      { interfaces := probes.length
        responded := (answers probes).countP inv.knows
        missed := inv.devices.keys.countP fun mac ↦ !(answers probes).any (·.isOf mac)
        offline := inv.devices.keys.filter fun mac ↦
          ((r.hold inv).2.devices.get? mac).any (·.missed = offlineMisses) } := by
  have hresponded : r.order.countP inv.knows = (answers probes).countP inv.knows := by
    have hperm := r.perm
    rw [hprobes] at hperm
    exact hperm.countP_eq _
  -- A device that was seen has no misses, so it is not among those that are offline from now on.
  have hoffline : (inv.devices.keys.filter fun mac ↦ !(answers probes).any (·.isOf mac)).filter
      (fun mac ↦ ((r.hold inv).2.devices.get? mac).any (·.missed = offlineMisses)) =
      inv.devices.keys.filter fun mac ↦
        ((r.hold inv).2.devices.get? mac).any (·.missed = offlineMisses) := by
    rw [List.filter_filter]
    refine List.filter_congr fun mac _ ↦ ?_
    rw [get?_hold h hfresh hprobes hne]
    cases inv.devices.get? mac with
    | none => rfl
    | some d => cases (answers probes).any (·.isOf mac) <;> simp [offlineMisses]
  have hfound := fst_hold_eq h hprobes hne
  simp only [unmarked_after_sees h hfresh, any_order hprobes] at hfound
  rw [hfound, hresponded, hoffline, ← List.countP_eq_length_filter]

/-- A roll call at a moment that is new to all devices, in closed form, whatever came of asking on
each interface and whatever the order of the answers. With an interface, a stored device with an
answer, in any spelling of its address, has no misses and was seen at that moment, at the last
address on the network that an answer of it gave; one without has one miss more; and none becomes
stored or is lost. The answers of stored devices are counted, and so are the devices without an
answer; those whose counter became two are listed in the order of their addresses. Without an
interface, or if they cannot be listed, nothing happens. A liveness check is a roll call. -/
theorem hold_closed_form (r : RollCall) (hcanonical : inv.Canonical)
    (hfresh : ∀ mac d, inv.devices.get? mac = some d → d.lastSeen ≠ some r.stamp) :
    (∀ probes, r.probes = .ok probes → probes ≠ [] →
      let heard (mac : String) : Bool := (answers probes).any fun s ↦ Mac.canonical? s.mac = some mac
      let next := (r.hold inv).2
      (∀ mac, next.devices.get? mac = (inv.devices.get? mac).map fun d ↦
        if heard mac then
          { d with ip := (lastIp? mac r.order).getD d.ip, missed := 0, lastSeen := some r.stamp }
        else { d with missed := oneMore d.missed }) ∧
      (r.hold inv).1 = .ok
        { interfaces := probes.length
          responded := (answers probes).countP fun s ↦
            (Mac.canonical? s.mac).any inv.devices.contains
          missed := inv.devices.keys.countP (!heard ·)
          offline := inv.devices.keys.filter fun mac ↦
            (next.devices.get? mac).any (·.missed = 2) }) ∧
    (r.probes = .ok [] → r.hold inv = (.ok {}, inv)) ∧
    (∀ fault, r.probes = .error fault → r.hold inv = (.error fault, inv)) ∧
    ∀ stamp survey, inv.checkLiveness stamp survey = (ofSurvey stamp survey).hold inv := by
  refine ⟨?asked, ?idle, ?failed, fun stamp survey ↦ (hold_ofSurvey stamp survey inv).symm⟩
  case asked =>
    intro probes hprobes hne
    exact ⟨get?_hold hcanonical hfresh hprobes hne, fst_hold hcanonical hfresh hprobes hne⟩
  case idle =>
    intro hprobes
    rw [hold, hprobes]
  case failed =>
    intro fault hprobes
    rw [hold, hprobes]

/-- Two devices, one of which is offline. -/
def pair : Inventory :=
  ({} : Inventory).after
    [.insert ⟨0, 0⟩ { mac := "0060e9000001", ip := "10.0.0.1", missed := 3 },
      .insert ⟨0, 0⟩ { mac := "00-60-e9-00-00-02", missed := 1 }]

/-- Three interfaces, on one of which asking fails. The first device answers on both others, where
its answers come between one another, and so does somebody unknown. -/
def crossed : RollCall where
  stamp := ⟨1, 0⟩
  probes := .ok
    [.ok [⟨"00:60:e9:00:00:01", "10.0.0.7"⟩, ⟨"nobody", "10.0.0.8"⟩], .error (.rejected "no route"),
      .ok [⟨"0060E9000001", "10.0.0.9"⟩, ⟨" 0060e9000001", ""⟩]]
  order :=
    [⟨"0060E9000001", "10.0.0.9"⟩, ⟨"00:60:e9:00:00:01", "10.0.0.7"⟩, ⟨" 0060e9000001", ""⟩,
      ⟨"nobody", "10.0.0.8"⟩]
  perm := by decide

/-- The first device is followed to where it was marked last, and the second is offline. -/
theorem hold_closed_form_of_crossed :
    (crossed.hold pair).1 = .ok
      { interfaces := 3, responded := 3, missed := 1, offline := ["00-60-E9-00-00-02"] } ∧
    ((crossed.hold pair).2.devices.get? "00-60-E9-00-00-01").map
      (fun d ↦ (d.ip, d.missed, d.lastSeen)) = some ("10.0.0.7", 0, some ⟨1, 0⟩) := by
  have hfresh : ∀ mac d, pair.devices.get? mac = some d → d.lastSeen ≠ some crossed.stamp := by
    intro mac d hd
    have hall : ∀ d ∈ pair.devices.values, d.lastSeen ≠ some crossed.stamp := by decide +kernel
    exact hall d ((Table.mem_values_iff ..).2 ⟨mac, hd⟩)
  have hcanonical : pair.Canonical := (Canonical.of_empty rfl).after _
  obtain ⟨hasked, -⟩ := hold_closed_form crossed hcanonical hfresh
  obtain ⟨hdevices, hreport⟩ := hasked _ rfl (List.cons_ne_nil _ _)
  rw [hreport, hdevices]
  exact ⟨by decide +kernel, by decide +kernel⟩

end RollCall

end Inventory

end Switchyard
