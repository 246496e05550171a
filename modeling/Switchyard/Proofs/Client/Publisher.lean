import Switchyard.Proofs.Device.DeviceTable
import Switchyard.Proofs.Inventory.Feed
import Switchyard.Proofs.Root.Own

/-!
# The publisher of a client

A client sends the feed of its inventory to the root in bursts, the newest entry of each device
winning, and does not send again what fails to arrive. The feed may be cut into bursts in any way,
any of them may be lost, and other things may happen at the root in between. Still the root never
gets stuck: whatever it holds of a device came from earlier entries of the feed, which the newest
one succeeds. So if the newest entry is complete and its burst arrives, it is what the root holds in
the end, apart from the lock and the moment at which the device was seen, and the root has announced
the device once.

## Main definitions

* `Root.Visit` : a burst of a client, or something else that happens at the root.
* `Root.Visit.Spares` : what else happens does not report a device.

## Main results

* `Root.inventory_afterVisits` : visits come down to operations on the inventory.
* `Client.publisher_converges` : the newest entry of a device arrives.
-/

namespace Switchyard

/-! ### Bursts -/

namespace Client

variable {d : Device} {changes : List Device}

/-- What a burst brings, after the trip to the root. -/
def arrivals (changes : List Device) : List Device := (DeviceTable.encode (burst changes)).values

theorem mem_of_mem_arrivals (h : d ∈ arrivals changes) : d ∈ changes :=
  DeviceTable.mem_of_mem_values_encode (DeviceTable.mem_of_mem_values_encode h)

/-- A burst brings the newest entry of a device, and no other entry of it. -/
theorem exists_arrivals_eq (older : List Device) {newer : List Device}
    (h : ∀ e ∈ newer, e.mac ≠ d.mac) :
    ∃ before behind, arrivals (older ++ d :: newer) = before ++ d :: behind ∧
      ∀ e ∈ before ++ behind, e ∈ older ++ d :: newer ∧ e.mac ≠ d.mac := by
  have hd : d ∈ burst (older ++ d :: newer) := DeviceTable.mem_values_encode_of_newest h
  obtain ⟨d', hd', hmac⟩ := DeviceTable.exists_mem_values_encode hd
  have hburst : d' ∈ burst (older ++ d :: newer) := DeviceTable.mem_of_mem_values_encode hd'
  obtain rfl : d' = d := List.inj_on_of_nodup_map (DeviceTable.nodup_values_encode _) hburst hd hmac
  obtain ⟨before, behind, harrivals⟩ := List.append_of_mem hd'
  refine ⟨before, behind, harrivals, fun e he ↦ ⟨mem_of_mem_arrivals ?_, fun hmac ↦ ?_⟩⟩
  · rw [arrivals, harrivals]
    exact List.perm_middle.mem_iff.2 (List.mem_cons_of_mem _ he)
  · have hnodup := DeviceTable.nodup_values_encode (burst (older ++ d' :: newer))
    rw [harrivals, List.map_append, List.map_cons] at hnodup
    refine (List.nodup_middle.1 hnodup).notMem ?_
    rw [← List.map_append, ← hmac]
    exact List.mem_map_of_mem he

end Client

/-! ### Visits -/

/-- Whether a command loads a snapshot. -/
def Command.LoadsSnapshot (c : Command) : Prop :=
  c.words = ["devices", "load"] ∨ ∃ file, c.words = ["devices", "load", file]

namespace Root

/-- What happens at the root while a client publishes: a burst of changes is sent, which may be
lost; a turn of the root; or an operation on its inventory. -/
inductive Visit where
  | burst (now : Time.Instant) (changes : List Device) (lost : Option Fault)
  | turn (t : Turn)
  | operate (op : Inventory.Operation)

namespace Visit

/-- The part of the feed that is sent. -/
def changes : Visit → List Device
  | .burst _ changes _ => changes
  | _ => []

/-- The root afterwards. -/
def apply : Visit → Root → Root
  | .burst now changes lost, r =>
    (Client.publish (lost.elim (.loopback now) .severed) (Client.burst changes) r).2
  | .turn t, r => r.turn t
  | .operate op, r => r.withInventory (op.apply r.inventory)

/-- The operations on the inventory of the root. -/
def record : Visit → List Inventory.Operation
  | .burst now changes none => (Client.arrivals changes).map (.insert now)
  | .turn (.acceptDevices now ds) => ds.map (.insert now)
  | .operate op => [op]
  | _ => []

/-- No snapshot is loaded, nobody else reports the device with a canonical address, and of the
operations only those on its lock are about it. -/
def Spares (mac : String) : Visit → Prop
  | .burst .. => True
  | .turn (.submit _ c) => ¬(asMeant c).LoadsSnapshot
  | .turn (.accept _ cs) => ∀ c ∈ cs, c.status = .new → ¬(asMeant c).LoadsSnapshot
  | .turn (.acceptDevices _ ds) => ∀ d ∈ ds, Mac.canonical? d.mac ≠ some mac
  | .turn _ => True
  | .operate op => op.mac? = some mac → op.Locks mac

end Visit

/-- The root after some visits. -/
def afterVisits : List Visit → Root → Root
  | [], r => r
  | v :: vs, r => afterVisits vs (v.apply r)

variable {r : Root} {now : Time.Instant} {c : Command} {mac : String}

/-- Of the commands of the root, only those that load a snapshot change the inventory. -/
theorem inventory_runOwn (hc : ¬c.LoadsSnapshot) (now : Time.Instant) (r : Root) :
    (r.runOwn now c).2.inventory = r.inventory := by
  by_cases hkeys : (r.runOwn now c).1 = []
  · rcases runOwn_cases now c r with hnone | ⟨a, -, -, hwritten, -⟩
    · rw [hnone]
    · rw [hwritten] at hkeys
      cases hkeys
  rw [runOwn_eq hkeys]
  change (r.ownRun now c).2.inventory = (r.withOwn now c).node.inventory
  have hverb := dispatch_verb now r (r.asOwn now c).verb
  rw [ownRun]
  split_ifs at hverb
  swap
  · rw [Dispatch.run_eq_of_none hverb]
  rw [Dispatch.run_eq_of_some hverb]
  change (Handler.snapshot now (r.asOwn now c) (r.withOwn now c).node).2.inventory = _
  rw [Handler.snapshot]
  split
  next => rfl
  swap
  next => rfl
  next hact =>
    unfold Handler.snapshotAction at hact
    simp only at hact
    split at hact
    next =>
      cases hsave : (r.withOwn now c).node.site.save now (r.withOwn now c).node.inventory.devices with
      | error fault => rw [hsave] at hact; cases hact
      | ok saved => rw [hsave] at hact; cases hact; rfl
    next hwords => exact absurd (Or.inl hwords) hc
    next file hwords => exact absurd (Or.inr ⟨file, hwords⟩) hc
    next =>
      cases hnames : (r.withOwn now c).node.site.snapshots with
      | error fault => rw [hnames] at hact; cases hact
      | ok names => rw [hnames] at hact; cases hact; rfl
    next => cases hact

theorem inventory_submit (hc : ¬(asMeant c).LoadsSnapshot) (now : Time.Instant) (r : Root) :
    (r.submit now c).2.inventory = r.inventory := by
  cases hown : Command.isForRoot (asMeant c).text with
  | true => rw [submit_of_isForRoot hown, inventory_runOwn hc]
  | false => rw [submit_of_not_isForRoot hown]; rfl

/-- A visit comes down to its operations on the inventory. -/
theorem inventory_apply {v : Visit} (hv : v.Spares mac) (r : Root) :
    (v.apply r).inventory = r.inventory.after v.record := by
  cases v with
  | burst now changes lost =>
    rw [Visit.apply, Client.publish]
    cases lost with
    | some fault => split <;> rfl
    | none =>
      rw [Visit.record, Inventory.after_map_insert]
      split
      next hempty =>
        rw [Client.arrivals, List.isEmpty_iff.1 hempty]
        rfl
      next => rfl
  | turn t =>
    cases t with
    | submit now c => exact inventory_submit hv now r
    | accept now cs =>
      refine accept_induction (P := fun r' ↦ r'.inventory = r.inventory) rfl ?_ fun _ h _ _ ↦ h
      exact fun r' h c hc hnew ↦ (inventory_submit (hv c hc hnew) now r').trans h
    | acceptPush now cs => rfl
    | delete k =>
      rw [Visit.apply, turn, delete]
      split <;> rfl
    | acceptDevices now ds => exact (Inventory.after_map_insert now ds r.inventory).symm
    | register now a => rfl
  | operate op => rfl

/-- Visits come down to operations on the inventory. -/
theorem inventory_afterVisits {vs : List Visit} (hvs : ∀ v ∈ vs, v.Spares mac) (r : Root) :
    (r.afterVisits vs).inventory = r.inventory.after (vs.flatMap Visit.record) := by
  induction vs generalizing r with
  | nil => rfl
  | cons v vs ih =>
    rw [List.forall_mem_cons] at hvs
    rw [afterVisits, ih hvs.2, inventory_apply hvs.1, List.flatMap_cons, Inventory.after_append]

/-- An operation on a device is one on its lock, or merges an entry of the feed. -/
theorem Visit.of_mem_record {v : Visit} {op : Inventory.Operation} (hv : v.Spares mac)
    (hcanonical : ∀ d ∈ v.changes, Mac.canonical? d.mac = some d.mac) (hop : op ∈ v.record)
    (hmac : op.mac? = some mac) :
    op.Locks mac ∨ ∃ now d, op = .insert now d ∧ d ∈ v.changes ∧ d.mac = mac := by
  cases v with
  | burst now changes lost =>
    cases lost with
    | some fault => cases hop
    | none =>
      obtain ⟨d, hd, rfl⟩ := List.mem_map.1 hop
      have hchange : d ∈ changes := Client.mem_of_mem_arrivals hd
      have haddress : some d.mac = some mac := (hcanonical d hchange).symm.trans hmac
      exact Or.inr ⟨now, d, rfl, hchange, Option.some.inj haddress⟩
  | turn t =>
    cases t with
    | acceptDevices now ds =>
      obtain ⟨d, hd, rfl⟩ := List.mem_map.1 hop
      exact absurd hmac (hv d hd)
    | _ => cases hop
  | operate op' =>
    obtain rfl := List.mem_singleton.1 hop
    exact Or.inl (hv hmac)

theorem Visit.of_mem_records {vs : List Visit} {op : Inventory.Operation}
    (hvs : ∀ v ∈ vs, v.Spares mac)
    (hcanonical : ∀ d ∈ vs.flatMap Visit.changes, Mac.canonical? d.mac = some d.mac)
    (hop : op ∈ vs.flatMap Visit.record) (hmac : op.mac? = some mac) :
    op.Locks mac ∨ ∃ now d, op = .insert now d ∧ d ∈ vs.flatMap Visit.changes ∧ d.mac = mac := by
  obtain ⟨v, hv, hop⟩ := List.mem_flatMap.1 hop
  have hmem (d : Device) (hd : d ∈ v.changes) : d ∈ vs.flatMap Visit.changes :=
    List.mem_flatMap.2 ⟨v, hv, hd⟩
  rcases of_mem_record (hvs v hv) (fun d hd ↦ hcanonical d (hmem d hd)) hop hmac with
    hlocks | ⟨now, d, rfl, hd, haddress⟩
  · exact Or.inl hlocks
  · exact Or.inr ⟨now, d, rfl, hmem d hd, haddress⟩

/-! ### The newest entry -/

variable {visits earlier later : List Visit} {older newer : List Device} {d : Device}

/-- The newest entry of a device is merged after entries of no higher rank, and before none. -/
theorem exists_get?_afterVisits
    (hvisits : visits = earlier ++ .burst now (older ++ d :: newer) none :: later)
    (hspares : ∀ v ∈ visits, v.Spares d.mac) (hr : r.inventory.devices.get? d.mac = none)
    (hcanonical : ∀ e ∈ visits.flatMap Visit.changes, Mac.canonical? e.mac = some e.mac)
    (hranks : (visits.flatMap Visit.changes).Pairwise
      fun e e' ↦ e'.mac = e.mac → e.source.rank ≤ e'.source.rank)
    (hnewest : ∀ e ∈ newer ++ later.flatMap Visit.changes, e.mac ≠ d.mac)
    (hcomplete : d.isComplete = true) :
    ∃ locked, (r.afterVisits visits).inventory.devices.get? d.mac =
      some { d with lastSeen := some now, locked } := by
  obtain ⟨before, behind, harrivals, hothers⟩ := Client.exists_arrivals_eq older
    fun e he ↦ hnewest e (List.mem_append_left _ he)
  have hrecord : visits.flatMap Visit.record =
      (earlier.flatMap Visit.record ++ before.map (.insert now)) ++
        .insert now d :: (behind.map (.insert now) ++ later.flatMap Visit.record) := by
    rw [hvisits, List.flatMap_append, List.flatMap_cons, Visit.record, harrivals]
    simp
  rw [inventory_afterVisits hspares, hrecord]
  subst hvisits
  simp only [List.flatMap_append, List.flatMap_cons, Visit.changes, List.forall_mem_append,
    List.forall_mem_cons, List.pairwise_append] at hspares hcanonical hranks
  obtain ⟨hspares, -, hspares'⟩ := hspares
  obtain ⟨hearly, ⟨hold, hd, hnew⟩, hlate⟩ := hcanonical
  -- what else the burst brings is about other devices
  have hinsert (e : Device) (he : e ∈ before ++ behind) :
      (Inventory.Operation.insert now e).mac? ≠ some d.mac := by
    obtain ⟨hchange, hne⟩ := hothers e he
    have haddress : Mac.canonical? e.mac = some e.mac := by
      rcases List.mem_append.1 hchange with hmem | hmem
      · exact hold e hmem
      · rcases List.mem_cons.1 hmem with rfl | hmem
        · exact hd
        · exact hnew e hmem
    exact fun hmac ↦ hne (Option.some.inj (haddress.symm.trans hmac))
  refine Inventory.exists_get?_after_newest hd hcomplete (by simp [hr]) (fun op hop hmac ↦ ?earlier)
    fun op hop hmac ↦ ?later
  case earlier =>
    rcases List.mem_append.1 hop with hop | hop
    · rcases Visit.of_mem_records hspares hearly hop hmac with hlocks | ⟨now, e, rfl, he, haddress⟩
      · exact Or.inl hlocks
      · obtain ⟨⟨-, hrank, -⟩, -⟩ := hranks.2.2 e he
        exact Or.inr ⟨now, e, rfl, hrank haddress.symm⟩
    · obtain ⟨e, he, rfl⟩ := List.mem_map.1 hop
      exact absurd hmac (hinsert e (List.mem_append_left _ he))
  case later =>
    rcases List.mem_append.1 hop with hop | hop
    · obtain ⟨e, he, rfl⟩ := List.mem_map.1 hop
      exact absurd hmac (hinsert e (List.mem_append_right _ he))
    · rcases Visit.of_mem_records hspares' hlate hop hmac with hlocks | ⟨now, e, rfl, he, haddress⟩
      · exact hlocks
      · exact absurd haddress (hnewest e (List.mem_append_right _ he))

/-- A device that the root did not know is announced once. -/
theorem count_newDevice_afterVisits (hspares : ∀ v ∈ visits, v.Spares mac)
    (hr : r.inventory.devices.get? mac = none)
    (hd : (r.afterVisits visits).inventory.devices.get? mac = some d) :
    (r.afterVisits visits).inventory.alerts.count (.newDevice mac) =
      r.inventory.alerts.count (.newDevice mac) + 1 := by
  have hcount := Inventory.count_newDevice_raisedBy (visits.flatMap Visit.record) r.inventory mac
  rw [← inventory_afterVisits hspares, hr, hd] at hcount
  rw [inventory_afterVisits hspares, Inventory.alerts_after, List.count_append]
  exact congrArg _ hcount

end Root

namespace Client

open Root

variable {ω : Type}

/-- However the feed of a client is cut into bursts, whichever of them are lost, and whatever else
happens at the root that loads no snapshot and does not report the device: if the root does not know
the device, and the newest entry of the feed about it is complete and its burst arrives, then in the
end the root holds this entry, apart from the lock and the moment at which it saw the device, and
has announced the device once. Along the feed the ranks of a device never fall. -/
theorem publisher_converges {n : Client ω} {us : List (Upkeep ω)} {r : Root}
    {visits earlier later : List Visit} {now : Time.Instant} {older newer : List Device}
    {d : Device} (hn : n.inventory.Canonical) (hfeed : n.inventory.feed = some [])
    (hcut : (n.afterUpkeep us).inventory.feed = some (visits.flatMap Visit.changes))
    (hvisits : visits = earlier ++ .burst now (older ++ d :: newer) none :: later)
    (hspares : ∀ v ∈ visits, v.Spares d.mac) (hr : r.inventory.devices.get? d.mac = none)
    (hnewest : ∀ e ∈ newer ++ later.flatMap Visit.changes, e.mac ≠ d.mac)
    (hcomplete : d.isComplete = true) :
    (visits.flatMap Visit.changes).Pairwise
      (fun e e' ↦ e'.mac = e.mac → e.source.rank ≤ e'.source.rank) ∧
    (∃ locked, (r.afterVisits visits).inventory.devices.get? d.mac =
      some { d with lastSeen := some now, locked }) ∧
    (r.afterVisits visits).inventory.alerts.count (.newDevice d.mac) =
      r.inventory.alerts.count (.newDevice d.mac) + 1 := by
  -- the feed holds what the upkeep of the client put on it
  have hpublished : visits.flatMap Visit.changes = n.inventory.publishedBy (upkeepRecord us n) := by
    rw [inventory_afterUpkeep, Inventory.feed_after, hfeed] at hcut
    exact (Option.some.inj hcut).symm
  have hranks : (visits.flatMap Visit.changes).Pairwise
      fun e e' ↦ e'.mac = e.mac → e.source.rank ≤ e'.source.rank := by
    rw [hpublished]
    exact (Inventory.pairwise_publishedBy hn _).imp fun h hmac ↦ (h hmac).rank
  have hcanonical (e : Device) (he : e ∈ visits.flatMap Visit.changes) :
      Mac.canonical? e.mac = some e.mac :=
    Inventory.canonical_of_mem_publishedBy hn (hpublished ▸ he)
  obtain ⟨locked, hlocked⟩ :=
    exists_get?_afterVisits hvisits hspares hr hcanonical hranks hnewest hcomplete
  exact ⟨hranks, ⟨locked, hlocked⟩, count_newDevice_afterVisits hspares hr hlocked⟩

/-- What the feed says of a device that is reported, missed by a check and reported again. -/
def story : List Device :=
  let first := { fullReport with mac := "00-60-E9-00-00-01", lastSeen := some default }
  [first, { first with missed := 1 }, { first with hostname := "renamed" }]

/-- The first burst is lost and the second arrives, after the client has announced itself. -/
def bursts : List Visit :=
  [.burst default (story.take 1) (some (.transport "down")),
    .turn (.register default { name := "c1" }), .burst ⟨2, 0⟩ (story.drop 1) none]

/-- The root holds the device under its new name and has announced it once. -/
theorem publisher_converges_of_story :
    let r := archivist.afterVisits bursts
    (∃ locked, r.inventory.devices.get? "00-60-E9-00-00-01" =
      some { fullReport with
        mac := "00-60-E9-00-00-01", hostname := "renamed", lastSeen := some ⟨2, 0⟩, locked }) ∧
    r.inventory.alerts.count (.newDevice "00-60-E9-00-00-01") = 1 := by
  have hempty : (start default "c1" .default ()).inventory.Canonical :=
    Inventory.Canonical.of_empty rfl
  have hcut : ((start default "c1" .default ()).afterUpkeep
      [.operate (.insert default fullReport),
        .check ⟨1, 0⟩ ⟨.ok ["eth0"], fun _ ↦ .ok (), fun _ ↦ .ok []⟩,
        .operate (.insert default { fullReport with hostname := "renamed" })]).inventory.feed =
      some (bursts.flatMap Visit.changes) := by decide +kernel
  have hvisits : bursts = [.burst default (story.take 1) (some (.transport "down")),
      .turn (.register default { name := "c1" })] ++ .burst ⟨2, 0⟩ ((story.drop 1).take 1 ++
        { fullReport with
          mac := "00-60-E9-00-00-01", hostname := "renamed", lastSeen := some default } :: [])
        none :: [] := rfl
  have hnew : archivist.inventory.devices.get? "00-60-E9-00-00-01" = none := rfl
  obtain ⟨-, hstored, hcount⟩ := publisher_converges hempty rfl hcut hvisits
    (by simp [bursts, Visit.Spares]) hnew (by simp) (by decide +kernel)
  exact ⟨hstored, hcount⟩

end Client

end Switchyard
