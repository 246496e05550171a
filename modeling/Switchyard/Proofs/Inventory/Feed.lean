import Switchyard.Proofs.Inventory.Upkeep

/-!
# The feed of an inventory

What operations store or change of a device, they put on the feed of the inventory, locks excepted.
So the feed tells the story of every device: each entry stands under its canonical address and
succeeds the entries before it of the same device.

An inventory that merges such entries as reports, some of them or all, ends with the newest one that
it got, if that one is complete: what it holds of the device came from earlier entries, and has no
higher rank.

## Main definitions

* `Inventory.publishedBy` : what some operations put on the feed.

## Main results

* `Inventory.feed_after` : the feed grows by what is put on it.
* `Inventory.pairwise_publishedBy` : an entry succeeds those before it of the same device.
* `Inventory.exists_get?_after_newest` : the newest report of a device wins.
-/

namespace Switchyard.Inventory

/-- The devices that an operation puts on the feed. -/
def Operation.published (op : Operation) (inv : Inventory) : List Device :=
  (op.change? inv).elim [] fun ch ↦ if ch.2.published then [ch.2.device] else []

/-- The devices that some operations put on the feed. -/
def publishedBy : List Operation → Inventory → List Device
  | [], _ => []
  | op :: ops, inv => op.published inv ++ publishedBy ops (op.apply inv)

variable {inv : Inventory} {mac : String} {d d' : Device} {op : Operation} {ops : List Operation}

/-! ### What is put on the feed -/

theorem feed_apply (op : Operation) (inv : Inventory) :
    (op.apply inv).feed = inv.feed.map (· ++ op.published inv) := by
  rw [apply_eq, Operation.published]
  cases op.change? inv with
  | none => simp
  | some ch =>
    obtain ⟨mac, e⟩ := ch
    cases hpublished : e.published <;> simp [Effect.make, hpublished]

/-- The feed grows by what is put on it. -/
theorem feed_after (ops : List Operation) (inv : Inventory) :
    (inv.after ops).feed = inv.feed.map (· ++ inv.publishedBy ops) := by
  induction ops generalizing inv with
  | nil => simp [after, publishedBy]
  | cons op ops ih =>
    rw [after, ih, feed_apply, Option.map_map, publishedBy]
    congr 1
    funext feed
    exact List.append_assoc ..

/-- What an operation puts on the feed is what it stored. -/
theorem get?_of_mem_published (h : inv.Canonical) (hd : d ∈ op.published inv) :
    (op.apply inv).devices.get? d.mac = some d := by
  unfold Operation.published at hd
  cases hch : op.change? inv with
  | none => rw [hch] at hd; cases hd
  | some ch =>
    obtain ⟨mac, e⟩ := ch
    obtain ⟨hmac, he⟩ := Operation.change?_eq_some_iff.1 hch
    have hdevice : d = e.device := by
      rw [hch, Option.elim_some] at hd
      split at hd
      · exact List.mem_singleton.1 hd
      · cases hd
    have haddress : d.mac = mac :=
      hdevice ▸ Operation.mac_of_effect? he fun d hd ↦ (h mac d hd).1
    rw [haddress, get?_apply_of_mac?_eq hmac, he, Option.elim_some, hdevice]

theorem canonical_of_mem_publishedBy (h : inv.Canonical) (hd : d ∈ inv.publishedBy ops) :
    Mac.canonical? d.mac = some d.mac := by
  induction ops generalizing inv with
  | nil => cases hd
  | cons op ops ih =>
    rcases List.mem_append.1 hd with hnow | hlater
    · exact (h.apply op d.mac d (get?_of_mem_published h hnow)).2
    · exact ih (h.apply op) hlater

/-- Whatever is put on the feed succeeds what was stored of the device. -/
theorem succeeds_of_mem_publishedBy (h : inv.Canonical) (hd : inv.devices.get? mac = some d)
    (hd' : d' ∈ inv.publishedBy ops) (hmac : d'.mac = mac) : d.Succeeds d' := by
  induction ops generalizing inv d with
  | nil => cases hd'
  | cons op ops ih =>
    obtain ⟨d₁, hd₁, hsucceeds, -⟩ := exists_get?_apply hd op
    rcases List.mem_append.1 hd' with hnow | hlater
    · have hstored := get?_of_mem_published h hnow
      rw [hmac, hd₁] at hstored
      exact Option.some.inj hstored ▸ hsucceeds
    · exact hsucceeds.trans (ih (h.apply op) hd₁ hlater)

/-- An entry of the feed succeeds those before it of the same device. -/
theorem pairwise_publishedBy (h : inv.Canonical) (ops : List Operation) :
    (inv.publishedBy ops).Pairwise fun d d' ↦ d'.mac = d.mac → d.Succeeds d' := by
  induction ops generalizing inv with
  | nil => exact .nil
  | cons op ops ih =>
    refine List.pairwise_append.2 ⟨?_, ih (h.apply op), fun d hd d' hd' hmac ↦ ?_⟩
    · rw [Operation.published]
      cases op.change? inv with
      | none => exact .nil
      | some ch =>
        rw [Option.elim_some]
        split
        · exact List.pairwise_singleton ..
        · exact .nil
    · exact succeeds_of_mem_publishedBy (h.apply op) (get?_of_mem_published h hd) hd' hmac

/-! ### Where the feed is merged -/

/-- Operations on its lock alone change nothing else of a device. -/
theorem exists_get?_after_of_locks (hd : inv.devices.get? mac = some d)
    (hops : ∀ op ∈ ops, op.mac? = some mac → op.Locks mac) :
    ∃ locked, (inv.after ops).devices.get? mac = some { d with locked } := by
  induction ops generalizing inv d with
  | nil => exact ⟨d.locked, hd⟩
  | cons op ops ih =>
    rw [List.forall_mem_cons] at hops
    have hone : ∃ locked, (op.apply inv).devices.get? mac = some { d with locked } := by
      by_cases hmac : op.mac? = some mac
      · rw [get?_apply_of_mac?_eq hmac, hd]
        cases he : op.effect? mac (some d) with
        | none => exact ⟨d.locked, rfl⟩
        | some e =>
          obtain ⟨-, rfl⟩ := Operation.effect?_some_eq_some_iff.1 he
          have hlocks := hops.1 hmac
          cases op with
          | setLock locked target => exact ⟨locked, rfl⟩
          | tryAcquire target => exact ⟨true, rfl⟩
          | _ => exact hlocks.elim
      · exact ⟨d.locked, (get?_apply_of_mac?_ne hmac).trans hd⟩
    obtain ⟨held, hheld⟩ := hone
    obtain ⟨locked, hlocked⟩ := ih hheld hops.2
    exact ⟨locked, hlocked⟩

/-- What reports of a bounded rank leave of a device has no higher rank. -/
theorem rank_le_after {bound : Nat}
    (hd : ∀ d, inv.devices.get? mac = some d → d.source.rank ≤ bound)
    (hops : ∀ op ∈ ops, op.mac? = some mac → op.Locks mac ∨
      ∃ now report, op = .insert now report ∧ report.source.rank ≤ bound) :
    ∀ d, (inv.after ops).devices.get? mac = some d → d.source.rank ≤ bound := by
  induction ops generalizing inv with
  | nil => exact hd
  | cons op ops ih =>
    rw [List.forall_mem_cons] at hops
    refine ih (fun d hd' ↦ ?_) hops.2
    by_cases hmac : op.mac? = some mac
    swap
    · exact hd d ((get?_apply_of_mac?_ne hmac).symm.trans hd')
    rw [get?_apply_of_mac?_eq hmac] at hd'
    cases he : op.effect? mac (inv.devices.get? mac) with
    | none => exact hd d (by rwa [he] at hd')
    | some e =>
      rw [he, Option.elim_some] at hd'
      obtain rfl := Option.some.inj hd'
      rcases hops.1 hmac with hlocks | ⟨now, report, rfl, hrank⟩
      · rcases Operation.effect?_cases he with ⟨d, hstored, -, rfl⟩ | ⟨-, now, report, rfl, -⟩
        · have hsame : (op.edit mac d).device.source = d.source := by
            cases op with
            | setLock => rfl
            | tryAcquire => rfl
            | _ => exact hlocks.elim
          rw [hsame]
          exact hd d hstored
        · exact hlocks.elim
      · rcases Operation.effect?_cases he with ⟨d, -, -, rfl⟩ | ⟨-, now', report', heq, rfl⟩
        · exact hrank
        · cases heq
          exact hrank

/-- The newest report of a device wins, if it is complete and none of the earlier ones had a higher
rank: apart from its lock the device is afterwards as it was reported, seen at that moment. -/
theorem exists_get?_after_newest {now : Time.Instant} {earlier later : List Operation}
    (hmac : Mac.canonical? d.mac = some mac) (hcomplete : d.isComplete = true)
    (hstored : ∀ s, inv.devices.get? mac = some s → s.source.rank ≤ d.source.rank)
    (hearlier : ∀ op ∈ earlier, op.mac? = some mac → op.Locks mac ∨
      ∃ now report, op = .insert now report ∧ report.source.rank ≤ d.source.rank)
    (hlater : ∀ op ∈ later, op.mac? = some mac → op.Locks mac) :
    ∃ locked, (inv.after (earlier ++ .insert now d :: later)).devices.get? mac =
      some { d with mac, lastSeen := some now, locked } := by
  have hrank := rank_le_after hstored hearlier
  have hmerged : ∃ locked, ((Operation.insert now d).apply (inv.after earlier)).devices.get? mac =
      some { d with mac, lastSeen := some now, locked } := by
    have htarget : (Operation.insert now d).mac? = some mac := hmac
    rw [get?_apply_of_mac?_eq htarget]
    cases hs : (inv.after earlier).devices.get? mac with
    | none => exact ⟨d.locked, rfl⟩
    | some s =>
      have haccepts : (Operation.insert now d).permitted s = true :=
        accepts_iff.2 ⟨hrank s hs, hcomplete⟩
      refine ⟨s.locked, ?_⟩
      rw [Operation.effect?_some_eq_some_iff.2 ⟨haccepts, rfl⟩]
      rfl
  obtain ⟨locked, hlocked⟩ := hmerged
  rw [after_append, after]
  exact exists_get?_after_of_locks hlocked hlater

end Switchyard.Inventory
