import Switchyard.Proofs.Client.Cycle
import Switchyard.Proofs.Fleet.Budget

/-!
# What cycles leave at the root

In cycles that nothing disturbs, a client finishes what the root has for it. Root and client both
count how often a command was attempted: a pull keeps the larger count, and a push replaces the
count of the root. In each cycle everything is attempted that the root has for the client and
everything that is still to be run at the client, so that what is left after a cycle was attempted
once more than anything that was left before. And what an attempt leaves waiting has attempts left.
So after as many cycles as a command has attempts the root has nothing left for the client.

## Main definitions

* `Command.Tried` : how often a command was attempted at least.
* `Ledger.Worn` : what is left after some cycles.
* `Client.Round`, `Client.rounds` : cycles one after the other, each in its own surroundings.

## Main results

* `Ledger.Cycled.worn` : one cycle.
* `Client.pullFor_rounds_eq_nil` : four cycles.
-/

namespace Switchyard

open Command

/-! ### Counting attempts -/

namespace Command

/-- A command that was attempted so often, with room to count on. -/
structure Tried (times : Nat) (c : Command) : Prop where
  le : times ≤ c.tries
  room : c.retries.toNat < 2 ^ 31

variable {c o s : Command} {owner : String} {times : Nat}

/-- Only status and retries count. -/
theorem tries_congr (hstatus : s.status = c.status) (hretries : s.retries = c.retries) :
    s.tries = c.tries := by
  rw [tries, tries, hstatus, hretries]

theorem tries_carried (c : Command) : c.carried.tries = c.tries := by
  simp [tries]

theorem Tried.congr (h : c.Tried times) (hstatus : s.status = c.status)
    (hretries : s.retries = c.retries) : s.Tried times :=
  ⟨(tries_congr hstatus hretries).symm ▸ h.le, hretries.symm ▸ h.room⟩

theorem Tried.carried (h : c.Tried times) : c.carried.Tried times :=
  ⟨(tries_carried c).symm ▸ h.le, h.room⟩

/-- A pull keeps the larger count. -/
theorem Tried.mergedPulled (h : c.Tried times) (hs : s.retries.toNat < 2 ^ 31) :
    (Ledger.mergedPulled s c).Tried times := by
  have hretries := Ledger.toNat_retries_mergedPulled s c
  have hroom := h.room
  have hle : c.tries ≤ (Ledger.mergedPulled s c).tries := by
    have hstatus : (Ledger.mergedPulled s c).status = c.status := rfl
    rw [tries, tries, hstatus]
    split <;> omega
  exact ⟨h.le.trans hle, by omega⟩

theorem Tried.hasRoom (h : c.Tried times) : c.HasRoom :=
  fun _ ↦ h.room.trans_le (by decide)

/-- What an attempt leaves to be run was attempted once more, and has attempts left. -/
theorem Comes.tries_eq (h : Comes owner c o) (hrun : o.status.isRunnable = true) :
    o.tries = c.tries + 1 ∧ o.tries < maxAttempts.toNat := by
  rcases h.status with hdone | ⟨hwait, -, hlt⟩
  · rw [Status.isRunnable, hdone] at hrun
    cases hrun
  · have htries := tries_of_isPending hwait
    exact ⟨by rw [htries, h.retries], by rwa [htries]⟩

end Command

/-! ### Ledgers -/

namespace Ledger

/-- After some cycles, what is still to be run at the client that holds `l`, and what the root that
holds `r` has for it, was attempted as often; and from the first cycle on, what the root has for it
has attempts left. -/
structure Worn (times : Nat) (l r : Ledger) : Prop where
  held : ∀ k c, l.get? k = some c → c.status.isRunnable = true → c.Tried times
  offered : ∀ k c, r.offer l.owner k = some c → c.Tried times
  left : 0 < times → ∀ k c, r.offer l.owner k = some c → c.tries < maxAttempts.toNat

variable {l r m l' r' : Ledger} {k : Key} {c o : Command} {now : Time.Instant} {times : Nat}

/-- What is to be run after the pull was attempted as often as what was left on both sides. -/
theorem Pulled.tried (h : r.Pulled l m) (hw : Worn times l r) (hc : m.get? k = some c)
    (hrun : c.status.isRunnable = true) : c.Tried times := by
  rcases h.cases hc with hold | ⟨s, ho, rfl⟩
  · exact hw.held k c hold hrun
  · have hs : s.carried.Tried times := (hw.offered k s ho).carried
    cases hstood : l.get? k with
    | none => exact hs.congr rfl rfl
    | some t =>
      rw [hstood] at hrun
      cases hy : yieldsToPulled t with
      | false =>
        have hafter : afterPull l.owner s.carried (some t) = t := by simp [afterPull, hy]
        rw [hafter] at hrun ⊢
        exact hw.held k t hstood hrun
      | true =>
        have ht := hw.held k t hstood (Status.isRunnable_iff.2 (isTerminal_of_yieldsToPulled hy))
        have hafter : afterPull l.owner s.carried (some t) =
            { mergedPulled t s.carried with node := l.owner } := by simp [afterPull, hy]
        rw [hafter]
        exact (hs.mergedPulled ht.room).congr rfl rfl

/-- What is still to be run after the pass was attempted once more, and has attempts left. -/
theorem Cycled.tries_of_get? (h : Cycled now l r m l' r') (hw : Worn times l r)
    (ho : l'.get? k = some o) (hrun : o.status.isRunnable = true) :
    times + 1 ≤ o.tries ∧ o.tries < maxAttempts.toNat := by
  rcases h.passed.cases ho with ⟨-, hdone⟩ | ⟨c, hc, hcrun, hcomes⟩
  · rw [Status.isRunnable, hdone] at hrun
    cases hrun
  · have htried := h.pulled.tried hw hc hcrun
    obtain ⟨heq, hlt⟩ := hcomes.tries_eq hrun
    exact ⟨by rw [heq]; exact Nat.succ_le_succ htried.le, hlt⟩

/-- A cycle wears what is left by one attempt. -/
theorem Cycled.worn (h : Cycled now l r m l' r') (hw : Worn times l r) :
    Worn (times + 1) l' r' := by
  have hheld {k : Key} {o : Command} (ho : l'.get? k = some o)
      (hrun : o.status.isRunnable = true) :
      o.Tried (times + 1) ∧ o.tries < maxAttempts.toNat := by
    obtain ⟨hle, hlt⟩ := h.tries_of_get? hw ho hrun
    have hroom := o.retries_le_tries.trans_lt hlt
    exact ⟨⟨hle, hroom.trans (by decide)⟩, hlt⟩
  have hoffered {k : Key} {c : Command} (hc : r'.offer l'.owner k = some c) :
      c.Tried (times + 1) ∧ c.tries < maxAttempts.toNat := by
    rw [h.owner] at hc
    obtain ⟨o, flags, ho, hrun, rfl⟩ := h.of_offer hc
    obtain ⟨htried, hlt⟩ := hheld ho hrun
    have hcount : ({ o.carried.stamped now with flags } : Command).tries = o.tries :=
      (tries_congr rfl rfl).trans (tries_carried o)
    exact ⟨htried.carried.congr rfl rfl, hcount.trans_lt hlt⟩
  exact ⟨fun k o ho hrun ↦ (hheld ho hrun).1, fun k c hc ↦ (hoffered hc).1,
    fun _ k c hc ↦ (hoffered hc).2⟩

/-- What is done at the root or may be handed out stays so in a cycle of a client with another
name. -/
theorem Cycled.exists_get? (h : Cycled now l r m l' r') (hne : l.owner ≠ r.owner)
    (hs : r.get? k = some c) (hs' : c.status.isTerminal = true ∨ c.node ≠ r.owner) :
    ∃ d, r'.get? k = some d ∧ (d.status.isTerminal = true ∨ d.node ≠ r'.owner) := by
  have hget := h.pushed.get? k
  rw [h.pushed.owner]
  cases ho : l'.get? k with
  | none =>
    rw [ho] at hget
    exact ⟨c, hget.trans hs, hs'⟩
  | some o =>
    rw [ho, hs] at hget
    refine ⟨_, hget, ?_⟩
    cases hdone : c.status.isTerminal with
    | true =>
      rw [afterPush_of_isTerminal hdone]
      exact Or.inl hdone
    | false =>
      have hafter : afterPush now o.carried (some c) =
          { o.carried.stamped now with flags := c.flags } := by simp [afterPush, hdone]
      rw [hafter]
      rcases h.passed.cases ho with ⟨-, hodone⟩ | ⟨before, -, -, hcomes⟩
      · left
        exact (Status.isTerminal_parse_text o.status).trans hodone
      · right
        have hnode : o.carried.node = l.owner :=
          (carried_node o).trans (hcomes.node.trans h.pulled.owner)
        exact hnode.trans_ne hne

/-- After as many cycles as a command has attempts the root has nothing for the client. -/
theorem Worn.pullFor_eq_nil (h : Worn times l r) (hr : r.Keyed)
    (htimes : maxAttempts.toNat ≤ times) : r.pullFor l.owner = [] := by
  refine List.eq_nil_iff_forall_not_mem.2 fun c hc ↦ ?_
  have ho := hr.mem_pullFor_iff.1 hc
  have hle := (h.offered _ c ho).le
  have hlt := h.left (Nat.lt_of_lt_of_le (by decide) htimes) _ c ho
  omega

end Ledger

/-! ### Cycles one after the other -/

namespace Client

variable {ω : Type} {n : Client ω} {r : Root} {times : Nat}

/-- The surroundings of a cycle: when it begins and when its push arrives, how the network answers,
and which devices and intervals the client then has. -/
structure Round (ω : Type) where
  begun : Time.Instant
  arrived : Time.Instant
  protocol : Protocol ω
  inventory : Inventory
  bench : Bench ω

/-- Client and root after a cycle that nothing disturbs. -/
def Round.run (d : Round ω) (n : Client ω) (r : Root) : Client ω × Root :=
  (cycle (Link.loopback d.arrived) (dispatch d.begun d.protocol) ⟨n.ledger, d.inventory, d.bench⟩
    r).2

/-- Client and root after such cycles, one after the other. -/
def rounds : List (Round ω) → Client ω → Root → Client ω × Root
  | [], n, r => (n, r)
  | d :: ds, n, r => rounds ds (d.run n r).1 (d.run n r).2

/-- What every cycle needs of the ledgers of client and root, and what is left after some. -/
structure Drains (times : Nat) (n : Client ω) (r : Root) : Prop where
  stable : n.ledger.Stable
  rootStable : r.ledger.Stable
  harmless : n.ledger.Harmless
  rootHarmless : r.ledger.Harmless
  worn : n.ledger.Worn times r.ledger

theorem Drains.cycled (h : n.Drains times r) (d : Round ω) :
    ∃ m, Ledger.Cycled d.arrived n.ledger r.ledger m (d.run n r).1.ledger (d.run n r).2.ledger := by
  have hroom : n.ledger.HasRoom := fun k c hc hrun ↦ (h.worn.held k c hc hrun).hasRoom hrun
  have hroom' : ∀ c ∈ r.ledger.pullFor n.ledger.owner, c.HasRoom := fun c hc ↦
    (h.worn.offered _ c (h.rootStable.keyed.mem_pullFor_iff.1 hc)).hasRoom
  obtain ⟨n', r', hcycle, hsteps⟩ := cycle_loopback (n := ⟨n.ledger, d.inventory, d.bench⟩)
    h.stable h.rootStable h.harmless h.rootHarmless hroom hroom' d.arrived d.begun d.protocol
  have hrun : d.run n r = (n', r') := by rw [Round.run, hcycle]
  rw [hrun]
  exact ⟨_, hsteps⟩

theorem Drains.run (h : n.Drains times r) (d : Round ω) :
    (d.run n r).1.Drains (times + 1) (d.run n r).2 := by
  obtain ⟨m, hsteps⟩ := h.cycled d
  have hstable := hsteps.passed.stable (hsteps.pulled.stable h.stable h.rootStable)
  have hharmless := hsteps.passed.harmless
    (hsteps.pulled.harmless h.rootStable.keyed h.harmless h.rootHarmless)
  exact ⟨hstable, hsteps.pushed.stable hstable h.rootStable, hharmless,
    hsteps.pushed.harmless hstable.keyed hharmless h.rootHarmless, hsteps.worn h.worn⟩

theorem Drains.rounds (h : n.Drains times r) (ds : List (Round ω)) :
    (Client.rounds ds n r).1.ledger.owner = n.ledger.owner ∧
      (Client.rounds ds n r).1.Drains (times + ds.length) (Client.rounds ds n r).2 := by
  induction ds generalizing n r times with
  | nil => exact ⟨rfl, h⟩
  | cons d ds ih =>
    obtain ⟨m, hsteps⟩ := h.cycled d
    obtain ⟨howner, hlast⟩ := ih (h.run d)
    rw [List.length_cons, ← Nat.add_assoc, Nat.add_right_comm]
    exact ⟨howner.trans hsteps.owner, hlast⟩

theorem Drains.exists_get?_rounds {k : Key} {c : Command} (h : n.Drains times r)
    (hne : n.ledger.owner ≠ r.ledger.owner) (hc : r.ledger.get? k = some c)
    (hc' : c.status.isTerminal = true ∨ c.node ≠ r.ledger.owner) (ds : List (Round ω)) :
    ∃ d, (Client.rounds ds n r).2.ledger.get? k = some d ∧
      (d.status.isTerminal = true ∨ d.node ≠ (Client.rounds ds n r).2.ledger.owner) := by
  induction ds generalizing n r times c with
  | nil => exact ⟨c, hc, hc'⟩
  | cons d ds ih =>
    obtain ⟨m, hsteps⟩ := h.cycled d
    obtain ⟨c', hget, hstate⟩ := hsteps.exists_get? hne hc hc'
    exact ih (h.run d) (by rwa [hsteps.owner, hsteps.pushed.owner]) hget hstate

/-- After four cycles that nothing disturbs, whatever devices there are and whatever they answer,
the root has nothing left for the client. If the client does not go by the name of the root, all
that the root had for it is done. -/
theorem pullFor_rounds_eq_nil (hn : n.ledger.Stable) (hr : r.ledger.Stable)
    (hn' : n.ledger.Harmless) (hr' : r.ledger.Harmless)
    (hroom : ∀ k c, n.ledger.get? k = some c → c.status.isRunnable = true →
      c.retries.toNat < 2 ^ 31)
    (hroom' : ∀ k c, r.ledger.get? k = some c → c.status.isRunnable = true →
      c.retries.toNat < 2 ^ 31)
    {ds : List (Round ω)} (hds : 4 ≤ ds.length) :
    (Client.rounds ds n r).2.ledger.pullFor n.ledger.owner = [] ∧
      (n.ledger.owner ≠ r.ledger.owner → ∀ c ∈ r.ledger.pullFor n.ledger.owner,
        ∃ d, (Client.rounds ds n r).2.ledger.get? c.key = some d ∧
          d.status.isTerminal = true) := by
  have hworn : n.ledger.Worn 0 r.ledger := by
    refine ⟨fun k c hc hrun ↦ ⟨Nat.zero_le _, hroom k c hc hrun⟩, fun k c hc ↦ ?_, ?_⟩
    · obtain ⟨hget, hrun, -⟩ := Ledger.offer_eq_some_iff.1 hc
      exact ⟨Nat.zero_le _, hroom' k c hget hrun⟩
    · exact fun hpos ↦ absurd hpos (Nat.lt_irrefl 0)
  have hbegin : n.Drains 0 r := ⟨hn, hr, hn', hr', hworn⟩
  obtain ⟨howner, h⟩ := hbegin.rounds ds
  have hnil : (Client.rounds ds n r).2.ledger.pullFor n.ledger.owner = [] := by
    rw [← howner]
    exact h.worn.pullFor_eq_nil h.rootStable.keyed (by rwa [Nat.zero_add])
  refine ⟨hnil, fun hne c hc ↦ ?_⟩
  obtain ⟨hget, -, hfor, hnode⟩ :=
    Ledger.offer_eq_some_iff.1 (hr.keyed.mem_pullFor_iff.1 hc)
  obtain ⟨d, hd, hdone | hnode'⟩ := hbegin.exists_get?_rounds hne hget (Or.inr hnode) ds
  · exact ⟨d, hd, hdone⟩
  · refine ⟨d, hd, ?_⟩
    -- were it still to be run, it would still be handed out
    by_contra hrun
    have hoffer := Ledger.mem_pullFor_iff.2
      ⟨c.key, hd, Status.isRunnable_iff.2 (Bool.eq_false_iff.2 hrun), hfor, hnode'⟩
    rw [hnil] at hoffer
    cases hoffer

/-- A root with a new command. -/
def beeping : Root where
  node :=
    ⟨holding "root" [{ text := "beep 00-00-00-00-00-01 1.2.3.4" }], .listened, ⟨"", .nothing⟩⟩

/-- A client that was given the same command, protects it, and does not know the device. -/
def lone : Client Unit where
  ledger := holding "c1"
    [{ text := "beep 00-00-00-00-00-01 1.2.3.4", flags := { noOverwrite := true } }]
  inventory := .listened
  site := { network := () }

/-- A cycle with no devices and a network that grants every request. -/
def idleRound : Round Unit :=
  ⟨default, default, Fleet.quiet (), .listened, { network := () }⟩

/-- The command is left at the root for three cycles, and done after the fourth. -/
theorem pullFor_idleRounds :
    (Client.rounds (.replicate 3 idleRound) lone beeping).2.ledger.pullFor "c1" ≠ [] ∧
      (Client.rounds (.replicate 4 idleRound) lone beeping).2.ledger.pullFor "c1" = [] ∧
      ∃ d, (Client.rounds (.replicate 4 idleRound) lone beeping).2.ledger.get?
        ⟨none, "beep 00-00-00-00-00-01 1.2.3.4"⟩ = some d ∧ d.status.isTerminal = true := by
  have hdrained : (Client.rounds (.replicate 4 idleRound) lone beeping).2.ledger.pullFor
        lone.ledger.owner = [] ∧
      (lone.ledger.owner ≠ beeping.ledger.owner →
        ∀ c ∈ beeping.ledger.pullFor lone.ledger.owner,
          ∃ d, (Client.rounds (.replicate 4 idleRound) lone beeping).2.ledger.get? c.key = some d ∧
            d.status.isTerminal = true) :=
    pullFor_rounds_eq_nil (n := lone) (r := beeping) (by decide) (by decide) (by decide)
      (by decide) (Ledger.forall_get?_iff.2 (by decide)) (Ledger.forall_get?_iff.2 (by decide))
      (by decide)
  exact ⟨by decide +kernel, hdrained.1, hdrained.2 (by decide)
    { text := "beep 00-00-00-00-00-01 1.2.3.4" } (by decide)⟩

end Client

end Switchyard
