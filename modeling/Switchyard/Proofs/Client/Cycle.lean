import Switchyard.Proofs.Fleet.Invariant
import Switchyard.Proofs.Ledger.Exchange
import Switchyard.Proofs.Node.Pass

/-!
# A cycle that nothing disturbs

When the pull and the push of a cycle both arrive and nobody else acts on the root in between, root
and client agree afterwards. The client holds all that the root had for it. The root holds what was
done there before, and all else as the client holds it, under the flags that the root had. So
nothing that the root would hand to the client is new.

Only the ledgers matter. They take three steps: the client merges what it is offered, it passes
over its ledger, and the root merges what the client then holds.

## Main definitions

* `Ledger.Pulled`, `Ledger.Pushed` : the first and the last step, key by key.
* `Ledger.Cycled` : the three steps of a cycle.

## Main results

* `Client.cycle_loopback` : a cycle takes the three steps.
* `Client.agreement_after_cycle` : what root and client hold afterwards, and what is reported.
-/

namespace Switchyard

open Command

namespace Ledger

variable {l r m l' r' : Ledger} {k : Key} {c s : Command} {now : Time.Instant}

/-! ### The pull -/

/-- The client that held `l` holds `m` after a pull from a root that holds `r`. -/
structure Pulled (r l m : Ledger) : Prop where
  owner : m.owner = l.owner
  keyed : m.Keyed
  get? : ∀ k, m.get? k =
    match r.offer l.owner k with
    | none => l.get? k
    | some c => some (afterPull l.owner c.carried (l.get? k))

theorem pulled_mergePulled (hl : l.Keyed) (hr : r.Stable) :
    r.Pulled l (l.mergePulled (CommandTable.decode (.encode (r.pullFor l.owner)))).2 :=
  ⟨owner_mergePulled _ l, hl.mergePulled _, get?_mergePulled_offered hr l.owner l⟩

namespace Pulled

/-- Where what the client holds comes from. -/
theorem cases (h : r.Pulled l m) (hc : m.get? k = some c) :
    l.get? k = some c ∨
      ∃ s, r.offer l.owner k = some s ∧ c = afterPull l.owner s.carried (l.get? k) := by
  have hget := h.get? k
  cases ho : r.offer l.owner k with
  | none =>
    rw [ho, hc] at hget
    exact Or.inl hget.symm
  | some s =>
    rw [ho, hc] at hget
    exact Or.inr ⟨s, rfl, Option.some.inj hget⟩

theorem stable (h : r.Pulled l m) (hl : l.Stable) (hr : r.Stable) : m.Stable := by
  refine ⟨h.keyed, fun k c hc ↦ ?_⟩
  rcases h.cases hc with hold | ⟨s, ho, -⟩
  · exact hl.isStable k c hold
  · exact hr.isStable k s (offer_eq_some_iff.1 ho).1

theorem harmless (h : r.Pulled l m) (hr : r.Keyed) (hl' : l.Harmless) (hr' : r.Harmless) :
    m.Harmless := by
  intro k c hc hrun
  rcases h.cases hc with hold | ⟨s, ho, -⟩
  · exact hl' k c hold hrun
  · obtain ⟨hs, hsrun, -⟩ := offer_eq_some_iff.1 ho
    have hkey : c.key = s.key := (h.keyed k c hc).trans (hr k s hs).symm
    rw [deletes?_congr (congrArg Key.text hkey)]
    exact hr' k s hs hsrun

end Pulled

/-! ### The pass -/

theorem Passed.stable (h : m.Passed l') (hm : m.Stable) : l'.Stable := by
  refine ⟨h.keyed, fun k o ho ↦ ?_⟩
  rcases h.cases ho with ⟨hold, -⟩ | ⟨c, hc, -⟩
  · exact hm.isStable k o hold
  · exact hm.isStable k c hc

theorem Passed.harmless (h : m.Passed l') (hm : m.Harmless) : l'.Harmless := by
  intro k o ho hrun
  rcases h.cases ho with ⟨-, hdone⟩ | ⟨c, hc, hcrun, hcomes⟩
  · rw [Status.isRunnable, hdone] at hrun
    cases hrun
  · rw [deletes?_congr hcomes.text]
    exact hm k c hc hcrun

/-! ### The push -/

/-- The root that held `r` holds `r'` after a push of a client that holds `l`. -/
structure Pushed (now : Time.Instant) (l r r' : Ledger) : Prop where
  owner : r'.owner = r.owner
  keyed : r'.Keyed
  get? : ∀ k, r'.get? k =
    match l.get? k with
    | none => r.get? k
    | some c => some (afterPush now c.carried (r.get? k))

theorem pushed_mergePushed (hl : l.Stable) (hr : r.Keyed) (now : Time.Instant) :
    l.Pushed now r (r.mergePushed now (CommandTable.decode (.encode l.commands.values))).2 :=
  ⟨owner_mergePushed _ r, hr.mergePushed _, get?_mergePushed_sent hl now r⟩

/-- What is still to be run under a key after a push was pushed as such. -/
theorem afterPush_of_isRunnable {stood : Option Command}
    (h : (afterPush now c stood).status.isRunnable = true) :
    ∃ flags, afterPush now c stood = { c.stamped now with flags } := by
  cases stood with
  | none => exact ⟨c.flags, rfl⟩
  | some s =>
    cases hs : s.status.isTerminal with
    | true =>
      rw [afterPush_of_isTerminal hs, Status.isRunnable, hs] at h
      cases h
    | false => exact ⟨s.flags, by simp [afterPush, hs]⟩

namespace Pushed

/-- Where what is still to be run at the root comes from. -/
theorem cases (h : l.Pushed now r r') (hc : r'.get? k = some c)
    (hrun : c.status.isRunnable = true) :
    l.get? k = none ∧ r.get? k = some c ∨
      ∃ o flags, l.get? k = some o ∧ o.status.isRunnable = true ∧
        c = { o.carried.stamped now with flags } := by
  have hget := h.get? k
  cases ho : l.get? k with
  | none =>
    rw [ho, hc] at hget
    exact Or.inl ⟨rfl, hget.symm⟩
  | some o =>
    rw [ho, hc] at hget
    obtain rfl := Option.some.inj hget
    obtain ⟨flags, hafter⟩ := afterPush_of_isRunnable hrun
    refine Or.inr ⟨o, flags, rfl, ?_, hafter⟩
    rw [hafter] at hrun
    exact (carried_isRunnable o).symm.trans hrun

theorem stable (h : l.Pushed now r r') (hl : l.Stable) (hr : r.Stable) : r'.Stable := by
  refine ⟨h.keyed, fun k c hc ↦ ?_⟩
  have hget := h.get? k
  cases ho : l.get? k with
  | none =>
    rw [ho, hc] at hget
    exact hr.isStable k c hget.symm
  | some o => exact hl.isStable k o ho

theorem harmless (h : l.Pushed now r r') (hl : l.Keyed) (hl' : l.Harmless) (hr' : r.Harmless) :
    r'.Harmless := by
  intro k c hc hrun
  rcases h.cases hc hrun with ⟨-, hold⟩ | ⟨o, -, ho, horun, -⟩
  · exact hr' k c hold hrun
  · have hkey : c.key = o.key := (h.keyed k c hc).trans (hl k o ho).symm
    rw [deletes?_congr (congrArg Key.text hkey)]
    exact hl' k o ho horun

end Pushed

/-! ### The three steps -/

/-- The three steps of a cycle: the client held `l` and the root `r`, the client holds `m` after the
pull and `l'` after the pass, and the root holds `r'` after the push. -/
structure Cycled (now : Time.Instant) (l r m l' r' : Ledger) : Prop where
  pulled : r.Pulled l m
  passed : m.Passed l'
  pushed : l'.Pushed now r r'

namespace Cycled

theorem owner (h : Cycled now l r m l' r') : l'.owner = l.owner :=
  h.passed.owner.trans h.pulled.owner

/-- What the client was offered it holds afterwards. -/
theorem get?_ne_none_of_offer (h : Cycled now l r m l' r') (ho : r.offer l.owner k = some s) :
    l'.get? k ≠ none := by
  rw [ne_eq, h.passed.get?_eq_none_iff, h.pulled.get?, ho]
  simp

/-- The client holds afterwards what it held and what the root had for it. -/
theorem isSome_get?_iff (h : Cycled now l r m l' r') (hr : r.Keyed) :
    (l'.get? k).isSome ↔ (l.get? k).isSome ∨ ∃ c ∈ r.pullFor l.owner, c.key = k := by
  simp only [← hr.offer_iff_mem_pullFor, Option.isSome_iff_ne_none, ne_eq,
    h.passed.get?_eq_none_iff, h.pulled.get?]
  cases r.offer l.owner k <;> simp

/-- What the root offers afterwards is still to be run at the client. -/
theorem of_offer (h : Cycled now l r m l' r') (ho : r'.offer l.owner k = some c) :
    ∃ o flags, l'.get? k = some o ∧ o.status.isRunnable = true ∧
      c = { o.carried.stamped now with flags } := by
  obtain ⟨hc, hrun, hfor, hnode⟩ := offer_eq_some_iff.1 ho
  rcases h.pushed.cases hc hrun with ⟨hnone, hold⟩ | hpushed
  · -- what stands at the root as before was offered before, so that the client holds it
    rw [h.pushed.owner] at hnode
    exact absurd hnone (h.get?_ne_none_of_offer (offer_eq_some_iff.2 ⟨hold, hrun, hfor, hnode⟩))
  · exact hpushed

/-- The root offers nothing new afterwards. -/
theorem status_ne_new_of_offer (h : Cycled now l r m l' r') (ho : r'.offer l.owner k = some c) :
    c.status ≠ .new := by
  obtain ⟨o, flags, hheld, -, rfl⟩ := h.of_offer ho
  have hnew : o.carried.status ≠ .new := by
    rw [carried_status, ne_eq, Status.parse_text_eq_new_iff]
    exact h.passed.status_ne_new hheld
  exact hnew

end Cycled

end Ledger

/-- The wire leaves room in a counter. -/
theorem Command.HasRoom.carried {c : Command} (h : c.HasRoom) : c.carried.HasRoom :=
  fun hrun ↦ h (c.carried_isRunnable ▸ hrun)

/-! ### Cycles of a client -/

namespace Client

variable {ω : Type} {n : Client ω} {r : Root}

/-- What a cycle over the loopback link does and reports, if its pass comes to its end. -/
theorem cycle_loopback_eq {d : Dispatch (Bench ω)} {executed : Nat}
    (h : ((n.take (Fleet.answerTo n r)).2.runPending d).1 = some executed) (now : Time.Instant) :
    n.cycle (Link.loopback now) d r =
      (some (.ok ⟨(Fleet.answerTo n r).length, (n.take (Fleet.answerTo n r)).1, executed,
          ((n.take (Fleet.answerTo n r)).2.runPending d).2.ledger.commands.values.length⟩),
        ((n.take (Fleet.answerTo n r)).2.runPending d).2,
        (r.accept now (Fleet.report ((n.take (Fleet.answerTo n r)).2.runPending d).2)).2) := by
  have hpull : (Link.loopback now).pull n.ledger.owner r = (.ok (Fleet.answerTo n r), r) := rfl
  simp only [cycle, hpull]
  split
  next heq =>
    rw [heq] at h
    cases h
  next heq =>
    rw [heq] at h ⊢
    obtain rfl := Option.some.inj h
    rfl

/-- A cycle over the loopback link takes the three steps. -/
theorem cycle_loopback (hn : n.ledger.Stable) (hr : r.ledger.Stable) (hn' : n.ledger.Harmless)
    (hr' : r.ledger.Harmless) (hroom : n.ledger.HasRoom)
    (hroom' : ∀ c ∈ r.ledger.pullFor n.ledger.owner, c.HasRoom) (now t : Time.Instant)
    (p : Protocol ω) :
    ∃ n' r', n.cycle (Link.loopback now) (dispatch t p) r =
        (some (.ok ⟨(Fleet.answerTo n r).length, (n.ledger.mergePulled (Fleet.answerTo n r)).1,
          (n.take (Fleet.answerTo n r)).2.ledger.runnable.length, n'.ledger.size⟩), n', r') ∧
      Ledger.Cycled now n.ledger r.ledger (n.take (Fleet.answerTo n r)).2.ledger n'.ledger
        r'.ledger := by
  obtain ⟨m, hm⟩ : ∃ m, (n.take (Fleet.answerTo n r)).2 = m := ⟨_, rfl⟩
  obtain ⟨n', hpass⟩ : ∃ n', (m.runPending (dispatch t p)).2 = n' := ⟨_, rfl⟩
  have hpulled : r.ledger.Pulled n.ledger m.ledger :=
    hm ▸ Ledger.pulled_mergePulled hn.keyed hr
  have hharmless : m.ledger.Harmless := hpulled.harmless hr.keyed hn' hr'
  have hcounts : m.ledger.HasRoom := by
    rw [← hm]
    refine hroom.mergePulled fun c hc ↦ ?_
    obtain ⟨sent, hsent, rfl⟩ := CommandTable.mem_decode_encode hc
    exact (hroom' sent hsent).carried
  have hpassed : m.ledger.Passed n'.ledger :=
    hpass ▸ passed_runPending hpulled.keyed hharmless hcounts t p
  have hstable : n'.ledger.Stable := hpassed.stable (hpulled.stable hn hr)
  have hreport : ∀ c ∈ Fleet.report n', c.status ≠ .new :=
    fun _ ↦ status_ne_new_of_mem_report fun _ _ ↦ hpassed.status_ne_new
  refine ⟨n', (r.accept now (Fleet.report n')).2, ?_, hm.symm ▸ hpulled, hm.symm ▸ hpassed, ?_⟩
  · rw [cycle_loopback_eq (hm.symm ▸ fst_runPending hpulled.keyed hharmless hcounts), hm, hpass]
    simp only [Ledger.size, Table.size, Table.values, List.length_map]
    rfl
  · rw [Root.accept_eq_acceptPush hreport]
    exact Ledger.pushed_mergePushed hstable hr.keyed now

/-- After a cycle over the loopback link, root and client agree, if there was room in the counters of
what was to be run at the client and of what the root had for it. Under each key of the client the
root holds what was done there before, and otherwise what the client holds, as it comes over the
wire, with a timestamp and with the flags that the root had. Under all other keys the root holds
what it held. The client holds what it held and what the root had for it. Nothing that the root
still has for the client is new. The report counts what the root had for the client, what of it
found nothing protected or done, what was then to be run, and all that the client holds. -/
theorem agreement_after_cycle (hn : n.ledger.Stable) (hr : r.ledger.Stable)
    (hn' : n.ledger.Harmless) (hr' : r.ledger.Harmless) (hroom : n.ledger.HasRoom)
    (hroom' : ∀ c ∈ r.ledger.pullFor n.ledger.owner, c.HasRoom) (now t : Time.Instant)
    (p : Protocol ω) :
    ∃ n' r', n.cycle (Link.loopback now) (dispatch t p) r =
        (some (.ok { pulled := (r.ledger.pullFor n.ledger.owner).length
                     accepted := (r.ledger.pullFor n.ledger.owner).countP fun c ↦
                       (n.ledger.get? c.key).all Ledger.yieldsToPulled
                     executed := (n.take (Fleet.answerTo n r)).2.ledger.runnable.length
                     pushed := n'.ledger.size }), n', r') ∧
      (∀ k c, n'.ledger.get? k = some c → r'.ledger.get? k = some
        (match r.ledger.get? k with
        | none => c.carried.stamped now
        | some s =>
          if s.status.isTerminal then s else { c.carried.stamped now with flags := s.flags })) ∧
      (∀ k, n'.ledger.get? k = none → r'.ledger.get? k = r.ledger.get? k) ∧
      (∀ k, (n'.ledger.get? k).isSome ↔
        (n.ledger.get? k).isSome ∨ ∃ c ∈ r.ledger.pullFor n.ledger.owner, c.key = k) ∧
      ∀ c ∈ r'.ledger.pullFor n.ledger.owner, c.status ≠ .new := by
  obtain ⟨n', r', hcycle, h⟩ := cycle_loopback hn hr hn' hr' hroom hroom' now t p
  have hpulled : (Fleet.answerTo n r).length = (r.ledger.pullFor n.ledger.owner).length := by
    rw [Fleet.answerTo, (hr.perm (hr.keyed.nodup_pullFor _)
      (Ledger.forall_mem_pullFor hr.keyed _)).length_eq, List.length_map]
  have haccepted := Ledger.fst_mergePulled_offered hr n.ledger.owner n.ledger
  refine ⟨n', r', ?_, fun k c hc ↦ ?_, fun k hk ↦ ?_, fun k ↦ h.isSome_get?_iff hr.keyed,
    fun c hc ↦ ?_⟩
  · rw [hcycle, hpulled, Fleet.answerTo, haccepted]
  · rw [h.pushed.get?, hc]
    cases r.ledger.get? k <;> rfl
  · rw [h.pushed.get?, hk]
  · exact h.status_ne_new_of_offer (h.pushed.keyed.mem_pullFor_iff.1 hc)

/-- A node's ledger with some commands. -/
def holding (owner : String) (cs : List Command) : Ledger :=
  { owner, commands := .ofList (cs.map fun c ↦ (c.key, c)) }

/-- A root with a command that is new, one that waits, one that is done, and one for somebody
else. -/
def desk : Root where
  node :=
    ⟨holding "root"
      [{ text := "scan gwd", flags := { noSyslog := true } },
       { text := "scan snmp", status := .pending "device locked" },
       { text := "beep 00-00-00-00-00-02 1.2.3.4", status := .ok, result := "done" },
       { text := "scan gwd", client := some "c2" }], .listened, ⟨"", .nothing⟩⟩

/-- A client that protects what waits at the root, still has to run what is done there, and has a
command of its own. -/
def hand : Client Unit where
  ledger := holding "c1"
    [{ text := "scan snmp", status := .error "timeout", flags := { noOverwrite := true } },
     { text := "beep 00-00-00-00-00-02 1.2.3.4", status := .pending "device locked" },
     { text := "beep 00-00-00-00-00-01 1.2.3.4", client := some "c1" }]
  inventory := .listened
  site := { network := () }

/-- What they agree on after a cycle. -/
theorem agreement_of_desk_and_hand :
    ∃ n' r', hand.cycle (Link.loopback default) (dispatch default (Fleet.quiet ())) desk =
        (some (.ok ⟨2, 1, 3, 4⟩), n', r') ∧
      (∃ c, n'.ledger.get? ⟨none, "scan snmp"⟩ = some c ∧ c.status = .error "timeout" ∧
        r'.ledger.get? ⟨none, "scan snmp"⟩ = some { c.carried.stamped default with flags := {} }) ∧
      r'.ledger.get? ⟨none, "beep 00-00-00-00-00-02 1.2.3.4"⟩ =
        desk.ledger.get? ⟨none, "beep 00-00-00-00-00-02 1.2.3.4"⟩ ∧
      r'.ledger.get? ⟨some "c2", "scan gwd"⟩ = desk.ledger.get? ⟨some "c2", "scan gwd"⟩ ∧
      ∀ c ∈ r'.ledger.pullFor "c1", c.status ≠ .new := by
  obtain ⟨n', r', hcycle, hheld, helse, hkeys, hnew⟩ :=
    agreement_after_cycle (n := hand) (r := desk) (by decide) (by decide) (by decide) (by decide)
      (by decide) (by decide) default default (Fleet.quiet ())
  have hn' : n' = (hand.cycle (Link.loopback default) (dispatch default (Fleet.quiet ()))
    desk).2.1 := by rw [hcycle]
  have hsize : n'.ledger.size = 4 := by rw [hn']; decide
  have hsnmp : (n'.ledger.get? ⟨none, "scan snmp"⟩).map (·.status) = some (.error "timeout") := by
    rw [hn']; decide
  have hbeep : (n'.ledger.get? ⟨none, "beep 00-00-00-00-00-02 1.2.3.4"⟩).isSome = true :=
    (hkeys _).2 (Or.inl (by decide))
  obtain ⟨c, hc, hstatus⟩ := Option.map_eq_some_iff.1 hsnmp
  obtain ⟨d, hd⟩ := Option.isSome_iff_exists.1 hbeep
  refine ⟨n', r', ?_, ⟨c, hc, hstatus, hheld _ c hc⟩, hheld _ d hd, helse _ ?_, hnew⟩
  · rw [hcycle, hsize]
    rfl
  · rw [hn']
    decide

end Client

end Switchyard
