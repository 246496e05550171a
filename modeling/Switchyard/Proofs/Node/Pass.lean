import Switchyard.Proofs.Node.Attempt

/-!
# Execution passes at a client

A pass attempts commands one after the other. If none of them deletes another and all of them can
be counted, each that was still to be run when the pass began is attempted exactly once, and what
came of it stands under its key. All other commands stay as they are.

## Main definitions

* `Ledger.Harmless` : no command that is still to be run deletes another.
* `Ledger.Passed` : what a pass makes of a ledger.

## Main results

* `Client.passed_runPending` : the ledger after a pass.
* `Client.fst_runPending` : the number of attempts of a pass.
-/

namespace Switchyard

open Command

namespace Ledger

/-- No command that is still to be run deletes another. -/
def Harmless (l : Ledger) : Prop :=
  ∀ k c, l.get? k = some c → c.status.isRunnable = true → c.deletes? = none

instance (l : Ledger) : Decidable l.Harmless := decidable_of_iff _ forall_get?_iff.symm

/-- What is still to be run was attempted, and all else stays. -/
structure Passed (l l' : Ledger) : Prop where
  owner : l'.owner = l.owner
  keyed : l'.Keyed
  attempted : ∀ k c, l.get? k = some c → c.status.isRunnable = true →
    ∃ o, l'.get? k = some o ∧ Comes l.owner c o
  stayed : ∀ k, (∀ c, l.get? k = some c → c.status.isTerminal = true) → l'.get? k = l.get? k

variable {l l' : Ledger} {k : Key} {o : Command}

theorem nodup_runnableKeys (l : Ledger) : l.runnableKeys.Nodup :=
  l.commands.nodup_keys.sublist (List.filter_sublist.map _)

theorem Harmless.exists_of_mem (h : l.Harmless) (hroom : l.HasRoom) (hk : k ∈ l.runnableKeys) :
    ∃ c, l.get? k = some c ∧ c.status.isRunnable = true ∧ c.HasRoom ∧ c.deletes? = none := by
  obtain ⟨c, hc, hrun⟩ := mem_runnableKeys_iff.1 hk
  exact ⟨c, hc, hrun, hroom k c hc, h k c hc hrun⟩

/-- What stands after a pass stood there done, or it is what came of an attempt. -/
theorem Passed.cases (h : Passed l l') (ho : l'.get? k = some o) :
    l.get? k = some o ∧ o.status.isTerminal = true ∨
      ∃ c, l.get? k = some c ∧ c.status.isRunnable = true ∧ Comes l.owner c o := by
  cases hc : l.get? k with
  | none =>
    rw [h.stayed k (by simp [hc]), hc] at ho
    cases ho
  | some c =>
    cases hdone : c.status.isTerminal with
    | true =>
      rw [h.stayed k (by simp [hc, hdone]), hc] at ho
      obtain rfl := Option.some.inj ho
      exact Or.inl ⟨rfl, hdone⟩
    | false =>
      have hrun := Status.isRunnable_iff.2 hdone
      obtain ⟨o', ho', hcomes⟩ := h.attempted k c hc hrun
      obtain rfl := Option.some.inj (ho'.symm.trans ho)
      exact Or.inr ⟨c, rfl, hrun, hcomes⟩

/-- After a pass nothing is new. -/
theorem Passed.status_ne_new (h : Passed l l') (ho : l'.get? k = some o) : o.status ≠ .new := by
  rcases h.cases ho with ⟨-, hdone⟩ | ⟨c, -, -, hcomes⟩
  · intro hnew
    rw [hnew] at hdone
    cases hdone
  · exact hcomes.status_ne_new

/-- A pass neither adds nor takes commands. -/
theorem Passed.get?_eq_none_iff (h : Passed l l') (k : Key) :
    l'.get? k = none ↔ l.get? k = none := by
  cases hc : l.get? k with
  | none => simp [h.stayed k (by simp [hc]), hc]
  | some c =>
    cases hdone : c.status.isTerminal with
    | true => simp [h.stayed k (by simp [hc, hdone]), hc]
    | false =>
      obtain ⟨o, ho, -⟩ := h.attempted k c hc (Status.isRunnable_iff.2 hdone)
      simp [ho]

end Ledger

namespace Client

open Node

variable {ω : Type} {now : Time.Instant} {p : Protocol ω} {k : Key} {n : Client ω} {c : Command}

@[simp] theorem owner_attemptAll (now : Time.Instant) (p : Protocol ω) (ks : List Key)
    (n : Client ω) :
    (n.attemptAll (dispatch now p) ks).2.ledger.owner = n.ledger.owner :=
  attemptAll_induction (P := fun m ↦ m.ledger.owner = n.ledger.owner)
    (fun k m hm ↦ (owner_attempt now p k m).trans hm) rfl ks

theorem keyed_attemptAll (hn : n.ledger.Keyed) (now : Time.Instant) (p : Protocol ω)
    (ks : List Key) : (n.attemptAll (dispatch now p) ks).2.ledger.Keyed :=
  attemptAll_induction (P := fun m ↦ m.ledger.Keyed) (fun k _ hm ↦ keyed_attempt hm now p k) hn ks

/-- A command that can be counted and deletes nothing leaves what came of it under its key, and all
else as it is. -/
theorem exists_get?_attempt (hn : n.ledger.Keyed) (hc : n.ledger.get? k = some c)
    (hrun : c.status.isRunnable = true) (hroom : c.HasRoom) (hdel : c.deletes? = none)
    (now : Time.Instant) (p : Protocol ω) :
    (n.attempt (dispatch now p) k).1 = some true ∧ ∃ o, Comes n.ledger.owner c o ∧
      ∀ k', (n.attempt (dispatch now p) k).2.ledger.get? k' =
        if k' = k then some o else n.ledger.get? k' := by
  obtain ⟨o, ho⟩ := exists_outcome? hc hrun hroom now p
  obtain ⟨c', hc', -, hcomes⟩ := comes_of_outcome? hn ho
  obtain rfl := Option.some.inj (hc'.symm.trans hc)
  refine ⟨fst_attempt_of_outcome? ho, o, hcomes, fun k' ↦ ?_⟩
  rw [get?_attempt hn ho, deletes?_congr hcomes.text, hdel, if_neg (by simp)]

/-- Attempts of different commands that can be counted and delete nothing. -/
theorem get?_attemptAll {ks : List Key} (hn : n.ledger.Keyed) (hks : ks.Nodup)
    (hrun : ∀ k ∈ ks, ∃ c, n.ledger.get? k = some c ∧ c.status.isRunnable = true ∧
      c.HasRoom ∧ c.deletes? = none) (now : Time.Instant) (p : Protocol ω) :
    (n.attemptAll (dispatch now p) ks).1 = some ks.length ∧
    (∀ k ∉ ks, (n.attemptAll (dispatch now p) ks).2.ledger.get? k = n.ledger.get? k) ∧
    ∀ k ∈ ks, ∀ c, n.ledger.get? k = some c →
      ∃ o, (n.attemptAll (dispatch now p) ks).2.ledger.get? k = some o ∧
        Comes n.ledger.owner c o := by
  induction ks generalizing n with
  | nil => exact ⟨rfl, fun _ _ ↦ rfl, fun _ hk ↦ absurd hk List.not_mem_nil⟩
  | cons k ks ih =>
    obtain ⟨hk, hrest⟩ := List.nodup_cons.1 hks
    obtain ⟨c, hc, hcrun, hroom, hdel⟩ := hrun k List.mem_cons_self
    obtain ⟨hmade, o, hcomes, hget⟩ := exists_get?_attempt hn hc hcrun hroom hdel now p
    have hother {k' : Key} (hk' : k' ∈ ks) :
        (n.attempt (dispatch now p) k).2.ledger.get? k' = n.ledger.get? k' := by
      have hne : k' ≠ k := by
        rintro rfl
        exact hk hk'
      rw [hget, if_neg hne]
    obtain ⟨hcount, hstay, hattempted⟩ := ih (keyed_attempt hn now p k) hrest fun k' hk' ↦ by
      rw [hother hk']
      exact hrun k' (List.mem_cons_of_mem _ hk')
    rw [attemptAll_cons_of_some hmade, hcount]
    refine ⟨?_, fun k' hk' ↦ ?_, fun k' hk' d hd ↦ ?_⟩
    · rw [Option.map_some, List.length_cons, Bool.toNat_true, Nat.add_comm]
    · obtain ⟨hne, hnot⟩ := not_or.1 (mt List.mem_cons.2 hk')
      rw [hstay k' hnot, hget, if_neg hne]
    · rcases List.mem_cons.1 hk' with rfl | hk'
      · obtain rfl := Option.some.inj (hc.symm.trans hd)
        exact ⟨o, by rw [hstay k' hk, hget, if_pos rfl], hcomes⟩
      · rw [← owner_attempt now p k n]
        exact hattempted k' hk' d ((hother hk').trans hd)

/-- In a pass every command that is still to be run is attempted once. -/
theorem fst_runPending (hn : n.ledger.Keyed) (h : n.ledger.Harmless) (hroom : n.ledger.HasRoom) :
    (n.runPending (dispatch now p)).1 = some n.ledger.runnable.length := by
  rw [runPending, (get?_attemptAll hn n.ledger.nodup_runnableKeys
      (fun _ hk ↦ h.exists_of_mem hroom hk) now p).1,
    Ledger.runnableKeys, List.length_map]

/-- In a pass what is still to be run is attempted, and all else stays. -/
theorem passed_runPending (hn : n.ledger.Keyed) (h : n.ledger.Harmless)
    (hroom : n.ledger.HasRoom) (now : Time.Instant) (p : Protocol ω) :
    n.ledger.Passed (n.runPending (dispatch now p)).2.ledger := by
  obtain ⟨-, hstay, hattempted⟩ := get?_attemptAll hn n.ledger.nodup_runnableKeys
    (fun _ hk ↦ h.exists_of_mem hroom hk) now p
  refine ⟨owner_attemptAll now p _ n, keyed_attemptAll hn now p _, fun k c hc hcrun ↦ ?_,
    fun k hk ↦ ?_⟩
  · exact hattempted k (Ledger.mem_runnableKeys_iff.2 ⟨c, hc, hcrun⟩) c hc
  · refine hstay k fun hmem ↦ ?_
    obtain ⟨c, hc, hcrun⟩ := Ledger.mem_runnableKeys_iff.1 hmem
    rw [Status.isRunnable_iff, hk c hc] at hcrun
    cases hcrun

end Client

end Switchyard
