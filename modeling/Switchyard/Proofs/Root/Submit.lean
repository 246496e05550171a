import Switchyard.Proofs.Handler.Contract

/-!
# What operators and clients write at the root

What an operator gives is written under the listed keys and nowhere else. Under them it is new, or
done at once when the root runs it itself. A table without new commands is a report, which is
merged as a whole.

## Main results

* `Root.get?_submit_of_not_mem`, `Root.exists_get?_submit_of_mem` : the ledger after a command was
  given.
* `Root.accept_eq_acceptPush` : a table without new commands is a report.
-/

namespace Switchyard.Root

open Command Handler

variable {r : Root} {now : Time.Instant} {c : Command} {k : Key}

@[simp] theorem ledger_withLedger (l : Ledger) (r : Root) : (r.withLedger l).ledger = l := rfl

/-! ### Commands that the root runs itself -/

theorem key_asOwn (now : Time.Instant) (c : Command) (r : Root) : (r.asOwn now c).key = c.key := rfl

/-- A command of the root is stored as one copy. -/
theorem give_asOwn (now : Time.Instant) (c : Command) (r : Root) :
    r.ledger.give now (r.asOwn now c) [] =
      r.ledger.giveCopies [Ledger.renewed now (r.asOwn now c)] := rfl

/-- The root stores a command of its own with its outcome, or refuses to replace what is there. -/
theorem runOwn_cases (now : Time.Instant) (c : Command) (r : Root) :
    r.runOwn now c = ([], r) ∨
      ∃ a, a.status.isTerminal = true ∧ IsAnswer (r.asOwn now c) a ∧
        (r.runOwn now c).1 = [c.key] ∧ (r.runOwn now c).2.ledger.owner = r.ledger.owner ∧
        ∀ k, (r.runOwn now c).2.ledger.get? k = if k = c.key then some a else r.ledger.get? k := by
  rw [runOwn]
  simp only [give_asOwn, Ledger.giveCopies_singleton]
  cases hstored : (r.ledger.giveCopy (Ledger.renewed now (r.asOwn now c))).1 with
  | false => exact Or.inl rfl
  | true =>
    let stored := r.ledger.store (Ledger.renewed now (r.asOwn now c))
    let result := (r.dispatch now).run (r.asOwn now c) (r.withLedger stored).node
    have hkeeps : Keeps (r.asOwn now c) (r.withLedger stored).node result := keeps_run ..
    have hkey : result.1.key = c.key := hkeeps.answer.key.trans (key_asOwn now c r)
    have hledger : result.2.ledger = stored := hkeeps.ledger
    have hcopy : (Ledger.renewed now (r.asOwn now c)).key = c.key := rfl
    refine Or.inr ⟨result.1, isTerminal_run now r _ _, hkeeps.answer, rfl, ?_, fun k ↦ ?_⟩
    · change (result.2.ledger.complete result.1).2.owner = _
      rw [Ledger.owner_complete, hledger, Ledger.owner_store]
    · change (result.2.ledger.complete result.1).2.get? k = _
      rw [Ledger.get?_complete, hledger, hkey, Ledger.get?_store]
      by_cases hk : c.key = k
      · subst hk
        rw [if_pos rfl, if_pos rfl, hcopy, if_pos rfl]
        rfl
      · rw [if_neg hk, if_neg (Ne.symm hk), hcopy, if_neg (Ne.symm hk)]

/-! ### What operators give -/

theorem submit_of_isForRoot (h : isForRoot (asMeant c).text = true) :
    r.submit now c = r.runOwn now (asMeant c) := by
  simp [submit, h]

theorem submit_of_not_isForRoot (h : isForRoot (asMeant c).text = false) :
    r.submit now c = ((r.ledger.give now (asMeant c) r.roster.names).1,
      r.withLedger (r.ledger.give now (asMeant c) r.roster.names).2) := by
  simp [submit, h]

theorem device_asMeant (c : Command) : (asMeant c).device = c.device := by
  rw [asMeant]
  split <;> rfl

@[simp] theorem owner_submit (now : Time.Instant) (c : Command) (r : Root) :
    (r.submit now c).2.ledger.owner = r.ledger.owner := by
  cases hown : isForRoot (asMeant c).text with
  | true =>
    rw [submit_of_isForRoot hown]
    rcases runOwn_cases now (asMeant c) r with hnone | ⟨a, -, -, -, howner, -⟩
    · rw [hnone]
    · exact howner
  | false =>
    rw [submit_of_not_isForRoot hown]
    exact Ledger.owner_give _

/-- A key that is not listed as written stands as before. -/
theorem get?_submit_of_not_mem (h : k ∉ (r.submit now c).1) :
    (r.submit now c).2.ledger.get? k = r.ledger.get? k := by
  cases hown : isForRoot (asMeant c).text with
  | true =>
    rw [submit_of_isForRoot hown] at h ⊢
    rcases runOwn_cases now (asMeant c) r with hnone | ⟨a, -, -, hkeys, -, hget⟩
    · rw [hnone]
    · rw [hkeys, List.mem_singleton] at h
      rw [hget, if_neg h]
  | false =>
    rw [submit_of_not_isForRoot hown] at h ⊢
    exact Ledger.get?_give_of_not_mem h

/-- Under a key that is listed as written stands a command that is new, or done if the root runs
it itself. -/
theorem exists_get?_submit_of_mem (h : k ∈ (r.submit now c).1) :
    ∃ d, (r.submit now c).2.ledger.get? k = some d ∧ d.key = k ∧
      (if isForRoot (asMeant c).text then d.status.isTerminal = true
        else d.status = .new ∧ d.retries = 0 ∧ d.device = c.device) := by
  cases hown : isForRoot (asMeant c).text with
  | true =>
    rw [submit_of_isForRoot hown] at h ⊢
    rcases runOwn_cases now (asMeant c) r with hnone | ⟨a, hdone, hanswer, hkeys, -, hget⟩
    · rw [hnone] at h
      cases h
    · rw [hkeys, List.mem_singleton] at h
      exact ⟨a, by rw [hget, if_pos h], by rw [hanswer.key, key_asOwn, h], hdone⟩
  | false =>
    rw [submit_of_not_isForRoot hown] at h ⊢
    obtain ⟨d, hd, hkey, hget⟩ := Ledger.get?_give_of_mem h
    obtain ⟨hnew, hretries, hdevice⟩ := Ledger.status_of_mem_copies hd
    exact ⟨d, hget, hkey, hnew, hretries, hdevice.trans (device_asMeant c)⟩

theorem keyed_submit (hr : r.ledger.Keyed) (now : Time.Instant) (c : Command) :
    (r.submit now c).2.ledger.Keyed := by
  intro k d hd
  by_cases hk : k ∈ (r.submit now c).1
  · obtain ⟨d', hd', hkey, -⟩ := exists_get?_submit_of_mem hk
    rw [← Option.some.inj (hd'.symm.trans hd), hkey]
  · rw [get?_submit_of_not_mem hk] at hd
    exact hr k d hd

/-! ### What clients report -/

@[simp] theorem ledger_acceptPush (now : Time.Instant) (cs : List Command) (r : Root) :
    (r.acceptPush now cs).2.ledger = (r.ledger.mergePushed now cs).2 := rfl

/-- A table without new commands is a report. -/
theorem accept_eq_acceptPush {cs : List Command} (h : ∀ c ∈ cs, c.status ≠ .new) :
    r.accept now cs = r.acceptPush now cs := by
  have hgiven : cs.filter (·.status == .new) = [] :=
    List.filter_eq_nil_iff.2 fun c hc ↦ by simpa using h c hc
  have hreported : cs.filter (fun c ↦ !(c.status == .new)) = cs :=
    List.filter_eq_self.2 fun c hc ↦ by simpa using h c hc
  simp only [accept, List.partition_eq_filter_filter, Function.comp_def, hgiven, hreported,
    submitAll, Nat.zero_add]

/-- What giving a command and merging reports keep is kept by accepting a table. -/
theorem accept_induction {P : Root → Prop} {cs : List Command} (h : P r)
    (hsubmit : ∀ r, P r → ∀ c ∈ cs, c.status = .new → P (r.submit now c).2)
    (hpush : ∀ r, P r → ∀ ds, (∀ d ∈ ds, d ∈ cs) → P (r.acceptPush now ds).2) :
    P (r.accept now cs).2 := by
  have hgiven (ds : List Command) (hds : ∀ d ∈ ds, d ∈ cs ∧ d.status = .new) :
      P (r.submitAll now ds).2 := by
    clear hpush
    induction ds generalizing r with
    | nil => exact h
    | cons d ds ih =>
      obtain ⟨hd, hnew⟩ := hds d List.mem_cons_self
      exact ih (hsubmit r h d hd hnew) fun e he ↦ hds e (List.mem_cons_of_mem _ he)
  simp only [accept, List.partition_eq_filter_filter]
  refine hpush _ (hgiven _ fun d hd ↦ ?_) _ fun d hd ↦ List.mem_of_mem_filter hd
  obtain ⟨hmem, hnew⟩ := List.mem_filter.1 hd
  exact ⟨hmem, by simpa using hnew⟩

/-- The keys that operators write when they give commands one after the other. -/
def writtenBy (now : Time.Instant) : List Command → Root → List Key
  | [], _ => []
  | c :: cs, r => (r.submit now c).1 ++ writtenBy now cs (r.submit now c).2

theorem get?_submitAll_of_not_mem {cs : List Command} (h : k ∉ writtenBy now cs r) :
    (r.submitAll now cs).2.ledger.get? k = r.ledger.get? k := by
  induction cs generalizing r with
  | nil => rfl
  | cons c cs ih =>
    obtain ⟨hfirst, hrest⟩ : k ∉ (r.submit now c).1 ∧ k ∉ writtenBy now cs (r.submit now c).2 := by
      simpa [writtenBy] using h
    exact (ih hrest).trans (get?_submit_of_not_mem hfirst)

/-- What is done stays when a table is accepted, unless an operator's command in it writes the
key. -/
theorem get?_accept_of_isTerminal {cs : List Command} (hc : r.ledger.get? k = some c)
    (hdone : c.status.isTerminal = true) (hk : k ∉ writtenBy now (cs.filter (·.status == .new)) r) :
    (r.accept now cs).2.ledger.get? k = some c := by
  simp only [accept, List.partition_eq_filter_filter]
  rw [ledger_acceptPush]
  exact Ledger.get?_mergePushed_of_isTerminal ((get?_submitAll_of_not_mem hk).trans hc) hdone _

theorem keyed_accept (hr : r.ledger.Keyed) (now : Time.Instant) (cs : List Command) :
    (r.accept now cs).2.ledger.Keyed :=
  accept_induction (P := fun r ↦ r.ledger.Keyed) hr (fun _ h c _ _ ↦ keyed_submit h now c)
    fun _ h _ _ ↦ h.mergePushed _

end Switchyard.Root
