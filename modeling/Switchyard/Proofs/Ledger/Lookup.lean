import Switchyard.Ledger
import Switchyard.Proofs.Table

/-!
# What stands in a ledger after each operation

Every operation of a ledger is described by what it leaves under a key. Merging works key by key:
what stands under a key after a batch depends on what stood there and on the commands of the batch
that have this key, in their order. A ledger is *keyed* when every command stands under its own
key, and all operations keep it so.

## Main definitions

* `Ledger.afterPull`, `Ledger.afterPush`, `Ledger.afterOutcome` : the merges under one key.
* `Ledger.Keyed` : every command stands under its own key.

## Main results

* `Ledger.get?_mergePulled`, `Ledger.get?_mergePushed` : a batch is a fold for each key.
* `Ledger.get?_complete`, `Ledger.get?_delete`, `Ledger.get?_give_of_not_mem` : the other
  operations.
* `Ledger.get?_mergePulled_of_isTerminal` and its like : what is done stays.
* `Ledger.retries_lt_mergePulled`, `Ledger.exists_retries_le_mergePulled` : counters in a pull.
-/

namespace Switchyard.Ledger

variable {l : Ledger} {k : Key} {c s : Command} {now : Time.Instant}

/-! ### Storing and deleting -/

theorem get?_of_empty (h : l.commands = .empty) (k : Key) : l.get? k = none := by
  rw [get?, h, Table.get?_empty]

@[simp] theorem owner_store (c : Command) (l : Ledger) : (l.store c).owner = l.owner := rfl

@[simp] theorem get?_store (c : Command) (l : Ledger) (k : Key) :
    (l.store c).get? k = if k = c.key then some c else l.get? k :=
  Table.get?_insert ..

theorem get?_delete {l' : Ledger} (h : l.delete k = .ok (c, l')) (k' : Key) :
    l'.get? k' = if k' = k then none else l.get? k' := by
  unfold delete at h
  split at h
  next =>
    obtain ⟨rfl, rfl⟩ := Prod.mk.inj (Except.ok.inj h)
    exact Table.get?_erase ..
  next => cases h

theorem owner_delete {l' : Ledger} (h : l.delete k = .ok (c, l')) : l'.owner = l.owner := by
  unfold delete at h
  split at h
  next =>
    obtain ⟨rfl, rfl⟩ := Prod.mk.inj (Except.ok.inj h)
    rfl
  next => cases h

theorem get?_eq_none_of_delete_error {fault : Fault} (h : l.delete k = .error fault) :
    l.get? k = none := by
  unfold delete at h
  split at h
  next => cases h
  next hk => exact hk

/-- The values of the table are what can be looked up. -/
theorem mem_values_iff : c ∈ l.commands.values ↔ ∃ k, l.get? k = some c :=
  Table.mem_values_iff ..

/-- What holds of everything that can be looked up holds of every entry. -/
theorem forall_get?_iff {P : Key → Command → Prop} :
    (∀ k c, l.get? k = some c → P k c) ↔ ∀ e ∈ l.commands.entries, P e.1 e.2 :=
  ⟨fun h e he ↦ h e.1 e.2 ((Table.mem_entries_iff ..).1 he),
    fun h k c hc ↦ h (k, c) ((Table.mem_entries_iff ..).2 hc)⟩

/-! ### Merging under one key -/

/-- What stands under a key after a pulled command with this key, given what stood there. -/
def afterPull (owner : String) (c : Command) : Option Command → Command
  | none => { c with node := owner }
  | some s => if yieldsToPulled s then { mergedPulled s c with node := owner } else s

/-- What stands under a key after a pushed command with this key, given what stood there. -/
def afterPush (now : Time.Instant) (c : Command) : Option Command → Command
  | none => c.stamped now
  | some s => if s.status.isTerminal then s else { c.stamped now with flags := s.flags }

/-- What stands under a key after the outcome of an attempt, given what stood there. -/
def afterOutcome (c : Command) : Option Command → Option Command
  | none => none
  | some s => if s.status.isTerminal then some s else some c

/-- A command that gives way to a pulled one is still to be run. -/
theorem isTerminal_of_yieldsToPulled (h : yieldsToPulled s = true) :
    s.status.isTerminal = false := by
  simp only [yieldsToPulled, Bool.and_eq_true, Bool.not_eq_true'] at h
  exact h.2

private theorem toNat_max (a b : UInt32) : (max a b).toNat = max a.toNat b.toNat := by
  change (if a ≤ b then b else a).toNat = _
  split
  next h => rw [Nat.max_eq_right (UInt32.le_iff_toNat_le.1 h)]
  next h => rw [Nat.max_eq_left (Nat.le_of_not_le (mt UInt32.le_iff_toNat_le.2 h))]

/-- What is kept of a pulled command has as many retries as either side counts. -/
theorem toNat_retries_mergedPulled (s c : Command) :
    (mergedPulled s c).retries.toNat = max c.retries.toNat s.retries.toNat :=
  toNat_max ..

@[simp] theorem owner_takePulled (c : Command) (l : Ledger) :
    (l.takePulled c).2.owner = l.owner := by
  rw [takePulled]
  split
  · rfl
  · split <;> rfl

@[simp] theorem owner_takePushed (c : Command) (l : Ledger) :
    (l.takePushed now c).2.owner = l.owner := by
  rw [takePushed]
  split
  · rfl
  · split <;> rfl

theorem get?_takePulled (c : Command) (l : Ledger) (k : Key) : (l.takePulled c).2.get? k =
    if c.key = k then some (afterPull l.owner c (l.get? k)) else l.get? k := by
  rw [takePulled]
  by_cases hk : c.key = k
  · subst hk
    cases hs : l.get? c.key with
    | none =>
      simp only [if_true, afterPull, get?_store]
      exact if_pos rfl
    | some s =>
      by_cases hy : yieldsToPulled s = true
      · simp only [hy, if_true, afterPull, get?_store]
        exact if_pos rfl
      · simp [hy, afterPull, hs]
  · have hne : k ≠ c.key := Ne.symm hk
    rw [if_neg hk]
    split
    · rw [get?_store]; exact if_neg hne
    · split
      · rw [get?_store]; exact if_neg hne
      · rfl

theorem get?_takePushed (c : Command) (l : Ledger) (k : Key) : (l.takePushed now c).2.get? k =
    if c.key = k then some (afterPush now c (l.get? k)) else l.get? k := by
  rw [takePushed]
  by_cases hk : c.key = k
  · subst hk
    cases hs : l.get? c.key with
    | none =>
      simp only [if_true, afterPush, get?_store]
      exact if_pos rfl
    | some s =>
      by_cases ht : s.status.isTerminal = true
      · simp [ht, afterPush, hs]
      · simp only [ht, Bool.false_eq_true, if_true, if_false, afterPush, get?_store]
        exact if_pos rfl
  · have hne : k ≠ c.key := Ne.symm hk
    rw [if_neg hk]
    split
    · rw [get?_store]; exact if_neg hne
    · split
      · rfl
      · rw [get?_store]; exact if_neg hne

/-! ### Batches -/

@[simp] theorem owner_mergePulled (cs : List Command) (l : Ledger) :
    (l.mergePulled cs).2.owner = l.owner := by
  rw [mergePulled]
  induction cs generalizing l with
  | nil => rfl
  | cons c cs ih => exact (ih _).trans (owner_takePulled c l)

@[simp] theorem owner_mergePushed (cs : List Command) (l : Ledger) :
    (l.mergePushed now cs).2.owner = l.owner := by
  rw [mergePushed]
  induction cs generalizing l with
  | nil => rfl
  | cons c cs ih => exact (ih _).trans (owner_takePushed c l)

/-- Under each key a pulled batch is merged one command after the other. -/
theorem get?_mergePulled (cs : List Command) (l : Ledger) (k : Key) :
    (l.mergePulled cs).2.get? k = (cs.filter (·.key = k)).foldl
      (fun stood c ↦ some (afterPull l.owner c stood)) (l.get? k) := by
  rw [mergePulled]
  induction cs generalizing l with
  | nil => rfl
  | cons c cs ih =>
    change (takeAll takePulled cs (l.takePulled c).2).2.get? k = _
    rw [ih, owner_takePulled, get?_takePulled]
    by_cases hk : c.key = k <;> simp [hk]

/-- Under each key a pushed batch is merged one command after the other. -/
theorem get?_mergePushed (cs : List Command) (l : Ledger) (k : Key) :
    (l.mergePushed now cs).2.get? k = (cs.filter (·.key = k)).foldl
      (fun stood c ↦ some (afterPush now c stood)) (l.get? k) := by
  rw [mergePushed]
  induction cs generalizing l with
  | nil => rfl
  | cons c cs ih =>
    change (takeAll (takePushed now) cs (l.takePushed now c).2).2.get? k = _
    rw [ih, get?_takePushed]
    by_cases hk : c.key = k <;> simp [hk]

/-- What holds of what stands under a key, and is kept by every merge of a pulled command with this
key, holds after a pull. -/
theorem mergePulled_induction {P : Option Command → Prop} {cs : List Command} (h : P (l.get? k))
    (hstep : ∀ stood, P stood → ∀ c ∈ cs, c.key = k → P (some (afterPull l.owner c stood))) :
    P ((l.mergePulled cs).2.get? k) := by
  rw [get?_mergePulled]
  refine List.foldlRecOn (motive := P) _ _ h fun stood hstood c hc ↦ ?_
  obtain ⟨hmem, hkey⟩ := List.mem_filter.1 hc
  exact hstep stood hstood c hmem (by simpa using hkey)

/-- What holds of what stands under a key, and is kept by every merge of a pushed command with this
key, holds after a push. -/
theorem mergePushed_induction {P : Option Command → Prop} {cs : List Command} (h : P (l.get? k))
    (hstep : ∀ stood, P stood → ∀ c ∈ cs, c.key = k → P (some (afterPush now c stood))) :
    P ((l.mergePushed now cs).2.get? k) := by
  rw [get?_mergePushed]
  refine List.foldlRecOn (motive := P) _ _ h fun stood hstood c hc ↦ ?_
  obtain ⟨hmem, hkey⟩ := List.mem_filter.1 hc
  exact hstep stood hstood c hmem (by simpa using hkey)

/-! ### Outcomes -/

@[simp] theorem owner_complete (c : Command) (l : Ledger) :
    (l.complete c).2.owner = l.owner := by
  rw [complete]
  split
  · rfl
  · split <;> rfl

theorem get?_complete (c : Command) (l : Ledger) (k : Key) : (l.complete c).2.get? k =
    if c.key = k then afterOutcome c (l.get? k) else l.get? k := by
  rw [complete]
  by_cases hk : c.key = k
  · subst hk
    cases hs : l.get? c.key with
    | none => simp [afterOutcome, hs]
    | some s => by_cases ht : s.status.isTerminal = true <;> simp [afterOutcome, hs, ht]
  · have hne : k ≠ c.key := Ne.symm hk
    rw [if_neg hk]
    split
    · rfl
    · split
      · rfl
      · rw [get?_store]; exact if_neg hne

/-! ### What is done stays -/

theorem afterPull_of_isTerminal (h : s.status.isTerminal = true) (owner : String) (c : Command) :
    afterPull owner c (some s) = s := by
  simp [afterPull, yieldsToPulled, h]

theorem afterPush_of_isTerminal (h : s.status.isTerminal = true) (c : Command) :
    afterPush now c (some s) = s := by
  simp [afterPush, h]

/-- What is done stays in a pull. -/
theorem get?_mergePulled_of_isTerminal (hs : l.get? k = some s) (h : s.status.isTerminal = true)
    (cs : List Command) : (l.mergePulled cs).2.get? k = some s := by
  refine mergePulled_induction (P := (· = some s)) hs fun stood hstood c _ _ ↦ ?_
  rw [hstood, afterPull_of_isTerminal h]

/-- What is done stays in a push. -/
theorem get?_mergePushed_of_isTerminal (hs : l.get? k = some s) (h : s.status.isTerminal = true)
    (cs : List Command) : (l.mergePushed now cs).2.get? k = some s := by
  refine mergePushed_induction (P := (· = some s)) hs fun stood hstood c _ _ ↦ ?_
  rw [hstood, afterPush_of_isTerminal h]

/-- What is done stays whatever an attempt comes to. -/
theorem get?_complete_of_isTerminal (hs : l.get? k = some s) (h : s.status.isTerminal = true)
    (c : Command) : (l.complete c).2.get? k = some s := by
  rw [get?_complete, hs]
  simp [afterOutcome, h]

/-! ### Where what stands comes from -/

/-- What stands under a key after a pull stood there before, or it has the status of a pulled
command with this key. -/
theorem of_get?_mergePulled {cs : List Command} (h : (l.mergePulled cs).2.get? k = some c) :
    l.get? k = some c ∨ ∃ d ∈ cs, d.key = k ∧ c.status = d.status := by
  refine mergePulled_induction (P := fun stood ↦ ∀ c, stood = some c →
    l.get? k = some c ∨ ∃ d ∈ cs, d.key = k ∧ c.status = d.status) ?_ ?_ c h
  · exact fun c hc ↦ Or.inl hc
  · intro stood hstood d hd hkey c hc
    obtain rfl := Option.some.inj hc
    cases stood with
    | none => exact Or.inr ⟨d, hd, hkey, rfl⟩
    | some t =>
      cases hy : yieldsToPulled t with
      | true => exact Or.inr ⟨d, hd, hkey, by simp [afterPull, hy, mergedPulled]⟩
      | false => simpa [afterPull, hy] using hstood t rfl

/-- What stands under a key after a push stood there before, or it is a pushed command with this
key, kept with a timestamp and flags of the root. -/
theorem of_get?_mergePushed {cs : List Command} (h : (l.mergePushed now cs).2.get? k = some s) :
    l.get? k = some s ∨
      ∃ d ∈ cs, d.key = k ∧ ∃ flags, s = { d.stamped now with flags } := by
  refine mergePushed_induction (P := fun stood ↦ ∀ s, stood = some s →
    l.get? k = some s ∨ ∃ d ∈ cs, d.key = k ∧ ∃ flags, s = { d.stamped now with flags }) ?_ ?_ s h
  · exact fun s hs ↦ Or.inl hs
  · intro stood hstood d hd hkey s hs
    obtain rfl := Option.some.inj hs
    cases stood with
    | none => exact Or.inr ⟨d, hd, hkey, d.flags, rfl⟩
    | some t =>
      cases hdone : t.status.isTerminal with
      | true => simpa [afterPush, hdone] using hstood t rfl
      | false => exact Or.inr ⟨d, hd, hkey, t.flags, by simp [afterPush, hdone]⟩

theorem status_afterPush_ne_new (hc : c.status ≠ .new) (stood : Option Command) :
    (afterPush now c stood).status ≠ .new := by
  cases stood with
  | none => exact hc
  | some s =>
    cases hs : s.status.isTerminal with
    | false => simpa [afterPush, hs, Command.stamped] using hc
    | true =>
      rw [afterPush_of_isTerminal hs]
      intro hnew
      rw [hnew] at hs
      cases hs

/-- After a push of commands none of which is new, nothing is new under the keys pushed. -/
theorem status_ne_new_of_mem_mergePushed {cs : List Command} (hcs : ∀ c ∈ cs, c.status ≠ .new)
    (hc : c ∈ cs) (hs : (l.mergePushed now cs).2.get? c.key = some s) : s.status ≠ .new := by
  rw [get?_mergePushed] at hs
  have hfirst : c ∈ cs.filter (·.key = c.key) := List.mem_filter.2 ⟨hc, by simp⟩
  obtain ⟨d, ds, hfilter⟩ := List.exists_cons_of_ne_nil (List.ne_nil_of_mem hfirst)
  have hmem : ∀ e ∈ d :: ds, e ∈ cs := fun e he ↦ List.mem_of_mem_filter (hfilter ▸ he)
  rw [hfilter, List.foldl_cons] at hs
  -- from the first of these commands on, what stands is never new
  refine List.foldlRecOn (motive := fun stood ↦ ∀ s, stood = some s → s.status ≠ .new)
    ds _ ?_ ?_ s hs
  · intro t ht
    rw [← Option.some.inj ht]
    exact status_afterPush_ne_new (hcs d (hmem d List.mem_cons_self)) _
  · intro stood _ e he t ht
    rw [← Option.some.inj ht]
    exact status_afterPush_ne_new (hcs e (hmem e (List.mem_cons_of_mem _ he))) _

/-! ### Counters in a pull -/

/-- A pull keeps the counters of what is still to be run below a bound. -/
theorem retries_lt_mergePulled {bound : Nat} {cs : List Command}
    (hl : ∀ s, l.get? k = some s → s.status.isRunnable = true → s.retries.toNat < bound)
    (hcs : ∀ c ∈ cs, c.status.isRunnable = true → c.retries.toNat < bound) :
    ∀ s, (l.mergePulled cs).2.get? k = some s → s.status.isRunnable = true →
      s.retries.toNat < bound := by
  refine mergePulled_induction (P := fun stood ↦ ∀ s, stood = some s →
    s.status.isRunnable = true → s.retries.toNat < bound) hl ?_
  intro stood hstood d hd _ s hs
  obtain rfl := Option.some.inj hs
  cases stood with
  | none => exact hcs d hd
  | some t =>
    simp only [afterPull]
    split
    next hy =>
      intro hrun
      have hpulled := hcs d hd hrun
      have ht := hstood t rfl (by simp [Status.isRunnable, isTerminal_of_yieldsToPulled hy])
      change (mergedPulled t d).retries.toNat < _
      rw [toNat_retries_mergedPulled]
      omega
    next => exact hstood t rfl

/-- No pull takes retries away. -/
theorem exists_retries_le_mergePulled (hs : l.get? k = some s) (cs : List Command) :
    ∃ c, (l.mergePulled cs).2.get? k = some c ∧ s.retries.toNat ≤ c.retries.toNat := by
  refine mergePulled_induction (P := fun stood ↦ ∃ c, stood = some c ∧
    s.retries.toNat ≤ c.retries.toNat) ⟨s, hs, Nat.le_refl _⟩ ?_
  rintro _ ⟨t, rfl, hle⟩ d - -
  refine ⟨_, rfl, ?_⟩
  simp only [afterPull]
  split
  · change _ ≤ (mergedPulled t d).retries.toNat
    rw [toNat_retries_mergedPulled]
    omega
  · exact hle

/-- A pull of commands that are still to be run leaves what is still to be run so, with at least as
many retries. -/
theorem retries_mergePulled {cs : List Command} (hs : l.get? k = some s)
    (hrun : s.status.isRunnable = true) (hcs : ∀ c ∈ cs, c.status.isRunnable = true) :
    ∃ c, (l.mergePulled cs).2.get? k = some c ∧ c.status.isRunnable = true ∧
      s.retries.toNat ≤ c.retries.toNat := by
  obtain ⟨c, hc, hle⟩ := exists_retries_le_mergePulled hs cs
  refine ⟨c, hc, ?_, hle⟩
  rcases of_get?_mergePulled hc with hold | ⟨d, hd, -, hstatus⟩
  · obtain rfl := Option.some.inj (hs.symm.trans hold)
    exact hrun
  · rw [hstatus]
    exact hcs d hd

/-! ### What operators give -/

theorem giveCopy_snd (c : Command) (l : Ledger) :
    (l.giveCopy c).2 = if (l.giveCopy c).1 then l.store c else l := by
  rw [giveCopy]
  split <;> rfl

theorem giveCopies_cons (c : Command) (cs : List Command) (l : Ledger) :
    l.giveCopies (c :: cs) =
      (if (l.giveCopy c).1 then c.key :: ((l.giveCopy c).2.giveCopies cs).1
        else ((l.giveCopy c).2.giveCopies cs).1, ((l.giveCopy c).2.giveCopies cs).2) := rfl

theorem giveCopies_singleton (c : Command) (l : Ledger) :
    l.giveCopies [c] = if (l.giveCopy c).1 then ([c.key], l.store c) else ([], l) := by
  rw [giveCopies_cons, giveCopy_snd]
  split <;> rfl

@[simp] theorem owner_giveCopies (cs : List Command) (l : Ledger) :
    (l.giveCopies cs).2.owner = l.owner := by
  induction cs generalizing l with
  | nil => rfl
  | cons c cs ih =>
    rw [giveCopies_cons, ih, giveCopy_snd]
    split <;> rfl

/-- A key that is not listed as written stands as before. -/
theorem get?_giveCopies_of_not_mem {cs : List Command} (h : k ∉ (l.giveCopies cs).1) :
    (l.giveCopies cs).2.get? k = l.get? k := by
  induction cs generalizing l with
  | nil => rfl
  | cons c cs ih =>
    rw [giveCopies_cons] at h ⊢
    cases hb : (l.giveCopy c).1 with
    | true =>
      obtain ⟨hne, hrest⟩ : k ≠ c.key ∧ k ∉ ((l.giveCopy c).2.giveCopies cs).1 := by
        simpa [hb] using h
      rw [ih hrest, giveCopy_snd, hb, if_pos rfl, get?_store, if_neg hne]
    | false =>
      have hrest : k ∉ ((l.giveCopy c).2.giveCopies cs).1 := by simpa [hb] using h
      rw [ih hrest, giveCopy_snd, hb]
      rfl

/-- Under a key that is listed as written stands one of the copies. -/
theorem get?_giveCopies_of_mem {cs : List Command} (h : k ∈ (l.giveCopies cs).1) :
    ∃ c ∈ cs, c.key = k ∧ (l.giveCopies cs).2.get? k = some c := by
  induction cs generalizing l with
  | nil => simp [giveCopies] at h
  | cons c cs ih =>
    rw [giveCopies_cons] at h ⊢
    by_cases hrest : k ∈ ((l.giveCopy c).2.giveCopies cs).1
    · obtain ⟨d, hd, hkey, hget⟩ := ih hrest
      exact ⟨d, List.mem_cons_of_mem _ hd, hkey, hget⟩
    · have hstored : (l.giveCopy c).1 = true ∧ k = c.key := by
        cases hb : (l.giveCopy c).1 with
        | true => exact ⟨rfl, by simpa [hb, hrest] using h⟩
        | false => exact absurd (by simpa [hb] using h) hrest
      obtain ⟨hb, rfl⟩ := hstored
      refine ⟨c, List.mem_cons_self, rfl, ?_⟩
      rw [get?_giveCopies_of_not_mem hrest, giveCopy_snd, hb, if_pos rfl, get?_store, if_pos rfl]

/-- A copy of a command that was just given is new and was never retried, and concerns the same
device. -/
theorem status_of_mem_copies {clients : List String} {d : Command}
    (h : d ∈ copies (renewed now c) clients) :
    d.status = .new ∧ d.retries = 0 ∧ d.device = c.device := by
  unfold copies at h
  split at h
  · obtain ⟨client, -, rfl⟩ := List.mem_map.1 h
    exact ⟨rfl, rfl, rfl⟩
  · rw [List.mem_singleton.1 h]
    exact ⟨rfl, rfl, rfl⟩

@[simp] theorem owner_give (clients : List String) : (l.give now c clients).2.owner = l.owner :=
  owner_giveCopies ..

theorem get?_give_of_not_mem {clients : List String} (h : k ∉ (l.give now c clients).1) :
    (l.give now c clients).2.get? k = l.get? k :=
  get?_giveCopies_of_not_mem h

/-- What an operator wrote is new. -/
theorem get?_give_of_mem {clients : List String} (h : k ∈ (l.give now c clients).1) :
    ∃ d ∈ copies (renewed now c) clients, d.key = k ∧
      (l.give now c clients).2.get? k = some d :=
  get?_giveCopies_of_mem h

/-! ### Keyed ledgers -/

/-- Every command stands under its own key. -/
def Keyed (l : Ledger) : Prop := ∀ k c, l.get? k = some c → c.key = k

instance : Decidable l.Keyed := decidable_of_iff _ forall_get?_iff.symm

theorem Keyed.of_empty (h : l.commands = .empty) : l.Keyed := by
  intro k c hc
  rw [get?_of_empty h] at hc
  cases hc

theorem Keyed.store (h : l.Keyed) (c : Command) : (l.store c).Keyed := by
  intro k d hd
  rw [get?_store] at hd
  split at hd
  next hk => rw [← Option.some.inj hd, hk]
  next => exact h k d hd

theorem Keyed.delete {l' : Ledger} (h : l.Keyed) (hd : l.delete k = .ok (c, l')) : l'.Keyed := by
  intro k' d hk'
  rw [get?_delete hd] at hk'
  split at hk'
  · cases hk'
  · exact h k' d hk'

theorem Keyed.takePulled (h : l.Keyed) (c : Command) : (l.takePulled c).2.Keyed := by
  rw [Ledger.takePulled]
  split
  · exact h.store _
  · split
    · exact h.store _
    · exact h

theorem Keyed.takePushed (h : l.Keyed) (c : Command) : (l.takePushed now c).2.Keyed := by
  rw [Ledger.takePushed]
  split
  · exact h.store _
  · split
    · exact h
    · exact h.store _

theorem Keyed.mergePulled (h : l.Keyed) (cs : List Command) : (l.mergePulled cs).2.Keyed := by
  rw [Ledger.mergePulled]
  induction cs generalizing l with
  | nil => exact h
  | cons c cs ih => exact ih (h.takePulled c)

theorem Keyed.mergePushed (h : l.Keyed) (cs : List Command) : (l.mergePushed now cs).2.Keyed := by
  rw [Ledger.mergePushed]
  induction cs generalizing l with
  | nil => exact h
  | cons c cs ih => exact ih (h.takePushed c)

/-! ### What is still to be run -/

theorem mem_runnableKeys_iff : k ∈ l.runnableKeys ↔
    ∃ c, l.get? k = some c ∧ c.status.isRunnable = true := by
  simp only [runnableKeys, runnable, List.mem_map, List.mem_filter, Prod.exists, exists_eq_right,
    exists_and_right]
  simp only [Table.mem_entries_iff]
  rfl

theorem mem_pullFor_iff {client : String} : c ∈ l.pullFor client ↔
    ∃ k, l.get? k = some c ∧ c.status.isRunnable = true ∧ k.isFor client = true ∧
      c.node ≠ l.owner := by
  simp only [pullFor, runnable, List.mem_map, List.mem_filter, Bool.and_eq_true, bne_iff_ne,
    Prod.exists, exists_eq_right]
  constructor
  · rintro ⟨k, ⟨hc, hrun⟩, hfor, hnode⟩
    exact ⟨k, (Table.mem_entries_iff ..).1 hc, hrun, hfor, hnode⟩
  · rintro ⟨k, hc, hrun, hfor, hnode⟩
    exact ⟨k, ⟨(Table.mem_entries_iff ..).2 hc, hrun⟩, hfor, hnode⟩

/-- What a client may take are some of the commands, in the order of their keys. -/
theorem exists_sublist_pullFor (client : String) (l : Ledger) :
    ∃ es : List (Key × Command), es.Sublist l.commands.entries ∧
      l.pullFor client = es.map (·.2) :=
  ⟨_, List.filter_sublist.trans List.filter_sublist, rfl⟩

/-- What a client may take are commands with different keys. -/
theorem Keyed.nodup_pullFor (h : l.Keyed) (client : String) :
    ((l.pullFor client).map (·.key)).Nodup := by
  obtain ⟨es, hsub, hes⟩ := exists_sublist_pullFor client l
  have hkeys : (l.pullFor client).map (·.key) = es.map (·.1) := by
    rw [hes, List.map_map]
    refine List.map_congr_left fun e he ↦ ?_
    exact h e.1 e.2 ((Table.mem_entries_iff ..).1 (hsub.subset he))
  rw [hkeys]
  exact l.commands.nodup_keys.sublist (hsub.map (·.1))

end Switchyard.Ledger
