import Switchyard.Proofs.Command.Legible
import Switchyard.Proofs.Ledger.Lookup

/-!
# What ledgers take from each other

In a batch of commands with different keys, each is merged with what stood under its key before the
batch. The commands of a ledger have different keys if each stands under its own, and if the keys
are read back from their wire forms, all of them arrive. So what one ledger takes from another is
decided key by key: by what the one holds under the key and what the other offers there.

## Main definitions

* `Ledger.Stable` : each command stands under its own key, which is read back from its wire form.
* `Ledger.offer` : what a ledger offers a client under a key.

## Main results

* `Ledger.get?_mergePulled_offered` : what a pull leaves under a key.
* `Ledger.get?_mergePushed_sent` : what a push of a whole ledger leaves under a key.
* `Ledger.fst_mergePulled_offered` : how many commands a pull takes.
-/

namespace Switchyard

/-! ### Stable keys -/

namespace Key

variable {k : Key}

/-- A key that is read back from its wire form stays as it is on the wire. -/
theorem carried_of_isStable (h : k.isStable = true) : k.carried = k := by
  have hparse : parse k.wire = k := by simpa [isStable] using h
  obtain ⟨client, text⟩ := k
  rw [carried, hparse]
  cases client <;> simp [nonempty?]

theorem legible_of_isStable (h : k.isStable = true) : k.Legible :=
  carried_eq_iff.1 (carried_of_isStable h)

end Key

namespace Ledger

variable {l r : Ledger} {k : Key} {c : Command} {cs : List Command} {now : Time.Instant}

/-! ### Batches with different keys -/

theorem filter_key_of_mem (h : (cs.map (·.key)).Nodup) (hc : c ∈ cs) :
    cs.filter (·.key = c.key) = [c] :=
  Table.filter_eq_singleton h hc

/-- What finds commands under their own keys finds a command under no other key. -/
theorem eq_some_iff_key {F : Key → Option Command} (hF : ∀ k c, F k = some c → c.key = k) :
    F k = some c ↔ F c.key = some c ∧ c.key = k := by
  constructor
  · intro hc
    obtain rfl := hF k c hc
    exact ⟨hc, rfl⟩
  · rintro ⟨hc, rfl⟩
    exact hc

/-- A pulled command is taken unless what is there is protected or done. -/
theorem fst_takePulled (c : Command) (l : Ledger) :
    (l.takePulled c).1 = (l.get? c.key).all yieldsToPulled := by
  rw [takePulled]
  cases l.get? c.key with
  | none => rfl
  | some s => cases hy : yieldsToPulled s <;> simp [hy]

/-- Of a batch with different keys those are taken that find nothing protected or done. -/
theorem fst_mergePulled (h : (cs.map (·.key)).Nodup) (l : Ledger) :
    (l.mergePulled cs).1 = cs.countP fun c ↦ (l.get? c.key).all yieldsToPulled := by
  rw [mergePulled]
  induction cs generalizing l with
  | nil => rfl
  | cons c cs ih =>
    obtain ⟨hc, hcs⟩ := List.nodup_cons.1 h
    have hrest : cs.countP (fun d ↦ ((l.takePulled c).2.get? d.key).all yieldsToPulled) =
        cs.countP fun d ↦ (l.get? d.key).all yieldsToPulled := by
      refine List.countP_congr fun d hd ↦ ?_
      have hne : c.key ≠ d.key := fun heq ↦ hc (List.mem_map.2 ⟨d, hd, heq.symm⟩)
      rw [get?_takePulled, if_neg hne]
    change (l.takePulled c).1.toNat + ((l.takePulled c).2.takeAll takePulled cs).1 = _
    rw [ih hcs, hrest, fst_takePulled, List.countP_cons, Nat.add_comm]
    cases (l.get? c.key).all yieldsToPulled <;> rfl

/-! ### Whole ledgers -/

/-- The commands of a ledger have different keys. -/
theorem Keyed.nodup_values (h : l.Keyed) : (l.commands.values.map (·.key)).Nodup := by
  have hkeys : l.commands.values.map (·.key) = l.commands.keys := by
    rw [Table.values, Table.keys, List.map_map]
    exact List.map_congr_left fun e he ↦ h e.1 e.2 ((Table.mem_entries_iff ..).1 he)
  rw [hkeys]
  exact l.commands.nodup_keys

theorem Keyed.mem_values_iff (h : l.Keyed) :
    c ∈ l.commands.values ↔ l.get? c.key = some c := by
  rw [Ledger.mem_values_iff]
  constructor
  · rintro ⟨k, hc⟩
    rwa [h k c hc]
  · exact fun hc ↦ ⟨c.key, hc⟩

/-- What a ledger offers a client under a key. -/
def offer (client : String) (k : Key) (l : Ledger) : Option Command :=
  (l.get? k).filter fun c ↦ c.status.isRunnable && k.isFor client && c.node != l.owner

theorem offer_eq_some_iff {client : String} : l.offer client k = some c ↔
    l.get? k = some c ∧ c.status.isRunnable = true ∧ k.isFor client = true ∧ c.node ≠ l.owner := by
  simp only [offer, Option.filter_eq_some_iff, Bool.and_eq_true, bne_iff_ne, and_assoc]

theorem Keyed.mem_pullFor_iff (h : l.Keyed) {client : String} :
    c ∈ l.pullFor client ↔ l.offer client c.key = some c := by
  rw [Ledger.mem_pullFor_iff, offer_eq_some_iff]
  constructor
  · rintro ⟨k, hc⟩
    rwa [h k c hc.1]
  · exact fun hc ↦ ⟨c.key, hc⟩

theorem Keyed.offer_iff_mem_pullFor (h : l.Keyed) {client : String} :
    l.offer client k = some c ↔ c ∈ l.pullFor client ∧ c.key = k := by
  rw [h.mem_pullFor_iff]
  exact eq_some_iff_key fun k c ho ↦ h k c (offer_eq_some_iff.1 ho).1

/-- Each command stands under its own key, which is read back from its wire form. -/
structure Stable (l : Ledger) : Prop where
  keyed : l.Keyed
  isStable : ∀ k c, l.get? k = some c → k.isStable = true

instance : Decidable l.Stable :=
  decidable_of_iff (l.Keyed ∧ ∀ e ∈ l.commands.entries, e.1.isStable = true)
    ⟨fun h ↦ ⟨h.1, forall_get?_iff.2 h.2⟩, fun h ↦ ⟨h.keyed, forall_get?_iff.1 h.isStable⟩⟩

namespace Stable

theorem key_carried (h : l.Stable) (hc : l.get? k = some c) : c.carried.key = k := by
  have hkey : c.key = k := h.keyed k c hc
  rw [Command.key_carried, hkey, Key.carried_of_isStable (h.isStable k c hc)]

/-- Of some commands of the ledger each arrives. -/
theorem perm (h : l.Stable) (hcs : (cs.map (·.key)).Nodup)
    (hmem : ∀ c ∈ cs, l.get? c.key = some c) :
    (CommandTable.decode (.encode cs)).Perm (cs.map Command.carried) :=
  CommandTable.decode_encode_perm_of_legible hcs fun c hc ↦
    Key.legible_of_isStable (h.isStable _ c (hmem c hc))

theorem nodup_decode_encode (h : l.Stable) (hcs : (cs.map (·.key)).Nodup)
    (hmem : ∀ c ∈ cs, l.get? c.key = some c) :
    ((CommandTable.decode (.encode cs)).map (·.key)).Nodup := by
  have hperm := (CommandTable.keys_arrive_iff hcs).2 fun c hc ↦
    Key.legible_of_isStable (h.isStable _ c (hmem c hc))
  exact hperm.nodup_iff.2 hcs

theorem mem_decode_encode_iff (h : l.Stable) (hcs : (cs.map (·.key)).Nodup)
    (hmem : ∀ c ∈ cs, l.get? c.key = some c) :
    c ∈ CommandTable.decode (.encode cs) ↔ ∃ sent ∈ cs, sent.key = c.key ∧ sent.carried = c := by
  rw [(h.perm hcs hmem).mem_iff, List.mem_map]
  refine exists_congr fun sent ↦ and_congr_right fun hsent ↦ ?_
  refine ⟨fun heq ↦ ⟨?_, heq⟩, fun heq ↦ heq.2⟩
  rw [← heq, h.key_carried (hmem sent hsent)]

/-- Of some commands of the ledger only the one with a key arrives under it. -/
theorem filter_key_decode_encode (h : l.Stable) (hcs : (cs.map (·.key)).Nodup)
    (hmem : ∀ c ∈ cs, l.get? c.key = some c) {stood : Option Command}
    (hstood : ∀ c, stood = some c ↔ c ∈ cs ∧ c.key = k) :
    (CommandTable.decode (.encode cs)).filter (·.key = k) =
      (stood.map Command.carried).toList := by
  cases stood with
  | none =>
    refine List.filter_eq_nil_iff.2 fun c hc ↦ ?_
    obtain ⟨sent, hsent, hkey, -⟩ := (h.mem_decode_encode_iff hcs hmem).1 hc
    rw [decide_eq_true_eq, ← hkey]
    exact fun heq ↦ Option.some_ne_none sent ((hstood sent).2 ⟨hsent, heq⟩).symm
  | some c =>
    obtain ⟨hc, rfl⟩ := (hstood c).1 rfl
    have hkey := h.key_carried (hmem c hc)
    have harrived : c.carried ∈ CommandTable.decode (.encode cs) :=
      (h.mem_decode_encode_iff hcs hmem).2 ⟨c, hc, hkey.symm, rfl⟩
    have hfilter := filter_key_of_mem (h.nodup_decode_encode hcs hmem) harrived
    rwa [hkey] at hfilter

end Stable

theorem forall_mem_values (h : l.Keyed) : ∀ c ∈ l.commands.values, l.get? c.key = some c :=
  fun _ ↦ h.mem_values_iff.1

theorem forall_mem_pullFor (h : l.Keyed) (client : String) :
    ∀ c ∈ l.pullFor client, l.get? c.key = some c :=
  fun _ hc ↦ (offer_eq_some_iff.1 (h.mem_pullFor_iff.1 hc)).1

/-- A pull merges, under each key, what is offered there with what stands there. -/
theorem get?_mergePulled_offered (h : r.Stable) (client : String) (l : Ledger) (k : Key) :
    (l.mergePulled (CommandTable.decode (.encode (r.pullFor client)))).2.get? k =
      match r.offer client k with
      | none => l.get? k
      | some c => some (afterPull l.owner c.carried (l.get? k)) := by
  rw [get?_mergePulled, h.filter_key_decode_encode (h.keyed.nodup_pullFor client)
    (forall_mem_pullFor h.keyed client) fun _ ↦ h.keyed.offer_iff_mem_pullFor]
  cases r.offer client k <;> rfl

/-- A pull takes what is offered where nothing stands that is protected or done. -/
theorem fst_mergePulled_offered (h : r.Stable) (client : String) (l : Ledger) :
    (l.mergePulled (CommandTable.decode (.encode (r.pullFor client)))).1 =
      (r.pullFor client).countP fun c ↦ (l.get? c.key).all yieldsToPulled := by
  have hnodup := h.keyed.nodup_pullFor client
  have hmem := forall_mem_pullFor h.keyed client
  rw [fst_mergePulled (h.nodup_decode_encode hnodup hmem), (h.perm hnodup hmem).countP_eq,
    List.countP_map]
  refine List.countP_congr fun c hc ↦ ?_
  rw [Function.comp_apply, h.key_carried (hmem c hc)]

/-- A push of a whole ledger merges, under each key, what it holds there with what stands there. -/
theorem get?_mergePushed_sent (h : l.Stable) (now : Time.Instant) (r : Ledger) (k : Key) :
    (r.mergePushed now (CommandTable.decode (.encode l.commands.values))).2.get? k =
      match l.get? k with
      | none => r.get? k
      | some c => some (afterPush now c.carried (r.get? k)) := by
  have hheld (c : Command) : l.get? k = some c ↔ c ∈ l.commands.values ∧ c.key = k := by
    rw [h.keyed.mem_values_iff]
    exact eq_some_iff_key h.keyed
  rw [get?_mergePushed, h.filter_key_decode_encode h.keyed.nodup_values
    (forall_mem_values h.keyed) hheld]
  cases l.get? k <;> rfl

end Ledger

end Switchyard
