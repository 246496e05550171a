import Mathlib.Data.List.Nodup
import Switchyard.Table

/-!
# Tables made from lists

The table of a list of entries keeps, for each key, the last entry with that key. So nothing is
lost exactly when no key occurs twice.

## Main results

* `Table.filter_eq_singleton` : in a list with different keys each key selects one element.
* `Table.get?_ofList` : the last entry with a key wins.
* `Table.mem_of_mem_ofList` : every entry of the table comes from the list.
* `Table.ofList_entries_perm` : without repeated keys the table has the entries of the list.
* `Table.ofList_entries` : a table is made from its own entries.
-/

namespace Switchyard.Table

variable {κ α : Type}

/-- Of a list with different keys only one element has the key of an element. -/
theorem filter_eq_singleton [DecidableEq κ] {f : α → κ} {as : List α} {a : α}
    (h : (as.map f).Nodup) (ha : a ∈ as) : as.filter (f · = f a) = [a] := by
  have hnodup : (as.filter (f · = f a)).Nodup := (List.Nodup.of_map f h).filter _
  refine List.perm_singleton.1 ((List.perm_ext_iff_of_nodup hnodup (List.nodup_singleton a)).2 ?_)
  intro b
  rw [List.mem_filter, List.mem_singleton, decide_eq_true_eq]
  constructor
  · rintro ⟨hb, hkey⟩
    exact List.inj_on_of_nodup_map h hb ha hkey
  · rintro rfl
    exact ⟨ha, rfl⟩

theorem map_id [LT κ] (t : Table κ α) : t.map id = t := by
  obtain ⟨es, hes⟩ := t
  simp [map]

/-- A changed table has the changed values under the same keys. -/
theorem get?_map [LT κ] [DecidableEq κ] {β : Type} (f : α → β) (t : Table κ α) (k : κ) :
    (t.map f).get? k = (t.get? k).map f := by
  have hlookup : ∀ es : List (κ × α),
      lookup k (es.map fun e ↦ (e.1, f e.2)) = (lookup k es).map f := by
    intro es
    induction es with
    | nil => rfl
    | cons e es ih => by_cases h : k = e.1 <;> simp [lookup, h, ih]
  exact hlookup t.entries

theorem values_map [LT κ] {β : Type} (f : α → β) (t : Table κ α) :
    (t.map f).values = t.values.map f := by
  simp [values, map]

theorem keys_map [LT κ] {β : Type} (f : α → β) (t : Table κ α) : (t.map f).keys = t.keys := by
  simp [keys, map]

theorem lookup_append [DecidableEq κ] (k : κ) (es fs : List (κ × α)) :
    lookup k (es ++ fs) = (lookup k es).or (lookup k fs) := by
  induction es with
  | nil => rfl
  | cons e es ih =>
    by_cases h : k = e.1
    · simp [lookup, h]
    · simp [lookup, h, ih]

variable [LT κ] [LE κ] [Std.IsLinearOrder κ] [Std.LawfulOrderLT κ]

omit [Std.IsLinearOrder κ] in
theorem nodup_keys (t : Table κ α) : t.keys.Nodup := by
  refine List.pairwise_map.2 (t.sorted.imp ?_)
  intro a b hab heq
  exact Std.lt_irrefl (heq ▸ hab)

omit [Std.IsLinearOrder κ] in
theorem nodup_entries (t : Table κ α) : t.entries.Nodup :=
  List.Nodup.of_map _ t.nodup_keys

variable [DecidableEq κ]

omit [Std.IsLinearOrder κ] in
theorem mem_values_iff (t : Table κ α) (v : α) : v ∈ t.values ↔ ∃ k, t.get? k = some v := by
  simp only [values, List.mem_map, Prod.exists, exists_eq_right, mem_entries_iff]

/-- Tables that have values under the same keys list the same keys. -/
theorem keys_eq_of_isSome_get? {β : Type} {s : Table κ α} {t : Table κ β}
    (h : ∀ k, (s.get? k).isSome = (t.get? k).isSome) : s.keys = t.keys := by
  have hunit : s.map (fun _ ↦ ()) = t.map (fun _ ↦ ()) := by
    refine ext_get? fun k ↦ ?_
    have hk := h k
    rw [get?_map, get?_map]
    cases hs : s.get? k <;> cases ht : t.get? k <;> simp_all
  rw [← keys_map (fun _ ↦ ()) s, hunit, keys_map]

variable [DecidableLT κ]

theorem map_insert {β : Type} (f : α → β) (t : Table κ α) (k : κ) (v : α) :
    (t.insert k v).map f = (t.map f).insert k (f v) := by
  refine ext_get? fun k' ↦ ?_
  rw [get?_map, get?_insert, get?_insert, get?_map]
  split <;> rfl

theorem get?_foldl_insert (es : List (κ × α)) (t : Table κ α) (k : κ) :
    (es.foldl (fun t e ↦ t.insert e.1 e.2) t).get? k = (lookup k es.reverse).or (t.get? k) := by
  induction es generalizing t with
  | nil => rfl
  | cons e es ih =>
    rw [List.foldl_cons, ih, List.reverse_cons, lookup_append, Option.or_assoc, get?_insert]
    congr 1
    by_cases h : k = e.1 <;> simp [lookup, h]

theorem get?_ofList (es : List (κ × α)) (k : κ) :
    (ofList es).get? k = lookup k es.reverse := by
  rw [ofList, get?_foldl_insert, get?_empty, Option.or_none]

theorem mem_of_mem_ofList {es : List (κ × α)} {e : κ × α} (h : e ∈ (ofList es).entries) :
    e ∈ es := by
  rw [mem_entries_iff, get?_ofList] at h
  exact List.mem_reverse.1 (mem_of_lookup_eq_some h)

/-- Every key of the list is a key of its table. -/
theorem exists_mem_ofList {es : List (κ × α)} {e : κ × α} (h : e ∈ es) :
    ∃ v, (e.1, v) ∈ (ofList es).entries := by
  have hsome : ∀ fs : List (κ × α), e ∈ fs → (lookup e.1 fs).isSome := by
    intro fs hfs
    induction fs with
    | nil => cases hfs
    | cons f fs ih =>
      rcases List.mem_cons.1 hfs with rfl | hfs
      · simp [lookup]
      · by_cases hk : e.1 = f.1
        · simp [lookup, hk]
        · simp [lookup, hk, ih hfs]
  obtain ⟨v, hv⟩ := Option.isSome_iff_exists.1 (hsome es.reverse (List.mem_reverse.2 h))
  exact ⟨v, by rwa [mem_entries_iff, get?_ofList]⟩

/-- Without repeated keys nothing is lost. -/
theorem ofList_entries_perm {es : List (κ × α)} (h : (es.map (·.1)).Nodup) :
    (ofList es).entries.Perm es := by
  refine (List.perm_ext_iff_of_nodup (nodup_entries _) (List.Nodup.of_map _ h)).2 fun e ↦
    ⟨mem_of_mem_ofList, fun he ↦ ?_⟩
  obtain ⟨v, hv⟩ := exists_mem_ofList he
  have heq : e = (e.1, v) :=
    List.inj_on_of_nodup_map h he (mem_of_mem_ofList hv) rfl
  rwa [heq]

/-- A table is made from its own entries. -/
theorem ofList_entries (t : Table κ α) : ofList t.entries = t := by
  refine ext_get? fun k ↦ Option.ext fun v ↦ ?_
  rw [← mem_entries_iff, ← mem_entries_iff]
  exact (ofList_entries_perm t.nodup_keys).mem_iff

end Switchyard.Table
