/-!
# Tables sorted by key

A table is a list of entries whose keys increase strictly, so it has at most one entry for a key
and lists its entries in key order. Looking up, inserting and erasing are related by `get?_insert`
and `get?_erase`; two tables with the same look-ups are equal (`ext_get?`).
-/

namespace Switchyard

/-- Entries in strictly increasing order of their keys. -/
structure Table (κ : Type) (α : Type) [LT κ] where
  entries : List (κ × α)
  sorted : entries.Pairwise (fun a b ↦ a.1 < b.1)
  deriving Repr, DecidableEq

namespace Table

variable {κ α β : Type}

/-- The value stored in a list of entries under a key. -/
def lookup [DecidableEq κ] (k : κ) : List (κ × α) → Option α
  | [] => none
  | (k', v) :: rest => if k = k' then some v else lookup k rest

/-- Puts a value under a key, in the place that keeps the keys increasing. -/
def put [LT κ] [DecidableLT κ] (k : κ) (v : α) : List (κ × α) → List (κ × α)
  | [] => [(k, v)]
  | (k', v') :: rest =>
    if k < k' then (k, v) :: (k', v') :: rest
    else if k' < k then (k', v') :: put k v rest
    else (k, v) :: rest

theorem lookup_filter_ne [DecidableEq κ] (k k' : κ) (es : List (κ × α)) :
    lookup k' (es.filter fun e ↦ e.1 ≠ k) = if k' = k then none else lookup k' es := by
  induction es with
  | nil => simp [lookup]
  | cons d rest ih =>
    by_cases hd : d.1 = k <;> by_cases h : k' = k <;> simp_all [lookup]
    · rintro rfl
      exact absurd rfl hd

theorem mem_of_lookup_eq_some [DecidableEq κ] {k : κ} {v : α} {es : List (κ × α)}
    (h : lookup k es = some v) : (k, v) ∈ es := by
  induction es with
  | nil => simp [lookup] at h
  | cons d rest ih =>
    simp only [lookup] at h
    split at h
    next hk =>
      obtain rfl := Option.some.inj h
      simp [hk]
    next hk => exact List.mem_cons_of_mem _ (ih h)

theorem mem_put [LT κ] [DecidableLT κ] {k : κ} {v : α} {e : κ × α} {es : List (κ × α)}
    (h : e ∈ put k v es) : e = (k, v) ∨ e ∈ es := by
  induction es with
  | nil => simpa [put] using h
  | cons d rest ih =>
    simp only [put] at h
    split at h
    · simpa using h
    · split at h
      · rcases List.mem_cons.1 h with rfl | h
        · simp
        · rcases ih h with rfl | h
          · simp
          · simp [h]
      · rcases List.mem_cons.1 h with rfl | h
        · simp
        · simp [h]

section Order

variable [LT κ] [LE κ] [Std.IsLinearOrder κ] [Std.LawfulOrderLT κ]

private theorem eq_of_not_lt {a b : κ} (h : ¬a < b) (h' : ¬b < a) : a = b := by
  rcases Std.lt_trichotomy a b with hlt | heq | hgt
  · exact absurd hlt h
  · exact heq
  · exact absurd hgt h'

theorem pairwise_put [DecidableLT κ] (k : κ) (v : α) {es : List (κ × α)}
    (h : es.Pairwise (fun a b ↦ a.1 < b.1)) : (put k v es).Pairwise (fun a b ↦ a.1 < b.1) := by
  induction es with
  | nil => simp [put]
  | cons d rest ih =>
    obtain ⟨hd, hrest⟩ := List.pairwise_cons.1 h
    simp only [put]
    split
    next hlt =>
      refine List.pairwise_cons.2 ⟨fun e he ↦ ?_, h⟩
      rcases List.mem_cons.1 he with rfl | he
      · exact hlt
      · exact Std.lt_trans hlt (hd e he)
    next hnlt =>
      split
      next hgt =>
        refine List.pairwise_cons.2 ⟨fun e he ↦ ?_, ih hrest⟩
        rcases mem_put he with rfl | he
        · exact hgt
        · exact hd e he
      next hngt =>
        have hkey : k = d.1 := eq_of_not_lt hnlt hngt
        refine List.pairwise_cons.2 ⟨fun e he ↦ ?_, hrest⟩
        exact hkey ▸ hd e he

theorem lookup_put [DecidableLT κ] [DecidableEq κ] (k k' : κ) (v : α) (es : List (κ × α)) :
    lookup k' (put k v es) = if k' = k then some v else lookup k' es := by
  induction es with
  | nil => simp [put, lookup]
  | cons d rest ih =>
    simp only [put]
    split
    · simp [lookup]
    next hnlt =>
      split
      next hgt =>
        by_cases h : k' = d.1
        · have hne : k' ≠ k := by
            rintro rfl
            exact Std.lt_irrefl (h ▸ hgt)
          simp [lookup, h, h ▸ hne]
        · simp [lookup, h, ih]
      next hngt =>
        have hkey : k = d.1 := eq_of_not_lt hnlt hngt
        by_cases h : k' = k <;> simp [lookup, h, ← hkey]

omit [Std.IsLinearOrder κ] in
theorem lookup_eq_some_of_mem [DecidableEq κ] {es : List (κ × α)}
    (h : es.Pairwise (fun a b ↦ a.1 < b.1)) {e : κ × α} (he : e ∈ es) :
    lookup e.1 es = some e.2 := by
  induction es with
  | nil => simp at he
  | cons d rest ih =>
    obtain ⟨hd, hrest⟩ := List.pairwise_cons.1 h
    rcases List.mem_cons.1 he with rfl | he
    · simp [lookup]
    · have hne : e.1 ≠ d.1 := by
        intro heq
        exact Std.lt_irrefl (heq ▸ hd e he)
      simp [lookup, hne, ih hrest he]

private theorem entries_ext [DecidableEq κ] {es fs : List (κ × α)}
    (hes : es.Pairwise (fun a b ↦ a.1 < b.1)) (hfs : fs.Pairwise (fun a b ↦ a.1 < b.1))
    (h : ∀ k, lookup k es = lookup k fs) : es = fs := by
  induction es generalizing fs with
  | nil =>
    cases fs with
    | nil => rfl
    | cons f fs => simpa [lookup] using h f.1
  | cons e es ih =>
    cases fs with
    | nil => simpa [lookup] using h e.1
    | cons f fs =>
      obtain ⟨he, hes'⟩ := List.pairwise_cons.1 hes
      obtain ⟨hf, hfs'⟩ := List.pairwise_cons.1 hfs
      have hee : lookup e.1 (f :: fs) = some e.2 := by simpa [lookup] using (h e.1).symm
      have hff : lookup f.1 (e :: es) = some f.2 := by simpa [lookup] using h f.1
      have hkey : e.1 = f.1 := by
        rcases List.mem_cons.1 (mem_of_lookup_eq_some hee) with h₁ | h₁
        · exact congrArg Prod.fst h₁
        · rcases List.mem_cons.1 (mem_of_lookup_eq_some hff) with h₂ | h₂
          · exact (congrArg Prod.fst h₂).symm
          · exact absurd (Std.lt_trans (hf _ h₁) (he _ h₂)) Std.lt_irrefl
      have hval : e.2 = f.2 := by simpa [lookup, hkey] using hee.symm
      have hnone : ∀ gs : List (κ × α), (∀ g ∈ gs, e.1 < g.1) → lookup e.1 gs = none := by
        intro gs hgs
        cases hl : lookup e.1 gs with
        | none => rfl
        | some v => exact absurd (hgs _ (mem_of_lookup_eq_some hl)) Std.lt_irrefl
      have hrest : es = fs := by
        refine ih hes' hfs' fun k ↦ ?_
        by_cases hk : k = e.1
        · rw [hk, hnone es he, hnone fs fun g hg ↦ hkey ▸ hf g hg]
        · simpa [lookup, hk, ← hkey] using h k
      rw [show e = f from Prod.ext hkey hval, hrest]

end Order

section Views

variable [LT κ]

/-- The value under a key. -/
def get? [DecidableEq κ] (t : Table κ α) (k : κ) : Option α := lookup k t.entries

/-- Whether a key has a value. -/
def contains [DecidableEq κ] (t : Table κ α) (k : κ) : Bool := (t.get? k).isSome

/-- The keys in increasing order. -/
def keys (t : Table κ α) : List κ := t.entries.map (·.1)

/-- The values in the order of their keys. -/
def values (t : Table κ α) : List α := t.entries.map (·.2)

/-- The number of entries. -/
def size (t : Table κ α) : Nat := t.entries.length

/-- The table without entries. -/
def empty : Table κ α := ⟨[], List.Pairwise.nil⟩

instance : Inhabited (Table κ α) := ⟨empty⟩

/-- Takes a key and its value out. -/
def erase [DecidableEq κ] (t : Table κ α) (k : κ) : Table κ α :=
  ⟨t.entries.filter fun e ↦ e.1 ≠ k, t.sorted.sublist List.filter_sublist⟩

/-- The table with every value changed by `f`. -/
def map (f : α → β) (t : Table κ α) : Table κ β :=
  ⟨t.entries.map fun e ↦ (e.1, f e.2), List.pairwise_map.2 t.sorted⟩

@[simp] theorem get?_empty [DecidableEq κ] (k : κ) : (empty : Table κ α).get? k = none := rfl

@[simp] theorem get?_erase [DecidableEq κ] (t : Table κ α) (k k' : κ) :
    (t.erase k).get? k' = if k' = k then none else t.get? k' :=
  lookup_filter_ne k k' t.entries

end Views

section Insertion

variable [LT κ] [LE κ] [Std.IsLinearOrder κ] [Std.LawfulOrderLT κ] [DecidableEq κ]

/-- Puts a value under a key, in place of the one it had. -/
def insert [DecidableLT κ] (t : Table κ α) (k : κ) (v : α) : Table κ α :=
  ⟨put k v t.entries, pairwise_put k v t.sorted⟩

/-- The table of some entries, the later of two with one key winning. -/
def ofList [DecidableLT κ] (es : List (κ × α)) : Table κ α :=
  es.foldl (fun t e ↦ t.insert e.1 e.2) empty

@[simp] theorem get?_insert [DecidableLT κ] (t : Table κ α) (k k' : κ) (v : α) :
    (t.insert k v).get? k' = if k' = k then some v else t.get? k' :=
  lookup_put k k' v t.entries

omit [Std.IsLinearOrder κ] in
theorem mem_entries_iff (t : Table κ α) (k : κ) (v : α) :
    (k, v) ∈ t.entries ↔ t.get? k = some v :=
  ⟨fun h ↦ lookup_eq_some_of_mem t.sorted h, mem_of_lookup_eq_some⟩

omit [Std.IsLinearOrder κ] in
theorem mem_keys_iff (t : Table κ α) (k : κ) : k ∈ t.keys ↔ (t.get? k).isSome := by
  simp only [keys, List.mem_map, Option.isSome_iff_exists]
  constructor
  · rintro ⟨⟨k', v⟩, h, rfl⟩
    exact ⟨v, (t.mem_entries_iff k' v).1 h⟩
  · rintro ⟨v, h⟩
    exact ⟨(k, v), (t.mem_entries_iff k v).2 h, rfl⟩

/-- Tables with the same look-ups are equal. -/
theorem ext_get? {s t : Table κ α} (h : ∀ k, s.get? k = t.get? k) : s = t := by
  obtain ⟨es, hes⟩ := s
  obtain ⟨fs, hfs⟩ := t
  obtain rfl : es = fs := entries_ext hes hfs h
  rfl

end Insertion

end Table

end Switchyard
