import Switchyard.Proofs.Json.Documents
import Switchyard.Proofs.Table

/-!
# Reading back what is written

Each reader takes the value that was written out of its document: texts, truth values, numbers in
range, lists, tables and records. A record is written as some of its members, those left out having
the value that a record has at first; it is read back by filling in, one after the other, the
members that are there.

## Main definitions

* `Json.Reader.Shape.fill` : fills in written members.

## Main results

* `Json.Reader.list_document`, `Json.Reader.table_document` : lists and tables.
* `Json.Reader.run_eq_ok_iff`, `Json.Reader.exists_table_eq_ok_iff` : when a text and when a table is
  read at all.
* `Json.Reader.Shape.read_document` : records.
* `Json.Reader.exists_of_mem_values`, `Json.Reader.Shape.of_read` : what is known of what is read.
-/

namespace Switchyard

/-! ### Steps that can fail -/

section Except

variable {ε α β : Type} {x : Except ε α}

/-- Two steps succeed if the first does, and the second does with what the first gives. -/
theorem bind_eq_ok_iff {f : α → Except ε β} {b : β} :
    x >>= f = .ok b ↔ ∃ a, x = .ok a ∧ f a = .ok b := by
  cases x <;> simp [bind, Except.bind]

theorem map_eq_ok_iff {f : α → β} {b : β} : x.map f = .ok b ↔ ∃ a, x = .ok a ∧ f a = b := by
  cases x <;> simp [Except.map]

theorem mapError_eq_ok_iff {ε' : Type} {f : ε → ε'} {a : α} : x.mapError f = .ok a ↔ x = .ok a := by
  cases x <;> simp [Except.mapError]

end Except

namespace Json

namespace Numeral

theorem toNat?_ofInt (n : Nat) : (ofInt n).toNat? = some n := by
  simp [ofInt, toNat?]

theorem toInt?_ofInt (n : Int) : (ofInt n).toInt? = some n := by
  rw [ofInt, toInt?]
  by_cases h : n < 0
  · have habs : -(n.natAbs : Int) = n := by omega
    have hne : n.natAbs ≠ 0 := by omega
    simp only [h, hne, decide_true, not_true_eq_false, if_false, habs]
  · have habs : (n.natAbs : Int) = n := by omega
    simp only [h, decide_false, Bool.false_eq_true, not_true_eq_false, not_false_eq_true, if_false,
      if_true, habs]

end Numeral

namespace Reader

variable {α β : Type}

/-! ### Simple values -/

@[simp] theorem text_document (s : String) : text (Value.text s).document = .ok s := rfl

@[simp] theorem bool_document (b : Bool) : bool (Value.bool b).document = .ok b := by
  cases b <;> rfl

theorem natural_document {bound n : Nat} (h : n < bound) :
    natural bound (Value.int n).document = .ok n := by
  simp [Value.document, natural, Numeral.toNat?_ofInt, h]

theorem integer_document {n : Int} (h : Text.fitsSigned n) :
    integer (Value.int n).document = .ok n := by
  simp [Value.document, integer, Numeral.toInt?_ofInt, h]

@[simp] theorem optional_text (r : Reader α) (s : String) :
    optional r (Value.text s).document = (r (Value.text s).document).map some := rfl

/-- What is there is read like anything else. -/
theorem of_optional {r : Reader α} {d : Document} {a : α} (h : optional r d = .ok (some a)) :
    r d = .ok a := by
  unfold optional at h
  split at h
  next => cases h
  next =>
    obtain ⟨b, hb, hsome⟩ := map_eq_ok_iff.1 h
    exact Option.some.inj hsome ▸ hb

/-! ### Lists and tables -/

/-- A list is read back if its items are. -/
theorem list_document {r : Reader α} {write : α → Value} {as : List α}
    (h : ∀ a ∈ as, r (write a).document = .ok a) :
    list r (Value.array (as.map write)).document = .ok as := by
  have hitems : items r ((as.map write).map Value.document) = .ok as := by
    induction as with
    | nil => rfl
    | cons a as ih =>
      obtain ⟨ha, has⟩ := List.forall_mem_cons.1 h
      simp only [List.map_cons, items, ha, ih has]
      rfl
  rw [Value.document, Value.itemDocuments_eq_map, list, hitems]
  rfl

/-- A table is read back if its values are, each as `back` of what it was. -/
theorem table_document {r : Reader β} {write : α → Value} {back : α → β} {t : Table String α}
    (h : ∀ e ∈ t.entries, r (write e.2).document = .ok (back e.2)) :
    table r (Value.object (t.entries.map fun e ↦ (e.1, write e.2))).document =
      .ok (t.map back) := by
  have hentries : ∀ es : List (String × α), (∀ e ∈ es, r (write e.2).document = .ok (back e.2)) →
      entries r (es.map fun e ↦ (Spelling.text e.1, (write e.2).document)) =
        .ok (es.map fun e ↦ (e.1, back e.2)) := by
    intro es hes
    induction es with
    | nil => rfl
    | cons e es ih =>
      obtain ⟨he, hes⟩ := List.forall_mem_cons.1 hes
      simp only [List.map_cons, entries, he, ih hes]
      rfl
  have hfields := hentries t.entries h
  rw [Value.document, Value.fieldDocuments_eq_map, List.map_map, table]
  exact (congrArg (· >>= _) hfields).trans (congrArg Except.ok (Table.ofList_entries (t.map back)))

/-- Members are read as those of a table one by one. -/
theorem entries_cons_eq_ok_iff {r : Reader α} {spelling : Spelling} {d : Document}
    {fs : List (Spelling × Document)} {es : List (String × α)} :
    entries r ((spelling, d) :: fs) = .ok es ↔
      ∃ k a es', spelling = .text k ∧ r d = .ok a ∧ entries r fs = .ok es' ∧ es = (k, a) :: es' := by
  cases spelling with
  | unpaired => simp [entries]
  | text k =>
    have hsteps : entries r ((.text k, d) :: fs) =
        r d >>= fun a ↦ entries r fs >>= fun es ↦ .ok ((k, a) :: es) := rfl
    simp only [hsteps, bind_eq_ok_iff]
    constructor
    · rintro ⟨a, ha, es', hes', hes⟩
      exact ⟨k, a, es', rfl, ha, hes', (Except.ok.inj hes).symm⟩
    · rintro ⟨k', a, es', hk, ha, hes', rfl⟩
      obtain rfl := Spelling.text.inj hk
      exact ⟨a, ha, es', hes', rfl⟩

/-- Members are read as those of a table if every name is a text and every value is read. -/
theorem exists_entries_eq_ok_iff {r : Reader α} {fs : List (Spelling × Document)} :
    (∃ es, entries r fs = .ok es) ↔ ∀ f ∈ fs, f.1 ≠ .unpaired ∧ ∃ a, r f.2 = .ok a := by
  induction fs with
  | nil => simp [entries]
  | cons f fs ih =>
    obtain ⟨spelling, d⟩ := f
    rw [List.forall_mem_cons, ← ih]
    constructor
    · rintro ⟨es, hes⟩
      obtain ⟨k, a, es', rfl, ha, hes', -⟩ := entries_cons_eq_ok_iff.1 hes
      exact ⟨⟨Spelling.noConfusion, a, ha⟩, es', hes'⟩
    · rintro ⟨⟨hpaired, a, ha⟩, es', hes'⟩
      cases spelling with
      | unpaired => exact absurd rfl hpaired
      | text k => exact ⟨_, entries_cons_eq_ok_iff.2 ⟨k, a, es', rfl, ha, hes', rfl⟩⟩

theorem table_eq_ok_iff {r : Reader α} {d : Document} {t : Table String α} :
    table r d = .ok t ↔
      ∃ fs es, d = .object fs true ∧ entries r fs = .ok es ∧ Table.ofList es = t := by
  cases d with
  | object fs closed => cases closed <;> simp [table, bind_eq_ok_iff]
  | _ => simp [table]

/-- A table is read of an object that is closed and whose members are read. -/
theorem exists_table_eq_ok_iff {r : Reader α} {d : Document} :
    (∃ t, table r d = .ok t) ↔
      ∃ fs, d = .object fs true ∧ ∀ f ∈ fs, f.1 ≠ .unpaired ∧ ∃ a, r f.2 = .ok a := by
  constructor
  · rintro ⟨t, ht⟩
    obtain ⟨fs, es, rfl, hes, -⟩ := table_eq_ok_iff.1 ht
    exact ⟨fs, rfl, exists_entries_eq_ok_iff.1 ⟨es, hes⟩⟩
  · rintro ⟨fs, rfl, hfs⟩
    obtain ⟨es, hes⟩ := exists_entries_eq_ok_iff.2 hfs
    exact ⟨Table.ofList es, table_eq_ok_iff.2 ⟨fs, es, rfl, hes, rfl⟩⟩

/-- The values of a table are read one by one. -/
theorem exists_of_mem_values {r : Reader α} {d : Document} {t : Table String α} {a : α}
    (h : table r d = .ok t) (ha : a ∈ t.values) : ∃ d', r d' = .ok a := by
  have hentries : ∀ (fs : List (Spelling × Document)) (es : List (String × α)),
      entries r fs = .ok es → ∀ e ∈ es, ∃ d', r d' = .ok e.2 := by
    intro fs
    induction fs with
    | nil =>
      intro es hes e he
      obtain rfl := Except.ok.inj hes
      cases he
    | cons f fs ih =>
      intro es hes e he
      obtain ⟨k, b, es', -, hb, hes', rfl⟩ := entries_cons_eq_ok_iff.1 hes
      rcases List.mem_cons.1 he with rfl | he
      · exact ⟨f.2, hb⟩
      · exact ih es' hes' e he
  obtain ⟨fs, es, rfl, hes, rfl⟩ := table_eq_ok_iff.1 h
  obtain ⟨e, he, rfl⟩ := List.mem_map.1 ha
  exact hentries fs es hes e (Table.mem_of_mem_ofList he)

/-- A whole text is read if its document is and nothing follows it. -/
theorem run_eq_ok_iff {r : Reader α} {s : String} {a : α} :
    r.run s = .ok a ↔ ∃ d, Document.ofText s = (d, []) ∧ r d = .ok a := by
  obtain ⟨d, rest, hs⟩ : ∃ d rest, Document.ofText s = (d, rest) := ⟨_, _, rfl⟩
  rw [run, hs]
  cases rest <;> simp [bind_eq_ok_iff]

/-! ### Records -/

namespace Shape

variable {σ : Type} (shape : Shape σ)

/-- Fills written members in, one after the other. -/
def fill (fs : List (String × Value)) (s : σ) : Except Misfit σ :=
  fs.foldlM (fun s f ↦ ((shape.members.lookup f.1).map fun set ↦ set f.2.document s).getD
    (.error .mistyped)) s

variable {shape}

@[simp] theorem fill_nil (s : σ) : shape.fill [] s = .ok s := rfl

/-- A member is filled in before those that follow it. -/
theorem fill_cons {k : String} {v : Value} {fs : List (String × Value)} {s t : σ}
    {set : Document → σ → Except Misfit σ} (hset : shape.members.lookup k = some set)
    (hv : set v.document s = .ok t) : shape.fill ((k, v) :: fs) s = shape.fill fs t := by
  simp only [fill, List.foldlM_cons, hset, Option.map_some, Option.getD_some, hv]
  rfl

/-- Some members are filled in before those that follow them. -/
theorem fill_append {fs gs : List (String × Value)} {s t : σ} (h : shape.fill fs s = .ok t) :
    shape.fill (fs ++ gs) s = shape.fill gs t := by
  rw [fill] at h
  rw [fill, List.foldlM_append, h]
  rfl

/-- What is read of a member is stored. -/
theorem fill_member {k : String} {r : Reader α} {store : α → σ → σ} {v : Value} {a : α}
    {fs : List (String × Value)} {s : σ}
    (hk : shape.members.lookup k = some (member k r store).2) (hv : r v.document = .ok a) :
    shape.fill ((k, v) :: fs) s = shape.fill fs (store a s) :=
  fill_cons hk (congrArg (Except.map fun a ↦ store a s) hv)

/-- A member that may be left out is stored, if leaving it out comes to the same. -/
theorem fill_unless {c : Prop} [Decidable c] {k : String} {r : Reader α} {store : α → σ → σ}
    {v : Value} {a : α} {s t : σ} (hk : shape.members.lookup k = some (member k r store).2)
    (hv : ¬c → r v.document = .ok a) (ht : store a s = t) (hc : c → s = t) :
    shape.fill (if c then [] else [(k, v)]) s = .ok t := by
  split
  next h => exact congrArg Except.ok (hc h)
  next h => rw [fill_member hk (hv h), fill_nil, ht]

/-- A member that may be left out has no other name. -/
theorem names_unless (c : Prop) [Decidable c] (k : String) (v : Value) :
    ((if c then [] else [(k, v)]).map (·.1)).Sublist [k] := by
  split
  · exact List.nil_sublist _
  · exact List.Sublist.refl _

/-- Members that can be filled in are read, if none of them is named twice. -/
theorem readFields_of_fill {fs : List (String × Value)} {seen : List String} {s t : σ}
    (hnodup : (fs.map (·.1)).Nodup) (hseen : ∀ f ∈ fs, f.1 ∉ seen)
    (h : shape.fill fs s = .ok t) :
    shape.readFields (Value.fieldDocuments fs) seen s =
      .ok ((fs.map (·.1)).reverse ++ seen, t) := by
  induction fs generalizing seen s with
  | nil =>
    obtain rfl := Except.ok.inj h
    rfl
  | cons f fs ih =>
    obtain ⟨hfresh, hnodup⟩ := List.nodup_cons.1 hnodup
    obtain ⟨hf, hfs⟩ := List.forall_mem_cons.1 hseen
    cases hset : shape.members.lookup f.1 with
    | none => simp [fill, hset, bind, Except.bind] at h
    | some set =>
      cases hread : set f.2.document s with
      | error e => simp [fill, hset, hread, bind, Except.bind] at h
      | ok next =>
        rw [fill_cons hset hread] at h
        have hseen : ∀ g ∈ fs, g.1 ∉ f.1 :: seen := by
          intro g hg hmem
          rcases List.mem_cons.1 hmem with heq | hmem
          · exact hfresh (List.mem_map.2 ⟨g, hg, heq⟩)
          · exact hfs g hg hmem
        rw [Value.fieldDocuments, readFields, hset]
        simp only [if_neg hf, hread]
        refine (ih hnodup hseen h).trans ?_
        simp

/-- A record is read back from the members that are written of it. -/
theorem read_document {fs : List (String × Value)} {s : σ} (hnodup : (fs.map (·.1)).Nodup)
    (hrequired : ∀ k ∈ shape.required, k ∈ fs.map (·.1)) (h : shape.fill fs shape.blank = .ok s) :
    shape.read (Value.object fs).document = .ok s := by
  have hfields : shape.readFields (Value.fieldDocuments fs) [] shape.blank =
      .ok ((fs.map (·.1)).reverse ++ [], s) := readFields_of_fill hnodup (by simp) h
  have hall : shape.required.all (· ∈ (fs.map (·.1)).reverse ++ []) = true :=
    List.all_eq_true.2 fun k hk ↦ by simpa using hrequired k hk
  rw [Value.document, read, hfields]
  simp only [bind, Except.bind, hall]
  rfl

section Keeping

variable {P : σ → Prop}

theorem of_readFields (hkept : ∀ m ∈ shape.members, ∀ d s s', P s → m.2 d s = .ok s' → P s')
    {fs : List (Spelling × Document)} {seen seen' : List String} {s s' : σ} (hs : P s)
    (h : shape.readFields fs seen s = .ok (seen', s')) : P s' := by
  induction fs generalizing seen s with
  | nil =>
    obtain ⟨-, rfl⟩ := Prod.mk.inj (Except.ok.inj h)
    exact hs
  | cons f fs ih =>
    obtain ⟨spelling, d⟩ := f
    cases spelling with
    | unpaired => cases h
    | text k =>
      rw [readFields] at h
      cases hset : shape.members.lookup k with
      | none =>
        simp only [hset] at h
        split_ifs at h
        exact ih hs h
      | some set =>
        obtain ⟨before, rest, hmembers, -⟩ := List.lookup_eq_some_iff.1 hset
        have hmem : (k, set) ∈ shape.members := hmembers ▸ List.mem_append_right _ List.mem_cons_self
        simp only [hset] at h
        split_ifs at h
        obtain ⟨t, ht, h⟩ := bind_eq_ok_iff.1 h
        exact ih (hkept _ hmem d s t hs ht) h

theorem of_readItems {members : List (String × (Document → σ → Except Misfit σ))}
    (hkept : ∀ m ∈ members, ∀ d s s', P s → m.2 d s = .ok s' → P s') {closed : Bool}
    {ds : List Document} {seen seen' : List String} {s s' : σ} (hs : P s)
    (h : readItems closed members ds seen s = .ok (seen', s')) : P s' := by
  induction members generalizing ds seen s with
  | nil =>
    cases ds with
    | nil =>
      rw [readItems] at h
      split_ifs at h
      obtain ⟨-, rfl⟩ := Prod.mk.inj (Except.ok.inj h)
      exact hs
    | cons d ds => cases h
  | cons m members ih =>
    obtain ⟨hm, hmembers⟩ := List.forall_mem_cons.1 hkept
    cases ds with
    | nil =>
      rw [readItems] at h
      split_ifs at h
      obtain ⟨-, rfl⟩ := Prod.mk.inj (Except.ok.inj h)
      exact hs
    | cons d ds =>
      obtain ⟨t, ht, h⟩ := bind_eq_ok_iff.1 h
      exact ih hmembers (hm d s t hs ht) h

/-- What every member keeps holds of a record that is read, if it holds of the blank one. -/
theorem of_read {d : Document} {s : σ} (hblank : P shape.blank)
    (hkept : ∀ m ∈ shape.members, ∀ d s s', P s → m.2 d s = .ok s' → P s')
    (h : shape.read d = .ok s) : P s := by
  cases d with
  | object fields closed =>
    obtain ⟨⟨seen, s'⟩, hfields, h⟩ := bind_eq_ok_iff.1 h
    simp only at h
    split_ifs at h
    obtain rfl := Except.ok.inj h
    exact of_readFields hkept hblank hfields
  | array ds closed =>
    obtain ⟨⟨seen, s'⟩, hitems, h⟩ := bind_eq_ok_iff.1 h
    simp only at h
    split_ifs at h
    obtain rfl := Except.ok.inj h
    exact of_readItems hkept hblank hitems
  | _ => cases h

end Keeping

end Shape

end Reader

end Json

end Switchyard
