import Switchyard.Proofs.Command.KeyText

/-!
# Keys that are read back

A key that goes over the wire comes back as it was if its wire form begins with its own address and
with no other, and if no blanks surround its text. Two such keys never have the same wire form.

Any other key comes back as another one, and it never returns by further trips: each of them takes
it to a later stage, until it is read back. So in a table no key can take the place of another one
that was lost, and a table arrives as it was sent only if each of its keys is read back.

## Main definitions

* `Key.carried` : a key after one trip over the wire.
* `Key.Clear`, `Key.Legible` : the keys that keep their address, and those that are read back.
* `Key.stage` : how far a key is on its way to one that is read back.

## Main results

* `Key.parse_wire_of_clear` : how the wire form of a clear key is read.
* `Key.carried_eq_iff` : exactly the legible keys are read back.
* `Key.stage_lt_carried` : a trip takes any other key to a later stage.
* `Key.wire_injective` : legible keys differ in their wire forms.
* `CommandTable.keys_arrive_iff`, `CommandTable.decode_encode_perm_iff` : when a table arrives as it
  was sent.
-/

namespace Switchyard

open Text

namespace Key

variable {k : Key} {name rest cs : List Char} {client text : String}

/-! ### One trip -/

/-- The key after one trip over the wire: what its wire form is read as, and where that is empty
what it was before. -/
def carried (k : Key) : Key where
  client := (parse k.wire).client <|> nonempty? (k.client.getD "")
  text := if (parse k.wire).text.isEmpty then k.text else (parse k.wire).text

/-- A text without the blanks around it, or as it is if there is nothing else. -/
def settled (text : String) : String := if trim text = "" then text else trim text

theorem carried_of_addressed (h : Addressed k.wire.toList name rest) : k.carried =
    ⟨some (String.ofList name), if trimChars rest = [] then k.text
      else String.ofList (trimChars rest)⟩ := by
  rw [carried, parse_of_addressed h]
  simp

theorem carried_of_not_addressed (h : ∀ name rest, ¬Addressed k.wire.toList name rest) :
    k.carried =
      ⟨nonempty? (k.client.getD ""), if trim k.wire = "" then k.text else trim k.wire⟩ := by
  rw [carried, parse_of_not_addressed h]
  simp [plain]

/-- After an at sign and a space there is no name. -/
theorem not_addressed_of_space (cs name rest : List Char) :
    ¬Addressed ('@' :: ' ' :: cs) name rest := by
  rintro ⟨hcs, hne, hspace⟩
  cases name with
  | nil => exact hne rfl
  | cons c name =>
    obtain ⟨hc, -⟩ := List.cons.inj (List.cons.inj hcs).2
    exact hspace (hc ▸ List.mem_cons_self)

theorem addressed_wire (hne : client ≠ "") (hspace : ' ' ∉ client.toList) (text : String) :
    Addressed (Key.mk (some client) text).wire.toList client.toList text.toList :=
  ⟨toList_wire_some client text, by simpa using hne, hspace⟩

/-! ### Clear keys -/

/-- The wire form of a key begins with its address, if it has one, and with no other. -/
def Clear (k : Key) : Prop :=
  match k.client with
  | none => ∀ name rest, ¬Addressed k.text.toList name rest
  | some client => client ≠ "" ∧ ' ' ∉ client.toList

/-- A clear key is read with its address and without the blanks around its text. -/
theorem parse_wire_of_clear (h : k.Clear) : parse k.wire = ⟨k.client, trim k.text⟩ := by
  obtain ⟨client, text⟩ := k
  cases client with
  | none => exact parse_of_not_addressed h
  | some client =>
    obtain ⟨hne, hspace⟩ := h
    rw [parse_of_addressed (addressed_wire hne hspace text), String.ofList_toList]
    rfl

/-- A clear key loses only the blanks around its text. -/
theorem carried_of_clear (h : k.Clear) : k.carried = ⟨k.client, settled k.text⟩ := by
  rw [carried, parse_wire_of_clear h]
  cases k.client <;> simp [settled, nonempty?]

/-- The wire forms of clear keys differ. -/
theorem wire_injective {k' : Key} (h : k.Clear) (h' : k'.Clear) (hwire : k.wire = k'.wire) :
    k = k' := by
  obtain ⟨client, text⟩ := k
  obtain ⟨client', text'⟩ := k'
  cases client with
  | none =>
    cases client' with
    | none => exact congrArg (Key.mk none) hwire
    | some client' =>
      have haddr := addressed_wire h'.1 h'.2 text'
      rw [← hwire] at haddr
      exact absurd haddr (h _ _)
  | some client =>
    have haddr := addressed_wire h.1 h.2 text
    cases client' with
    | none =>
      rw [hwire] at haddr
      exact absurd haddr (h' _ _)
    | some client' =>
      -- both names end at the first space
      have hchars : client.toList ++ ' ' :: text.toList =
          client'.toList ++ ' ' :: text'.toList := by
        have htoList := congrArg String.toList hwire
        rw [toList_wire_some, toList_wire_some] at htoList
        exact (List.cons.inj htoList).2
      have hcut := cutAt_append h.2 text.toList
      rw [hchars, cutAt_append h'.2] at hcut
      obtain ⟨hclient, htext⟩ := Prod.mk.inj (Option.some.inj hcut)
      rw [String.toList_inj.1 hclient, String.toList_inj.1 htext]

/-! ### Stages -/

/-- How far a key is on its way to one that is read back. A name that begins with a space is never
read, so that the whole wire form becomes the text again and again. -/
def stage (k : Key) : Nat :=
  match k.client with
  | none => 1 + (decide (trim k.text = k.text)).toNat
  | some client =>
    if client ≠ "" ∧ ' ' ∉ client.toList then 3 + (decide (trim k.text = k.text)).toNat
    else if client.toList.head? = some ' ' then 5 + k.text.toList.countP (!isBlank ·)
    else 0

theorem stage_none_le (text : String) : (Key.mk none text).stage ≤ 2 := by
  have hone := Bool.toNat_le (decide (trim text = text))
  simp only [stage]
  omega

theorem three_le_stage (hne : name ≠ []) (hspace : ' ' ∉ name) (text : String) :
    3 ≤ (Key.mk (some (String.ofList name)) text).stage := by
  have hnamed : String.ofList name ≠ "" ∧ ' ' ∉ (String.ofList name).toList :=
    ⟨by simpa using hne, by rwa [String.toList_ofList]⟩
  simp only [stage, if_pos hnamed]
  exact Nat.le_add_right ..

theorem stage_lt_of_addressed (h : Addressed k.wire.toList name rest) (hle : k.stage ≤ 2) :
    k.stage < k.carried.stage := by
  rw [carried_of_addressed h]
  exact Nat.lt_of_le_of_lt hle (three_le_stage h.2.1 h.2.2 _)

theorem countP_trim (s : String) :
    (trim s).toList.countP (!isBlank ·) = s.toList.countP (!isBlank ·) := by
  rw [List.countP_eq_length_filter, List.countP_eq_length_filter, trim, String.toList_ofList,
    filter_trimChars]

/-- A name that begins with a space stays, and the text takes in the whole wire form. -/
theorem stage_lt_of_head_space (h : client.toList = ' ' :: cs) (text : String) :
    (Key.mk (some client) text).stage < (Key.mk (some client) text).carried.stage := by
  have hwire := toList_wire_some client text
  have hplain := carried_of_not_addressed (k := ⟨some client, text⟩) fun name rest ↦ by
    rw [hwire, h]
    exact not_addressed_of_space _ name rest
  have hne : client ≠ "" := by
    rintro rfl
    cases h
  have hclient : nonempty? client = some client := by simp [nonempty?, hne]
  have htext : trim (Key.mk (some client) text).wire ≠ "" := by
    simp [trim, hwire, trimChars_cons (show isBlank '@' = false by decide)]
  have hunnamed : ¬(client ≠ "" ∧ ' ' ∉ client.toList) := by simp [h]
  have hspace : client.toList.head? = some ' ' := by rw [h, List.head?_cons]
  rw [hplain, if_neg htext, Option.getD_some, hclient]
  simp only [stage, if_neg hunnamed, if_pos hspace, countP_trim, hwire]
  rw [List.countP_cons_of_pos (by decide), List.countP_append, List.countP_cons]
  omega

/-- A name with a space further inside ends before it. -/
theorem stage_lt_of_inner_space {c : Char} (h : client.toList = c :: cs) (hc : c ≠ ' ')
    (hmem : ' ' ∈ client.toList) (text : String) :
    (Key.mk (some client) text).stage < (Key.mk (some client) text).carried.stage := by
  have hunnamed : ¬(client ≠ "" ∧ ' ' ∉ client.toList) := fun hclear ↦ hclear.2 hmem
  have hzero : (Key.mk (some client) text).stage = 0 := by
    simp only [stage, if_neg hunnamed]
    rw [h, List.head?_cons, if_neg (by simpa using hc)]
  obtain ⟨name, rest, hsplit, hspace⟩ := List.eq_append_cons_of_mem hmem
  have hne : name ≠ [] := by
    rintro rfl
    rw [h] at hsplit
    exact hc (List.cons.inj hsplit).1
  have haddr : Addressed (Key.mk (some client) text).wire.toList name
      (rest ++ ' ' :: text.toList) := by
    refine ⟨?_, hne, hspace⟩
    rw [toList_wire_some, hsplit, List.append_assoc, List.cons_append]
  exact stage_lt_of_addressed haddr (by omega)

/-- A key that is not clear comes back at a later stage. -/
theorem stage_lt_of_not_clear (h : ¬k.Clear) : k.stage < k.carried.stage := by
  obtain ⟨client, text⟩ := k
  cases client with
  | none =>
    obtain ⟨name, rest, haddr⟩ : ∃ name rest, Addressed text.toList name rest := by
      simpa [Clear] using h
    exact stage_lt_of_addressed haddr (stage_none_le text)
  | some client =>
    cases hchars : client.toList with
    | nil =>
      obtain rfl : client = "" := by simpa using hchars
      have hplain := carried_of_not_addressed (k := ⟨some "", text⟩) fun name rest ↦ by
        rw [toList_wire_some, hchars]
        exact not_addressed_of_space _ name rest
      rw [hplain]
      exact Nat.lt_of_lt_of_le Nat.zero_lt_one (Nat.le_add_right ..)
    | cons c cs =>
      by_cases hc : c = ' '
      · subst hc
        exact stage_lt_of_head_space hchars text
      · refine stage_lt_of_inner_space hchars hc ?_ text
        by_contra hspace
        refine h ⟨?_, hspace⟩
        rintro rfl
        cases hchars

/-! ### Legible keys -/

/-- A clear key whose text has no blanks around it, or nothing else. -/
def Legible (k : Key) : Prop := k.Clear ∧ settled k.text = k.text

/-- A clear key with blanks around its text loses them, and that is one stage. -/
theorem stage_lt_of_clear (h : k.Clear) (htext : settled k.text ≠ k.text) :
    k.stage < k.carried.stage := by
  have hsettled : settled k.text = trim k.text := by
    rw [settled, if_neg]
    intro hblank
    exact htext (by rw [settled, if_pos hblank])
  rw [hsettled] at htext
  rw [carried_of_clear h, hsettled]
  obtain ⟨client, text⟩ := k
  cases client with
  | none => simp [stage, trim_trim, htext]
  | some client =>
    have hnamed : client ≠ "" ∧ ' ' ∉ client.toList := h
    simp only [stage, if_pos hnamed, trim_trim, decide_true, decide_eq_false htext]
    exact Nat.lt_succ_self _

/-- A trip takes a key that is not legible to a later stage. -/
theorem stage_lt_carried (h : ¬k.Legible) : k.stage < k.carried.stage := by
  by_cases hclear : k.Clear
  · exact stage_lt_of_clear hclear fun htext ↦ h ⟨hclear, htext⟩
  · exact stage_lt_of_not_clear hclear

/-- Exactly the legible keys are read back. -/
theorem carried_eq_iff : k.carried = k ↔ k.Legible := by
  constructor
  · intro heq
    by_contra h
    have hlt := stage_lt_carried h
    rw [heq] at hlt
    exact Nat.lt_irrefl _ hlt
  · rintro ⟨hclear, htext⟩
    rw [carried_of_clear hclear, htext]

/-- In a set of keys each of which some key of the set is read as, every key is legible. -/
theorem legible_of_surjective {K : Key → Prop} (hK : ∀ k, K k → ∃ k', K k' ∧ k'.carried = k)
    (hk : K k) : k.Legible := by
  -- a key that is not legible is read from one of an earlier stage that is not legible either
  induction hn : k.stage using Nat.strongRecOn generalizing k with
  | ind n ih =>
    by_contra hnot
    obtain ⟨k', hk', hcarried⟩ := hK k hk
    have hnot' : ¬k'.Legible := by
      intro hlegible
      rw [carried_eq_iff.2 hlegible] at hcarried
      exact hnot (hcarried ▸ hlegible)
    have hlt := stage_lt_carried hnot'
    rw [hcarried, hn] at hlt
    exact hnot' (ih _ hlt hk' rfl)

end Key

/-! ### Tables -/

theorem Command.key_carried (c : Command) : c.carried.key = c.key.carried := rfl

namespace CommandTable

variable {cs : List Command}

/-- If all keys are legible no command is lost, and each arrives under its key. -/
theorem decode_encode_perm_of_legible (h : (cs.map (·.key)).Nodup)
    (hlegible : ∀ c ∈ cs, c.key.Legible) : (decode (encode cs)).Perm (cs.map Command.carried) := by
  refine decode_encode_perm ?_
  have hwires : ((cs.map (·.key)).map Key.wire).Nodup := by
    refine h.map_on fun k hk k' hk' hwire ↦ ?_
    obtain ⟨c, hc, rfl⟩ := List.mem_map.1 hk
    obtain ⟨c', hc', rfl⟩ := List.mem_map.1 hk'
    exact Key.wire_injective (hlegible c hc).1 (hlegible c' hc').1 hwire
  rwa [List.map_map] at hwires

/-- The keys of a table arrive as they were sent if and only if all are legible. -/
theorem keys_arrive_iff (h : (cs.map (·.key)).Nodup) :
    ((decode (encode cs)).map (·.key)).Perm (cs.map (·.key)) ↔ ∀ c ∈ cs, c.key.Legible := by
  constructor
  · intro hperm c hc
    refine Key.legible_of_surjective (K := (· ∈ cs.map (·.key))) ?_ (List.mem_map_of_mem hc)
    intro k hk
    obtain ⟨d, hd, rfl⟩ := List.mem_map.1 (hperm.mem_iff.2 hk)
    obtain ⟨sent, hsent, rfl⟩ := mem_decode_encode hd
    exact ⟨sent.key, List.mem_map_of_mem hsent, rfl⟩
  · intro hlegible
    have hperm := (decode_encode_perm_of_legible h hlegible).map (·.key)
    have hkeys : (cs.map Command.carried).map (·.key) = cs.map (·.key) := by
      rw [List.map_map]
      exact List.map_congr_left fun c hc ↦ Key.carried_eq_iff.2 (hlegible c hc)
    rwa [hkeys] at hperm

/-- A table arrives as it was sent if and only if each command comes back as it was. -/
theorem decode_encode_perm_iff (h : (cs.map (·.key)).Nodup) :
    (decode (encode cs)).Perm cs ↔ ∀ c ∈ cs, c.carried = c := by
  constructor
  · intro hperm c hc
    have hlegible := (keys_arrive_iff h).1 (hperm.map _)
    obtain ⟨sent, hsent, hcarried⟩ := mem_decode_encode (hperm.mem_iff.2 hc)
    have hkey : c.key = sent.key := by
      rw [hcarried, Command.key_carried, Key.carried_eq_iff.2 (hlegible sent hsent)]
    rw [List.inj_on_of_nodup_map h hc hsent hkey] at hcarried ⊢
    exact hcarried.symm
  · intro hsame
    have hlegible (c : Command) (hc : c ∈ cs) : c.key.Legible :=
      Key.carried_eq_iff.1 (congrArg Command.key (hsame c hc))
    have hmap : cs.map Command.carried = cs := by
      rw [List.map_congr_left hsame, List.map_id']
    have hperm := decode_encode_perm_of_legible h hlegible
    rwa [hmap] at hperm

end CommandTable

end Switchyard
