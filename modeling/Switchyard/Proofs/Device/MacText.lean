import Switchyard.Proofs.Device.Spelling

/-!
# Canonical addresses are read back

The octets of an address that was read fit in a byte, and the canonical text of such an address is
read as the same octets. So the canonical text of a canonical text is the text itself. An address on
the network has dots and no separators, and so it is read as no hardware address.

## Main results

* `Mac.octets_lt_of_ofChars?` : what is read has octets that fit in a byte.
* `Mac.parse?_text` : the canonical text is read back.
* `Mac.canonical?_canonical` : canonical texts stay as they are.
* `Mac.canonical?_of_isIpv4` : an address on the network is no hardware address.
-/

namespace Switchyard

open Text

/-! ### What is read -/

namespace Text

theorem lt_of_unsigned? {base bound n : Nat} {cs : List Char}
    (h : unsigned? base bound cs = some n) : n < bound :=
  of_decide_eq_true (Option.filter_eq_some_iff.1 h).2

/-- What is read from parts one by one is what each of them is read as. -/
theorem map_of_mapM_unsigned? {base bound : Nat} {ps : List (List Char)} {ns : List Nat}
    (h : ps.mapM (unsigned? base bound) = some ns) :
    ps.map (unsigned? base bound) = ns.map some := by
  induction ps generalizing ns with
  | nil =>
    obtain rfl := Option.some.inj h
    rfl
  | cons p ps ih =>
    simp only [List.mapM_cons, Option.bind_eq_bind, Option.bind_eq_some_iff] at h
    obtain ⟨n, hn, ms, hms, heq⟩ := h
    obtain rfl := Option.some.inj heq
    rw [List.map_cons, List.map_cons, hn, ih hms]

theorem forall_of_mapM_unsigned? {base bound : Nat} {ps : List (List Char)} {ns : List Nat}
    (h : ps.mapM (unsigned? base bound) = some ns) : ∀ n ∈ ns, n < bound := by
  intro n hn
  have hread := List.mem_map_of_mem (f := some) hn
  rw [← map_of_mapM_unsigned? h] at hread
  obtain ⟨p, -, hp⟩ := List.mem_map.1 hread
  exact lt_of_unsigned? hp

theorem exists_of_mapM_unsigned? {base bound : Nat} {ps : List (List Char)} {ns : List Nat}
    (h : ps.mapM (unsigned? base bound) = some ns) :
    ∀ p ∈ ps, ∃ n, unsigned? base bound p = some n := by
  intro p hp
  have hread := List.mem_map_of_mem (f := unsigned? base bound) hp
  rw [map_of_mapM_unsigned? h] at hread
  obtain ⟨n, -, hn⟩ := List.mem_map.1 hread
  exact ⟨n, hn.symm⟩

end Text

namespace Mac

variable {m : Mac} {s t : String}

/-- What is read has octets that fit in a byte. -/
theorem octets_lt_of_ofChars? {cs : List Char} (h : ofChars? cs = some m) :
    ∀ n ∈ m.octets, n < 256 := by
  simp only [ofChars?, Option.bind_eq_bind, Option.bind_eq_some_iff] at h
  obtain ⟨ps, -, ns, hns, hm⟩ := h
  obtain rfl := Option.some.inj hm
  intro n hn
  rcases List.mem_append.1 (List.mem_of_mem_take hn) with hread | hzero
  · exact forall_of_mapM_unsigned? hns n hread
  · rw [List.eq_of_mem_replicate hzero]
    decide

theorem octets_lt_of_parse? (h : parse? s = some m) : ∀ n ∈ m.octets, n < 256 :=
  octets_lt_of_ofChars? h

/-! ### The canonical text -/

/-- The canonical text is read back. -/
theorem parse?_text (h : ∀ n ∈ m.octets, n < 256) : parse? m.text = some m :=
  parse?_of_spelling (spelling_text h)

/-- A canonical text is its own canonical text. -/
theorem canonical?_canonical (h : canonical? s = some t) : canonical? t = some t := by
  obtain ⟨m, hm, rfl⟩ := Option.map_eq_some_iff.1 h
  rw [canonical?, parse?_text (octets_lt_of_parse? hm), Option.map_some]

end Mac

/-! ### Addresses on the network -/

namespace Text

theorem isSome_digitIn_of_digitsFrom {base n v : Nat} {cs : List Char}
    (h : digitsFrom base n cs = some v) : ∀ c ∈ cs, (digitIn base c).isSome = true := by
  induction cs generalizing n with
  | nil => exact fun c hc ↦ absurd hc List.not_mem_nil
  | cons c cs ih =>
    obtain ⟨d, hd, hrest⟩ := Option.bind_eq_some_iff.1 h
    exact List.forall_mem_cons.2 ⟨by rw [hd]; rfl, ih hrest⟩

/-- What is read as digits is all digits. -/
theorem isSome_digitIn_of_digits? {base v : Nat} {cs : List Char} (h : digits? base cs = some v) :
    ∀ c ∈ cs, (digitIn base c).isSome = true := by
  cases cs with
  | nil => cases h
  | cons c cs => exact isSome_digitIn_of_digitsFrom h

/-- What is read as a number has only digits and a plus sign. -/
theorem eq_plus_or_of_unsigned? {base bound v : Nat} {cs : List Char}
    (h : unsigned? base bound cs = some v) :
    ∀ c ∈ cs, c = '+' ∨ (digitIn base c).isSome = true := by
  have hread := (Option.filter_eq_some_iff.1 h).1
  intro c hc
  split at hread
  next rest =>
    exact (List.mem_cons.1 hc).imp id fun hrest ↦ isSome_digitIn_of_digits? hread c hrest
  next => exact Or.inr (isSome_digitIn_of_digits? hread c hc)

/-- A decimal digit neither separates the parts of an address nor is blank. -/
theorem plain_of_digitIn {c : Char} (h : (digitIn 10 c).isSome = true) :
    isBlank c = false ∧ Mac.isSeparator c = false := by
  obtain ⟨d, hd⟩ := Option.isSome_iff_exists.1 h
  obtain ⟨hvalue, hten⟩ := Option.filter_eq_some_iff.1 hd
  have hlt : d < 10 := of_decide_eq_true hten
  have hrange : 48 ≤ c.toNat ∧ c.toNat ≤ 57 := by
    unfold digitValue at hvalue
    split_ifs at hvalue with hdigit
    · exact ⟨UInt32.le_iff_toNat_le.1 hdigit.1, UInt32.le_iff_toNat_le.1 hdigit.2⟩
    -- a letter counts ten at least
    all_goals
      have hd := Option.some.inj hvalue
      omega
  constructor
  · simp only [isBlank, Bool.or_eq_false_iff, Bool.and_eq_false_imp, decide_eq_true_eq,
      decide_eq_false_iff_not, beq_eq_false_iff_ne, ne_eq]
    omega
  · rw [Mac.isSeparator, Bool.or_eq_false_iff, beq_eq_false_iff_ne, beq_eq_false_iff_ne]
    constructor
    all_goals
      rintro rfl
      exact absurd hrange (by decide)

end Text

namespace Mac

variable {s : String} {cs : List Char} {c : Char} {ps : List (List Char)}

theorem exists_mem_pairs (hc : c ∈ cs) : ∃ p ∈ pairs cs, c ∈ p := by
  induction cs using pairs.induct with
  | case1 a b cs ih =>
    rcases List.mem_cons.1 hc with rfl | hc
    · exact ⟨[c, b], List.mem_cons_self, List.mem_cons_self⟩
    · rcases List.mem_cons.1 hc with rfl | hc
      · exact ⟨[a, c], List.mem_cons_self, List.mem_cons_of_mem a List.mem_cons_self⟩
      · obtain ⟨p, hp, hcp⟩ := ih hc
        exact ⟨p, List.mem_cons_of_mem _ hp, hcp⟩
  | case2 a => exact ⟨[a], List.mem_singleton_self _, hc⟩
  | case3 => cases hc

/-- Where nothing separates, every character stands in a part. -/
theorem exists_mem_parts (hsep : ∀ c ∈ cs, isSeparator c = false) (h : parts cs = some ps)
    (hc : c ∈ cs) : ∃ p ∈ ps, c ∈ p := by
  unfold parts at h
  split_ifs at h
  · obtain rfl := Option.some.inj h
    rw [pieces_of_forall hsep]
    exact ⟨cs, List.mem_singleton_self cs, hc⟩
  · obtain rfl := Option.some.inj h
    exact exists_mem_pairs hc

/-- What has a dot and no separators is read as no address. -/
theorem ofChars?_of_dot (hsep : ∀ c ∈ cs, isSeparator c = false) (hdot : '.' ∈ cs) :
    ofChars? cs = none := by
  rw [Option.eq_none_iff_forall_ne_some]
  intro m hm
  simp only [ofChars?, Option.bind_eq_bind, Option.bind_eq_some_iff] at hm
  obtain ⟨ps, hps, ns, hns, -⟩ := hm
  obtain ⟨p, hp, hdotp⟩ := exists_mem_parts hsep hps hdot
  obtain ⟨n, hn⟩ := exists_of_mapM_unsigned? hns p hp
  exact absurd (eq_plus_or_of_unsigned? hn '.' hdotp) (by decide)

theorem isSome_digitIn_of_isIpv4Octet (h : isIpv4Octet cs = true) :
    ∀ c ∈ cs, (digitIn 10 c).isSome = true := by
  unfold isIpv4Octet at h
  split at h
  next => exact List.forall_mem_singleton.2 (by decide)
  next => cases h
  next =>
    obtain ⟨n, hn, -⟩ := (Option.any_eq_true ..).1 (Bool.and_eq_true_iff.1 h).2
    exact isSome_digitIn_of_digits? hn

/-- An address on the network is no hardware address. -/
theorem canonical?_of_isIpv4 (h : isIpv4 s = true) : canonical? s = none := by
  obtain ⟨hfour, hoctets⟩ := Bool.and_eq_true_iff.1 h
  have hplain : ∀ c ∈ s.toList, isBlank c = false ∧ isSeparator c = false := by
    intro c hc
    cases hcdot : c == '.' with
    | true =>
      obtain rfl := eq_of_beq hcdot
      decide
    | false =>
      obtain ⟨w, hw, hcw⟩ := exists_mem_pieces (p := (· == '.')) hc hcdot
      exact plain_of_digitIn (isSome_digitIn_of_isIpv4Octet (List.all_eq_true.1 hoctets w hw) c hcw)
  have hdot : '.' ∈ s.toList := by
    by_contra hnone
    have hwhole : pieces (· == '.') s.toList = [s.toList] := pieces_of_forall fun c hc ↦
      beq_eq_false_iff_ne.2 fun heq ↦ hnone (heq ▸ hc)
    rw [hwhole] at hfour
    cases hfour
  rw [canonical?, parse?, trimChars_of_forall fun c hc ↦ (hplain c hc).1,
    ofChars?_of_dot (fun c hc ↦ (hplain c hc).2) hdot, Option.map_none]

end Mac

end Switchyard
