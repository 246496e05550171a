import Switchyard.Proofs.Device.MacText
import Switchyard.Proofs.Device.Numerals

/-!
# What is read as an address

An address is read from more texts than those that spell one. An octet may be any numeral whose
value fits in a byte, also with a plus sign or with zeros in front. Of seventeen characters the
parts between the marks are read: when there are fewer than six of them the missing octets are zero,
and when there are more the text after the sixth is not looked at. Of twelve characters the pairs
are read.

So a text that is read as an address spells it exactly if there is no plus sign in it and, where it
has seventeen characters, every third of them is a mark and no other.

## Main definitions

* `Mac.IsOctet`, `Mac.Parted`, `Mac.Paired` : octets as they are read, and texts of several ones.
* `Mac.Readable` : the texts from which an address is read.
* `Mac.Neat` : the condition on the plus sign and on the places of the marks.

## Main results

* `Mac.parse?_eq_some_iff` : an address is read from the readable texts and from nothing else.
* `Mac.spelling_iff` : a readable text is a spelling if it is neat.
-/

namespace Switchyard

open Text

namespace Mac

variable {a b sep : Char} {k n : Nat} {w cs : List Char} {ns : List Nat} {m : Mac} {s : String}

/-! ### Octets -/

/-- The texts that are read as an octet. -/
def IsOctet (n : Nat) (w : List Char) : Prop :=
  n < 256 ∧ (IsHex n w ∨ ∃ v, w = '+' :: v ∧ IsHex n v)

theorem unsigned?_eq_some_iff_isOctet : unsigned? 16 256 w = some n ↔ IsOctet n w :=
  unsigned?_eq_some_iff

/-- An octet has plain characters and plus signs. -/
theorem IsOctet.forall_mem (h : IsOctet n w) : ∀ c ∈ w, c.toNat < 128 ∧ isSeparator c = false := by
  have hhex {v : List Char} (hv : IsHex n v) : ∀ c ∈ v, c.toNat < 128 ∧ isSeparator c = false :=
    fun c hc ↦ ⟨(hv.forall_mem c hc).1.1, (hv.forall_mem c hc).1.2.2⟩
  rcases h.2 with hw | ⟨v, rfl, hv⟩
  · exact hhex hw
  · exact List.forall_mem_cons.2 ⟨by decide, hhex hv⟩

theorem IsOctet.isSeparator_eq_false (h : IsOctet n w) : ∀ c ∈ w, isSeparator c = false :=
  fun c hc ↦ (h.forall_mem c hc).2

/-- Two characters that are read as an octet are its digits, unless the first is a plus sign. -/
theorem IsOctet.isHexPair (h : IsOctet n w) (hlength : w.length = 2) (hplus : '+' ∉ w) :
    IsHexPair n w := by
  obtain ⟨hn, hw | ⟨v, rfl, -⟩⟩ := h
  · cases hw with
    | digit => cases hlength
    | @snoc high low v c hfront hd hc =>
      rw [List.length_append, List.length_singleton] at hlength
      cases hfront with
      | digit hd' hc' =>
        have hhigh : (high * 16 + low) / 16 = high := by omega
        have hlow : (high * 16 + low) % 16 = low := by omega
        exact .mk hn (by rwa [hhigh]) (by rwa [hlow])
      | snoc hfront =>
        have := List.length_pos_iff.2 hfront.ne_nil
        simp only [List.length_append, List.length_singleton] at hlength
        omega
  · exact absurd List.mem_cons_self hplus

/-! ### Several octets -/

/-- Octets with a mark between any two, of which at most the given number is read: what follows the
last of these is not looked at. -/
inductive Parted : Nat → List Nat → List Char → Prop
  | last {k n : Nat} {w : List Char} (h : IsOctet n w) : Parted (k + 1) [n] w
  | full {n : Nat} {w rest : List Char} {sep : Char} (h : IsOctet n w)
      (hsep : isSeparator sep = true) : Parted 1 [n] (w ++ sep :: rest)
  | next {k n : Nat} {ns : List Nat} {w cs : List Char} {sep : Char} (h : IsOctet n w)
      (hsep : isSeparator sep = true) (hrest : Parted (k + 1) ns cs) :
      Parted (k + 2) (n :: ns) (w ++ sep :: cs)

/-- Octets of two characters with nothing between them. -/
inductive Paired : List Nat → List Char → Prop
  | nil : Paired [] []
  | cons {n : Nat} {ns : List Nat} {a b : Char} {cs : List Char} (h : IsOctet n [a, b])
      (hrest : Paired ns cs) : Paired (n :: ns) (a :: b :: cs)

theorem mapM_cons_eq_some_iff {α β : Type} {f : α → Option β} {x : α} {xs : List α} {ys : List β} :
    (x :: xs).mapM f = some ys ↔ ∃ y zs, f x = some y ∧ xs.mapM f = some zs ∧ ys = y :: zs := by
  simp only [List.mapM_cons, Option.bind_eq_bind, Option.bind_eq_some_iff, Option.pure_def,
    Option.some.injEq]
  grind

/-- A text has no mark, or a first one. -/
theorem forall_or_exists_mark (cs : List Char) : (∀ c ∈ cs, isSeparator c = false) ∨
    ∃ w sep rest, cs = w ++ sep :: rest ∧ isSeparator sep = true ∧
      ∀ c ∈ w, isSeparator c = false := by
  cases h : cs.find? isSeparator with
  | none => exact .inl fun c hc ↦ (Bool.not_eq_true _).mp (List.find?_eq_none.1 h c hc)
  | some sep =>
    obtain ⟨hsep, w, rest, rfl, hw⟩ := List.find?_eq_some_iff_append.1 h
    exact .inr ⟨w, sep, rest, rfl, hsep, fun c hc ↦ (Bool.not_eq_true' _).mp (hw c hc)⟩

theorem Parted.length_le (h : Parted k ns cs) : ns.length ≤ k := by
  induction h with
  | last => exact Nat.succ_le_succ (Nat.zero_le _)
  | full => exact Nat.le_refl 1
  | next _ _ _ ih => exact Nat.succ_le_succ ih

/-- The parts of a text without marks are the text itself. -/
theorem parted_of_unmarked (hnone : ∀ c ∈ cs, isSeparator c = false)
    (h : ((pieces isSeparator cs).take (k + 1)).mapM (unsigned? 16 256) = some ns) :
    Parted (k + 1) ns cs := by
  rw [pieces_of_forall hnone, List.take_succ_cons, List.take_nil, mapM_cons_eq_some_iff] at h
  obtain ⟨n, zs, hn, hzs, rfl⟩ := h
  obtain rfl := Option.some.inj hzs
  exact .last (unsigned?_eq_some_iff_isOctet.1 hn)

/-- The first parts of a text are read one by one. -/
theorem mapM_take_pieces_iff : ((pieces isSeparator cs).take (k + 1)).mapM (unsigned? 16 256) =
    some ns ↔ Parted (k + 1) ns cs := by
  constructor
  · intro h
    -- on the number of parts that are still read
    induction k generalizing cs ns with
    | zero =>
      rcases forall_or_exists_mark cs with hnone | ⟨w, sep, rest, rfl, hsep, hw⟩
      · exact parted_of_unmarked hnone h
      · rw [pieces_append hw hsep, List.take_succ_cons, mapM_cons_eq_some_iff] at h
        obtain ⟨n, zs, hn, hzs, rfl⟩ := h
        obtain rfl := Option.some.inj hzs
        exact .full (unsigned?_eq_some_iff_isOctet.1 hn) hsep
    | succ k ih =>
      rcases forall_or_exists_mark cs with hnone | ⟨w, sep, rest, rfl, hsep, hw⟩
      · exact parted_of_unmarked hnone h
      · rw [pieces_append hw hsep, List.take_succ_cons, mapM_cons_eq_some_iff] at h
        obtain ⟨n, zs, hn, hzs, rfl⟩ := h
        exact .next (unsigned?_eq_some_iff_isOctet.1 hn) hsep (ih hzs)
  · intro h
    generalize k + 1 = j at h ⊢
    induction h with
    | last h =>
      rw [pieces_of_forall h.isSeparator_eq_false, List.take_succ_cons, List.take_nil,
        mapM_cons_eq_some_iff]
      exact ⟨_, [], unsigned?_eq_some_iff_isOctet.2 h, rfl, rfl⟩
    | full h hsep =>
      rw [pieces_append h.isSeparator_eq_false hsep, List.take_succ_cons, mapM_cons_eq_some_iff]
      exact ⟨_, [], unsigned?_eq_some_iff_isOctet.2 h, rfl, rfl⟩
    | next h hsep _ ih =>
      rw [pieces_append h.isSeparator_eq_false hsep, List.take_succ_cons, mapM_cons_eq_some_iff]
      exact ⟨_, _, unsigned?_eq_some_iff_isOctet.2 h, ih, rfl⟩

/-- The pairs of an even number of characters are read one by one. -/
theorem mapM_pairs_iff (heven : cs.length % 2 = 0) :
    (pairs cs).mapM (unsigned? 16 256) = some ns ↔ Paired ns cs := by
  induction cs using pairs.induct generalizing ns with
  | case1 a b cs ih =>
    have hrest : cs.length % 2 = 0 := by
      simp only [List.length_cons] at heven
      omega
    rw [pairs, mapM_cons_eq_some_iff]
    constructor
    · rintro ⟨n, zs, hn, hzs, rfl⟩
      exact .cons (unsigned?_eq_some_iff_isOctet.1 hn) ((ih hrest).1 hzs)
    · rintro (_ | ⟨h, h'⟩)
      exact ⟨_, _, unsigned?_eq_some_iff_isOctet.2 h, (ih hrest).2 h', rfl⟩
  | case2 a => cases heven
  | case3 =>
    constructor
    · intro h
      obtain rfl := Option.some.inj h
      exact .nil
    · rintro ⟨⟩
      rfl

theorem Paired.length_eq (h : Paired ns cs) : cs.length = 2 * ns.length := by
  induction h with
  | nil => rfl
  | cons _ _ ih =>
    simp only [List.length_cons, ih]
    omega

theorem Paired.forall_mem (h : Paired ns cs) : ∀ c ∈ cs, c.toNat < 128 := by
  induction h with
  | nil => exact fun c hc ↦ absurd hc List.not_mem_nil
  | @cons n ns a b cs h _ ih =>
    change ∀ c ∈ [a, b] ++ cs, c.toNat < 128
    exact List.forall_mem_append.2 ⟨fun c hc ↦ (h.forall_mem c hc).1, ih⟩

/-! ### Addresses -/

/-- The texts from which an address is read. -/
inductive Readable (m : Mac) (cs : List Char) : Prop
  | marked {ns : List Nat} (hlength : cs.length = 17) (hascii : ∀ c ∈ cs, c.toNat < 128)
      (hparts : Parted 6 ns cs) (hoctets : m.octets = ns ++ List.replicate (6 - ns.length) 0)
  | bare (hlength : cs.length = 12) (hpairs : Paired m.octets cs)

theorem ofParts_eq_iff (h : ns.length ≤ 6) :
    ofParts ns = m ↔ m.octets = ns ++ List.replicate (6 - ns.length) 0 := by
  have hzeros : (ofParts ns).octets = ns ++ List.replicate (6 - ns.length) 0 := by
    change (ns ++ List.replicate 6 0).take 6 = _
    rw [List.take_append, List.take_of_length_le h, List.take_replicate, Nat.min_eq_left (by omega)]
  rw [← hzeros]
  exact ⟨fun heq ↦ heq ▸ rfl, fun heq ↦ by cases m; cases heq; rfl⟩

/-- An address is read from the readable texts and from nothing else. -/
theorem ofChars?_eq_some_iff : ofChars? cs = some m ↔ m.Readable cs := by
  have hread : ofChars? cs = some m ↔
      ∃ ps ns, parts cs = some ps ∧ ps.mapM (unsigned? 16 256) = some ns ∧ ofParts ns = m := by
    simp only [ofChars?, Option.bind_eq_bind, Option.bind_eq_some_iff, Option.some.injEq]
    grind
  rw [hread]
  constructor
  · rintro ⟨ps, ns, hps, hns, hm⟩
    unfold parts at hps
    split_ifs at hps with hascii hmarked hbare
    all_goals obtain rfl := Option.some.inj hps
    · have hparts := mapM_take_pieces_iff.1 hns
      refine .marked hmarked (fun c hc ↦ ?_) hparts ((ofParts_eq_iff hparts.length_le).1 hm)
      exact of_decide_eq_true (List.all_eq_true.1 hascii c hc)
    · have hpairs := (mapM_pairs_iff (by omega)).1 hns
      have hsix : ns.length = 6 := by
        have := hpairs.length_eq
        omega
      have hoctets : m.octets = ns := by
        rw [(ofParts_eq_iff hsix.le).1 hm, hsix, Nat.sub_self, List.replicate_zero, List.append_nil]
      exact .bare hbare (hoctets ▸ hpairs)
  · have hascii (hall : ∀ c ∈ cs, c.toNat < 128) : ¬¬cs.all (fun c ↦ c.toNat < 128) = true :=
      not_not.2 (List.all_eq_true.2 fun c hc ↦ decide_eq_true (hall c hc))
    rintro (⟨hlength, hall, hparts, hoctets⟩ | ⟨hlength, hpairs⟩)
    · refine ⟨_, _, ?_, mapM_take_pieces_iff.2 hparts, (ofParts_eq_iff hparts.length_le).2 hoctets⟩
      rw [parts, if_neg (hascii hall), if_pos hlength]
    · refine ⟨_, _, ?_, (mapM_pairs_iff (by omega)).2 hpairs, ofParts_octets m⟩
      rw [parts, if_neg (hascii hpairs.forall_mem), if_neg (by omega), if_pos hlength]

theorem parse?_eq_some_iff : parse? s = some m ↔ m.Readable (trimChars s.toList) :=
  ofChars?_eq_some_iff

/-! ### Spellings among the readable texts -/

/-- Every third character is a mark and no other. -/
def Marked (cs : List Char) : Prop :=
  ∀ (i : Nat) (c : Char), cs[i]? = some c → (isSeparator c = true ↔ i % 3 = 2)

/-- A text has no plus sign and, if it has seventeen characters, a mark at every third place and
nowhere else. -/
def Neat (cs : List Char) : Prop := '+' ∉ cs ∧ (cs.length = 17 → Marked cs)

/-- Where the marks have their places, no three characters go without one. -/
theorem Marked.length_le_two {rest : List Char} (h : Marked (w ++ rest))
    (hw : ∀ c ∈ w, isSeparator c = false) : w.length ≤ 2 := by
  by_contra hlong
  have hlt : 2 < w.length := by omega
  have hthird : (w ++ rest)[2]? = some w[2] := by
    rw [List.getElem?_append_left hlt, List.getElem?_eq_getElem hlt]
  have hmark := (h 2 w[2] hthird).2 rfl
  rw [hw _ (List.getElem_mem hlt)] at hmark
  cases hmark

/-- Where the marks have their places, two characters stand before the first. -/
theorem Marked.of_append (h : Marked (w ++ sep :: cs)) (hsep : isSeparator sep = true)
    (hw : ∀ c ∈ w, isSeparator c = false) : w.length = 2 ∧ Marked cs := by
  have hplace : w.length % 3 = 2 := by
    refine (h w.length sep ?_).1 hsep
    rw [List.getElem?_append_right (Nat.le_refl _), Nat.sub_self]
    rfl
  have htwo : w.length = 2 := by
    have := h.length_le_two hw
    omega
  refine ⟨htwo, fun i c hc ↦ ?_⟩
  rw [h (i + 3) c ?_, Nat.add_mod_right]
  rw [List.getElem?_append_right (by omega), htwo]
  exact hc

theorem Marked.cons_cons_cons {gap : Char} (ha : isSeparator a = false) (hb : isSeparator b = false)
    (hgap : isSeparator gap = true) (h : Marked cs) : Marked (a :: b :: gap :: cs) := by
  intro i c hc
  match i with
  | 0 => cases hc; simp [ha]
  | 1 => cases hc; simp [hb]
  | 2 => cases hc; simp [hgap]
  | i + 3 => rw [h i c hc, Nat.add_mod_right]

/-- In a row the marks have their places. -/
theorem Row.marked (h : Row IsMark ns cs) : Marked cs := by
  induction h with
  | last h =>
    have hplain := h.forall_mem
    cases h
    rintro (_ | _ | i) c hc
    · cases hc
      simp [(hplain _ List.mem_cons_self).2.2]
    · cases hc
      simp [(hplain _ (List.mem_cons_of_mem _ List.mem_cons_self)).2.2]
    · cases hc
  | next h hgap _ ih =>
    obtain ⟨sep, rfl, hsep⟩ := hgap.exists_eq
    have hplain := h.forall_mem
    cases h
    exact .cons_cons_cons (hplain _ List.mem_cons_self).2.2
      (hplain _ (List.mem_cons_of_mem _ List.mem_cons_self)).2.2 hsep ih

theorem Row.plus_notMem {between : List Char → Prop} (h : Row between ns cs)
    (hgap : ∀ gap, between gap → '+' ∉ gap) : '+' ∉ cs := by
  have hpair {n : Nat} {w : List Char} (h : IsHexPair n w) : '+' ∉ w := by
    obtain ⟨hn, ha, hb⟩ := h
    rw [List.mem_cons, List.mem_singleton, not_or]
    exact ⟨(plain_of_isHexDigit (by omega) ha).2.symm, (plain_of_isHexDigit (by omega) hb).2.symm⟩
  induction h with
  | last h => exact hpair h
  | next h hbetween _ ih =>
    rw [List.mem_append, List.mem_append, not_or, not_or]
    exact ⟨hpair h, hgap _ hbetween, ih⟩

/-- Octets that stand where the marks let them are in a row, if they fill their places. -/
theorem Parted.row (h : Parted k ns cs) (hplus : '+' ∉ cs) (hmarked : Marked cs)
    (hmod : cs.length % 3 = 2) (hle : cs.length + 1 ≤ 3 * k) : Row IsMark ns cs := by
  have hmark {sep : Char} (hsep : isSeparator sep = true) : IsMark [sep] := by
    rw [isSeparator, Bool.or_eq_true, beq_iff_eq, beq_iff_eq] at hsep
    exact hsep.imp (congrArg ([·])) (congrArg ([·]))
  induction h with
  | @last k n w h =>
    have htwo : w.length = 2 := by
      rw [← List.append_nil w] at hmarked
      have := hmarked.length_le_two h.isSeparator_eq_false
      omega
    exact .last (h.isHexPair htwo hplus)
  | @full n w rest sep h hsep =>
    -- after the last octet there is no place left
    obtain ⟨htwo, -⟩ := hmarked.of_append hsep h.isSeparator_eq_false
    simp only [List.length_append, List.length_cons, htwo] at hle
    omega
  | @next k n ns w cs sep h hsep _ ih =>
    obtain ⟨htwo, hmarked⟩ := hmarked.of_append hsep h.isSeparator_eq_false
    simp only [List.length_append, List.length_cons, htwo] at hmod hle
    rw [List.mem_append, List.mem_cons, not_or, not_or] at hplus
    exact .next (h.isHexPair htwo hplus.1) (hmark hsep)
      (ih hplus.2.2 hmarked (by omega) (by omega))

theorem Paired.row (h : Paired ns cs) (hplus : '+' ∉ cs) (hne : ns ≠ []) : Row (· = []) ns cs := by
  induction h with
  | nil => exact absurd rfl hne
  | @cons n ns a b cs h hrest ih =>
    have hab : '+' ∉ [a, b] := fun hmem ↦ hplus (List.mem_append_left cs hmem)
    have hpair : IsHexPair n [a, b] := h.isHexPair rfl hab
    cases ns with
    | nil => cases hrest; exact .last hpair
    | cons n' ns =>
      have hrow := ih (fun hmem ↦ hplus (List.mem_append_right [a, b] hmem)) (List.cons_ne_nil _ _)
      change Row (· = []) (n :: n' :: ns) ([a, b] ++ ([] ++ cs))
      exact .next hpair rfl hrow

/-- A readable text spells what is read from it exactly if it is neat. -/
theorem spelling_iff :
    m.Spelling s ↔ m.Readable (trimChars s.toList) ∧ Neat (trimChars s.toList) := by
  constructor
  · intro h
    refine ⟨parse?_eq_some_iff.1 (parse?_of_spelling h), ?_⟩
    obtain ⟨front, body, back, hs, hfront, hback, hbody⟩ := h
    rw [hs, trimChars_surrounded hfront (exists_parts hbody).1 hback]
    rcases hbody with hrow | hrow
    · refine ⟨hrow.plus_notMem ?_, fun _ ↦ hrow.marked⟩
      rintro gap (rfl | rfl) <;> decide
    · refine ⟨hrow.plus_notMem ?_, fun hlength ↦ ?_⟩
      · rintro gap rfl
        exact List.not_mem_nil
      · have := hrow.pairs_of_bare.1
        rw [m.length_eq] at this
        omega
  · rintro ⟨hreadable, hplus, hmarked⟩
    obtain ⟨front, back, hs, hfront, hback⟩ := exists_trimChars s.toList
    refine ⟨front, _, back, hs, hfront, hback, ?_⟩
    rcases hreadable with @⟨ns, hlength, -, hparts, hoctets⟩ | ⟨hlength, hpairs⟩
    · have hrow := hparts.row hplus (hmarked hlength) (by omega) (by omega)
      -- seventeen characters in a row are six octets, so none is missing
      have hsix : ns.length = 6 := by
        have := hrow.pieces_of_isMark.1
        omega
      rw [hsix, Nat.sub_self, List.replicate_zero, List.append_nil] at hoctets
      exact .inl (hoctets ▸ hrow)
    · refine .inr (hpairs.row hplus fun hnil ↦ ?_)
      have := m.length_eq
      rw [hnil] at this
      cases this

end Mac

end Switchyard
