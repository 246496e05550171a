import Mathlib.Data.List.Forall2
import Switchyard.Device.Mac
import Switchyard.Proofs.Text.Trimming

/-!
# Spellings of an address

Each octet of an address is written with two hexadecimal digits, in either case. Between the octets
stand colons or dashes, or nothing at all, and there may be blanks around the whole. Every such text
is read as the address that it spells, whatever the case and the marks are.

## Main definitions

* `Text.IsHexPair` : two digits of a byte.
* `Mac.Row` : octets one after the other.
* `Mac.Spelling` : the texts that spell an address.

## Main results

* `Mac.parse?_of_spelling` : a spelling is read as the address that it spells.
* `Mac.spelling_text` : the canonical text is a spelling.
-/

namespace Switchyard

/-! ### Digits -/

namespace Text

/-- An upper-case hexadecimal digit. -/
def hexDigit (d : Nat) : Char := Char.ofNat (if d < 10 then '0'.toNat + d else 'A'.toNat + d - 10)

theorem hexByte_eq (n : Nat) : hexByte n = [hexDigit (n / 16 % 16), hexDigit (n % 16)] := rfl

theorem digitIn_hexDigit : ∀ d < 16, digitIn 16 (hexDigit d) = some d := by decide

theorem digitIn_toLower_hexDigit : ∀ d < 16, digitIn 16 (hexDigit d).toLower = some d := by decide

/-- The hexadecimal digit of a value, in either case. -/
def IsHexDigit (d : Nat) (c : Char) : Prop := c = hexDigit d ∨ c = (hexDigit d).toLower

instance (d : Nat) (c : Char) : Decidable (IsHexDigit d c) :=
  inferInstanceAs (Decidable (c = hexDigit d ∨ c = (hexDigit d).toLower))

/-- The two hexadecimal digits of a byte, in either case. -/
inductive IsHexPair : Nat → List Char → Prop
  | mk {n : Nat} {a b : Char} (hn : n < 256) (ha : IsHexDigit (n / 16) a)
      (hb : IsHexDigit (n % 16) b) : IsHexPair n [a, b]

/-- An ASCII character that is no blank and separates nothing. -/
def IsPlain (c : Char) : Prop := c.toNat < 128 ∧ isBlank c = false ∧ Mac.isSeparator c = false

instance : DecidablePred IsPlain := fun c ↦
  inferInstanceAs (Decidable (c.toNat < 128 ∧ isBlank c = false ∧ Mac.isSeparator c = false))

variable {d n : Nat} {c : Char} {w : List Char} {ns : List Nat} {ws : List (List Char)}

theorem digitIn_of_isHexDigit (hd : d < 16) (h : IsHexDigit d c) : digitIn 16 c = some d := by
  rcases h with rfl | rfl
  · exact digitIn_hexDigit d hd
  · exact digitIn_toLower_hexDigit d hd

/-- A digit is plain, and no sign. -/
theorem plain_of_isHexDigit (hd : d < 16) (h : IsHexDigit d c) : IsPlain c ∧ c ≠ '+' := by
  have hupper : ∀ d < 16, IsPlain (hexDigit d) ∧ hexDigit d ≠ '+' := by decide
  have hlower : ∀ d < 16, IsPlain (hexDigit d).toLower ∧ (hexDigit d).toLower ≠ '+' := by decide
  rcases h with rfl | rfl
  · exact hupper d hd
  · exact hlower d hd

theorem IsHexPair.forall_mem (h : IsHexPair n w) : ∀ c ∈ w, IsPlain c := by
  obtain ⟨hn, ha, hb⟩ := h
  rw [List.forall_mem_cons, List.forall_mem_singleton]
  exact ⟨(plain_of_isHexDigit (by omega) ha).1, (plain_of_isHexDigit (by omega) hb).1⟩

/-- The digits of a byte are read as the byte. -/
theorem IsHexPair.unsigned? (h : IsHexPair n w) : unsigned? 16 256 w = some n := by
  obtain ⟨hn, ha, hb⟩ := h
  rename_i a b
  have hhigh := digitIn_of_isHexDigit (by omega) ha
  have hlow := digitIn_of_isHexDigit (Nat.mod_lt _ (by decide)) hb
  have hvalue : n / 16 * 16 + n % 16 = n := by omega
  rw [Text.unsigned?]
  · simp only [digits?, digitsFrom, hhigh, hlow, Option.bind_some, Nat.zero_mul, Nat.zero_add,
      hvalue]
    exact Option.filter_some_pos (decide_eq_true hn)
  · rintro rest heq
    exact (plain_of_isHexDigit (by omega) ha).2 (List.cons.inj heq).1

theorem isHexPair_hexByte (h : n < 256) : IsHexPair n (hexByte n) := by
  rw [hexByte_eq, Nat.mod_eq_of_lt (show n / 16 < 16 by omega)]
  exact .mk h (.inl rfl) (.inl rfl)

/-- The digits of bytes are read as the bytes. -/
theorem mapM_unsigned?_of_isHexPair (h : List.Forall₂ IsHexPair ns ws) :
    ws.mapM (unsigned? 16 256) = some ns := by
  induction h with
  | nil => rfl
  | cons hpair _ ih =>
    rw [List.mapM_cons, hpair.unsigned?, ih]
    rfl

end Text

/-! ### Octets in a row -/

namespace Mac

open Text

/-- Octets one after the other, with something between any two. -/
inductive Row (between : List Char → Prop) : List Nat → List Char → Prop
  | last {n : Nat} {w : List Char} (h : IsHexPair n w) : Row between [n] w
  | next {n : Nat} {w g cs : List Char} {ns : List Nat} (h : IsHexPair n w) (hgap : between g)
      (hrest : Row between ns cs) : Row between (n :: ns) (w ++ (g ++ cs))

/-- A colon or a dash. -/
def IsMark (gap : List Char) : Prop := gap = [':'] ∨ gap = ['-']

/-- The texts that spell an address: its octets with colons or dashes between them, or with nothing
between them, and perhaps with blanks around. -/
def Spelling (m : Mac) (s : String) : Prop :=
  ∃ front body back, s.toList = front ++ body ++ back ∧
    (∀ c ∈ front, isBlank c = true) ∧ (∀ c ∈ back, isBlank c = true) ∧
    (Row IsMark m.octets body ∨ Row (· = []) m.octets body)

variable {m : Mac} {s : String} {ns : List Nat} {cs : List Char}

theorem Row.forall_mem {between : List Char → Prop} {P : Char → Prop} (h : Row between ns cs)
    (hdigit : ∀ c, IsPlain c → P c) (hgap : ∀ gap, between gap → ∀ c ∈ gap, P c) :
    ∀ c ∈ cs, P c := by
  induction h with
  | last h => exact fun c hc ↦ hdigit c (h.forall_mem c hc)
  | next h hbetween _ ih =>
    rw [List.forall_mem_append, List.forall_mem_append]
    exact ⟨fun c hc ↦ hdigit c (h.forall_mem c hc), hgap _ hbetween, ih⟩

theorem IsMark.exists_eq {gap : List Char} (h : IsMark gap) :
    ∃ sep, gap = [sep] ∧ isSeparator sep = true := by
  rcases h with rfl | rfl
  · exact ⟨':', rfl, rfl⟩
  · exact ⟨'-', rfl, rfl⟩

/-- Colons are marks. -/
theorem Row.isMark (h : Row (· = [':']) ns cs) : Row IsMark ns cs := by
  induction h with
  | last h => exact .last h
  | next h hgap _ ih => exact .next h (.inl hgap) ih

/-- Octets with marks between them are cut at the marks. -/
theorem Row.pieces_of_isMark (h : Row IsMark ns cs) : cs.length + 1 = 3 * ns.length ∧
    List.Forall₂ IsHexPair ns (pieces isSeparator cs) := by
  induction h with
  | last h =>
    rw [pieces_of_forall fun c hc ↦ (h.forall_mem c hc).2.2]
    exact ⟨by cases h; rfl, .cons h .nil⟩
  | next h hgap _ ih =>
    obtain ⟨sep, rfl, hsep⟩ := hgap.exists_eq
    obtain ⟨hlength, hpieces⟩ := ih
    rw [List.singleton_append, pieces_append (fun c hc ↦ (h.forall_mem c hc).2.2) hsep]
    refine ⟨?_, .cons h hpieces⟩
    cases h
    simp only [List.length_append, List.length_cons, List.length_nil]
    omega

/-- Octets with nothing between them are cut into pairs. -/
theorem Row.pairs_of_bare (h : Row (· = []) ns cs) : cs.length = 2 * ns.length ∧
    List.Forall₂ IsHexPair ns (pairs cs) := by
  induction h with
  | last h => cases h with | mk hn ha hb => exact ⟨rfl, .cons (.mk hn ha hb) .nil⟩
  | next h hgap _ ih =>
    obtain ⟨hlength, hpairs⟩ := ih
    subst hgap
    cases h with
    | mk hn ha hb =>
      refine ⟨?_, .cons (.mk hn ha hb) hpairs⟩
      simp only [List.nil_append, List.length_append, List.length_cons, List.length_nil]
      omega

/-! ### Reading -/

theorem ofParts_octets (m : Mac) : ofParts m.octets = m := by
  obtain ⟨ns, hns⟩ := m
  simp only [ofParts, mk.injEq]
  rw [List.take_append_of_le_length (Nat.le_of_eq hns.symm), List.take_of_length_le (Nat.le_of_eq hns)]

theorem isZero_iff : m.isZero = true ↔ m.octets = List.replicate 6 0 := by
  rw [isZero, List.all_eq_true, List.eq_replicate_iff]
  simp [m.length_eq]

/-- What a spelling has between its blanks is cut into the digits of the octets. -/
theorem exists_parts (h : Row IsMark m.octets cs ∨ Row (· = []) m.octets cs) :
    (∀ c ∈ cs, isBlank c = false) ∧ ∃ ws, parts cs = some ws ∧ List.Forall₂ IsHexPair m.octets ws := by
  have hchars : ∀ c ∈ cs, c.toNat < 128 ∧ isBlank c = false := by
    have hplain (c : Char) (hc : IsPlain c) : c.toNat < 128 ∧ isBlank c = false := ⟨hc.1, hc.2.1⟩
    rcases h with h | h
    · refine h.forall_mem hplain fun gap hgap ↦ ?_
      rcases hgap with rfl | rfl <;> exact List.forall_mem_singleton.2 (by decide)
    · refine h.forall_mem hplain fun gap hgap ↦ ?_
      subst hgap
      exact fun c hc ↦ absurd hc List.not_mem_nil
  have hascii : cs.all (fun c ↦ c.toNat < 128) = true :=
    List.all_eq_true.2 fun c hc ↦ decide_eq_true (hchars c hc).1
  refine ⟨fun c hc ↦ (hchars c hc).2, ?_⟩
  rcases h with h | h
  · obtain ⟨hlength, hpieces⟩ := h.pieces_of_isMark
    have htake : (pieces isSeparator cs).take 6 = pieces isSeparator cs :=
      List.take_of_length_le (by rw [← hpieces.length_eq, m.length_eq])
    refine ⟨_, ?_, hpieces⟩
    rw [parts, if_neg (not_not.2 hascii), if_pos (by rw [m.length_eq] at hlength; omega), htake]
  · obtain ⟨hlength, hpairs⟩ := h.pairs_of_bare
    rw [m.length_eq] at hlength
    refine ⟨_, ?_, hpairs⟩
    rw [parts, if_neg (not_not.2 hascii), if_neg (by omega), if_pos hlength]

/-- What a spelling has between its blanks is read as the address. -/
theorem ofChars?_of_row (h : Row IsMark m.octets cs ∨ Row (· = []) m.octets cs) :
    ofChars? cs = some m := by
  obtain ⟨-, ws, hws, hpairs⟩ := exists_parts h
  rw [ofChars?, hws]
  change (ws.mapM (Text.unsigned? 16 256)).bind (fun ns ↦ some (ofParts ns)) = some m
  rw [mapM_unsigned?_of_isHexPair hpairs, Option.bind_some, ofParts_octets]

/-- A spelling is read as the address that it spells. -/
theorem parse?_of_spelling (h : m.Spelling s) : parse? s = some m := by
  obtain ⟨front, body, back, hs, hfront, hback, hbody⟩ := h
  rw [parse?, hs, trimChars_surrounded hfront (exists_parts hbody).1 hback, ofChars?_of_row hbody]

/-! ### The canonical text -/

theorem toList_text (m : Mac) : m.text.toList = ['-'].intercalate (m.octets.map hexByte) := by
  rw [text, join, String.toList_intercalate, List.map_map]
  simp only [Function.comp_def, String.toList_ofList]
  rfl

theorem row_intercalate (hne : ns ≠ []) (h : ∀ n ∈ ns, n < 256) :
    Row IsMark ns (['-'].intercalate (ns.map hexByte)) := by
  induction ns with
  | nil => exact absurd rfl hne
  | cons n ns ih =>
    obtain ⟨hn, hns⟩ := List.forall_mem_cons.1 h
    cases ns with
    | nil => exact .last (isHexPair_hexByte hn)
    | cons n' ns =>
      rw [List.map_cons, List.map_cons, List.intercalate_cons_cons, List.append_assoc]
      exact .next (isHexPair_hexByte hn) (.inr rfl) (ih (List.cons_ne_nil _ _) hns)

/-- The canonical text is a spelling. -/
theorem spelling_text (h : ∀ n ∈ m.octets, n < 256) : m.Spelling m.text := by
  have hne : m.octets ≠ [] := by
    intro hnil
    have hlength := m.length_eq
    rw [hnil] at hlength
    cases hlength
  refine ⟨[], m.text.toList, [], by simp, by simp, by simp, .inl ?_⟩
  rw [toList_text]
  exact row_intercalate hne h

end Mac

end Switchyard
