import Switchyard.Proofs.Device.Spelling

/-!
# Hexadecimal numerals

A hexadecimal numeral is one digit or more, in either case and with any number of zeros in front. An
unsigned number is read from exactly these, with or without a plus sign, as long as its value fits.

## Main definitions

* `Text.IsHex` : the numerals and their values.

## Main results

* `Text.digits?_eq_some_iff` : digits are read from the numerals and from nothing else.
* `Text.unsigned?_eq_some_iff` : unsigned numbers may have a plus sign and have to fit.
-/

namespace Switchyard.Text

variable {base bound d k n : Nat} {c : Char} {w : List Char}

/-! ### Digits -/

/-- Every hexadecimal digit is upper-case or lower-case. -/
theorem digitIn_eq_some_iff : digitIn 16 c = some d ↔ d < 16 ∧ IsHexDigit d c := by
  refine ⟨fun h ↦ ?_, fun ⟨hd, hc⟩ ↦ digitIn_of_isHexDigit hd hc⟩
  obtain ⟨hvalue, hlt⟩ := Option.filter_eq_some_iff.1 h
  have hd : d < 16 := of_decide_eq_true hlt
  refine ⟨hd, ?_⟩
  have hsmall : ∀ d < 16, 10 ≤ d → IsHexDigit d (Char.ofNat (87 + d)) := by decide
  unfold digitValue at hvalue
  split_ifs at hvalue with hdigit hlower hupper
  · have hlow : 48 ≤ c.toNat := UInt32.le_iff_toNat_le.1 hdigit.1
    have hhigh : c.toNat ≤ 57 := UInt32.le_iff_toNat_le.1 hdigit.2
    have heq : c.toNat - 48 = d := Option.some.inj hvalue
    have hcode : 48 + d = c.toNat := by omega
    exact .inl <| by rw [hexDigit, if_pos (by omega)]; exact (hcode ▸ Char.ofNat_toNat c).symm
  · have hlow : 97 ≤ c.toNat := UInt32.le_iff_toNat_le.1 hlower.1
    have heq : c.toNat - 97 + 10 = d := Option.some.inj hvalue
    have hcode : 87 + d = c.toNat := by omega
    have hc := hsmall d hd (by omega)
    rwa [hcode, Char.ofNat_toNat] at hc
  · have hlow : 65 ≤ c.toNat := UInt32.le_iff_toNat_le.1 hupper.1
    have heq : c.toNat - 65 + 10 = d := Option.some.inj hvalue
    have hcode : 65 + d - 10 = c.toNat := by omega
    exact .inl <| by rw [hexDigit, if_neg (by omega)]; exact (hcode ▸ Char.ofNat_toNat c).symm

/-! ### Numerals -/

/-- The hexadecimal numerals and their values. -/
inductive IsHex : Nat → List Char → Prop
  | digit {d : Nat} {c : Char} (hd : d < 16) (hc : IsHexDigit d c) : IsHex d [c]
  | snoc {n d : Nat} {w : List Char} {c : Char} (hw : IsHex n w) (hd : d < 16)
      (hc : IsHexDigit d c) : IsHex (n * 16 + d) (w ++ [c])

theorem IsHex.ne_nil (h : IsHex n w) : w ≠ [] := by
  cases h <;> simp

theorem IsHex.forall_mem (h : IsHex n w) : ∀ c ∈ w, IsPlain c ∧ c ≠ '+' := by
  induction h with
  | digit hd hc => exact List.forall_mem_singleton.2 (plain_of_isHexDigit hd hc)
  | snoc _ hd hc ih =>
    exact List.forall_mem_append.2 ⟨ih, List.forall_mem_singleton.2 (plain_of_isHexDigit hd hc)⟩

theorem digitsFrom_concat (base k : Nat) (w : List Char) (c : Char) :
    digitsFrom base k (w ++ [c]) =
      (digitsFrom base k w).bind fun n ↦ (digitIn base c).map (n * base + ·) := by
  induction w generalizing k with
  | nil =>
    simp only [List.nil_append, digitsFrom, Option.bind_some, Option.map_eq_bind,
      Function.comp_def]
  | cons b w ih => simp only [List.cons_append, digitsFrom, ih, Option.bind_assoc]

theorem digits?_of_ne_nil (h : w ≠ []) : digits? base w = digitsFrom base 0 w := by
  cases w with
  | nil => exact absurd rfl h
  | cons => rfl

/-- Digits are read from the numerals and from nothing else. -/
theorem digits?_eq_some_iff : digits? 16 w = some n ↔ IsHex n w := by
  constructor
  · intro h
    induction w using List.reverseRecOn generalizing n with
    | nil => cases h
    | append_singleton w c ih =>
      rw [digits?_of_ne_nil (by simp), digitsFrom_concat] at h
      obtain ⟨m, hm, hlast⟩ := Option.bind_eq_some_iff.1 h
      obtain ⟨d, hdigit, rfl⟩ := Option.map_eq_some_iff.1 hlast
      obtain ⟨hd, hc⟩ := digitIn_eq_some_iff.1 hdigit
      by_cases hw : w = []
      · subst hw
        obtain rfl := Option.some.inj hm
        rw [Nat.zero_mul, Nat.zero_add]
        exact .digit hd hc
      · exact .snoc (ih (by rwa [digits?_of_ne_nil hw])) hd hc
  · intro h
    induction h with
    | digit hd hc =>
      simp only [digits?, digitsFrom, digitIn_of_isHexDigit hd hc, Option.bind_some, Nat.zero_mul,
        Nat.zero_add]
    | snoc hw hd hc ih =>
      rw [digits?_of_ne_nil hw.ne_nil] at ih
      rw [digits?_of_ne_nil (by simp), digitsFrom_concat, ih, Option.bind_some,
        digitIn_of_isHexDigit hd hc, Option.map_some]

theorem unsigned?_plus (base bound : Nat) (v : List Char) :
    unsigned? base bound ('+' :: v) = (digits? base v).filter (· < bound) := rfl

theorem unsigned?_of_ne_plus (h : ∀ v, w ≠ '+' :: v) :
    unsigned? base bound w = (digits? base w).filter (· < bound) := by
  rw [unsigned?]
  exact h

/-- An unsigned number is a numeral with or without a plus sign, and it has to fit. -/
theorem unsigned?_eq_some_iff : unsigned? 16 bound w = some n ↔
    n < bound ∧ (IsHex n w ∨ ∃ v, w = '+' :: v ∧ IsHex n v) := by
  by_cases hplus : ∃ v, w = '+' :: v
  · obtain ⟨v, rfl⟩ := hplus
    -- a numeral has no sign
    have hnone : ¬IsHex n ('+' :: v) := fun h ↦ (h.forall_mem '+' List.mem_cons_self).2 rfl
    rw [unsigned?_plus, Option.filter_eq_some_iff, digits?_eq_some_iff, decide_eq_true_iff,
      and_comm]
    simp [hnone]
  · have hno : ∀ v, w ≠ '+' :: v := not_exists.1 hplus
    rw [unsigned?_of_ne_plus hno, Option.filter_eq_some_iff, digits?_eq_some_iff,
      decide_eq_true_iff, and_comm]
    simp [hno]

end Switchyard.Text
