import Mathlib.Data.String.Basic
import Switchyard.Text.Digits

/-!
# Numbers of a fixed width

A number that is written with zeros in front consists of digits, has the number as its value, and
has the width asked for if the number has no more digits than that. Texts of digits of one length
compare as their values do, so texts that are put together from fields of fixed width compare field
by field.

## Main results

* `Text.ofDigitChars_padded`, `Text.length_padded` : value and width.
* `Text.lt_of_padded_append_lt` : texts that begin with numbers of one width.
-/

namespace Switchyard.Text

variable {width m n : Nat} {as bs xs ys : List Char}

/-! ### One number -/

theorem toNat_of_isDigit {c : Char} (h : c.isDigit = true) : 48 ≤ c.toNat ∧ c.toNat ≤ 57 := by
  rw [Char.isDigit, Bool.and_eq_true, decide_eq_true_iff, decide_eq_true_iff] at h
  exact h

theorem digitIn_of_isDigit {c : Char} (h : c.isDigit = true) :
    digitIn 10 c = some (c.toNat - '0'.toNat) := by
  obtain ⟨hlow, hhigh⟩ := toNat_of_isDigit h
  have hrange : '0' ≤ c ∧ c ≤ '9' := ⟨hlow, hhigh⟩
  have hlt : c.toNat - '0'.toNat < 10 := by
    change c.toNat - 48 < 10
    omega
  rw [digitIn, digitValue, if_pos hrange, Option.filter_some_pos]
  exact decide_eq_true hlt

theorem toList_padded (width n : Nat) : (padded width n).toList =
    List.replicate (width - (Nat.toDigits 10 n).length) '0' ++ Nat.toDigits 10 n :=
  String.toList_ofList

theorem isDigit_of_mem_padded {c : Char} (h : c ∈ (padded width n).toList) :
    c.isDigit = true := by
  rw [toList_padded, List.mem_append] at h
  rcases h with h | h
  · rw [List.eq_of_mem_replicate h]
    rfl
  · exact Nat.isDigit_of_mem_toDigits (by decide) (by decide) h

/-- The zeros in front do not change the value. -/
@[simp] theorem ofDigitChars_padded (width n : Nat) :
    Nat.ofDigitChars 10 (padded width n).toList 0 = n := by
  rw [toList_padded, Nat.ofDigitChars_append, Nat.ofDigitChars_replicate_zero, Nat.mul_zero,
    Nat.ofDigitChars_ten_toDigits]

theorem le_length_padded (width n : Nat) : width ≤ (padded width n).toList.length := by
  rw [toList_padded, List.length_append, List.length_replicate]
  omega

theorem length_padded_le {k : Nat} (hk : 0 < k) (hwidth : width ≤ k) (h : n < 10 ^ k) :
    (padded width n).toList.length ≤ k := by
  have hle : (Nat.toDigits 10 n).length ≤ k := (Nat.length_toDigits_le_iff (by decide) hk).2 h
  rw [toList_padded, List.length_append, List.length_replicate]
  omega

/-- A number that is not too long has the width asked for. -/
theorem length_padded (hwidth : 0 < width) (h : n < 10 ^ width) :
    (padded width n).toList.length = width :=
  Nat.le_antisymm (length_padded_le hwidth (Nat.le_refl _) h) (le_length_padded width n)

/-! ### The order of texts -/

/-- Beginnings of one length decide unless they are equal. -/
theorem lt_of_append_lt (hlength : as.length = bs.length) (h : as ++ xs < bs ++ ys) :
    as < bs ∨ as = bs ∧ xs < ys := by
  induction as generalizing bs with
  | nil =>
    obtain rfl := List.length_eq_zero_iff.1 hlength.symm
    exact .inr ⟨rfl, h⟩
  | cons a as ih =>
    cases bs with
    | nil => cases hlength
    | cons b bs =>
      rw [List.cons_append, List.cons_append, List.cons_lt_cons_iff] at h
      rcases h with hab | ⟨rfl, h⟩
      · exact .inl (List.cons_lt_cons_iff.2 (.inl hab))
      · rcases ih (Nat.succ.inj hlength) h with hlt | ⟨rfl, hlt⟩
        · exact .inl (List.cons_lt_cons_iff.2 (.inr ⟨rfl, hlt⟩))
        · exact .inr ⟨rfl, hlt⟩

/-- A list of digits has a value below the power of ten for its length. -/
theorem ofDigitChars_lt_pow (has : ∀ c ∈ as, c.isDigit = true) :
    Nat.ofDigitChars 10 as 0 < 10 ^ as.length := by
  induction as with
  | nil => decide
  | cons a as ih =>
    obtain ⟨ha, has⟩ := List.forall_mem_cons.1 has
    have hdigit : a.toNat - '0'.toNat < 10 := by
      have := toNat_of_isDigit ha
      change a.toNat - 48 < 10
      omega
    have htail := ih has
    rw [Nat.ofDigitChars_cons, Nat.mul_zero, Nat.zero_add,
      Nat.ofDigitChars_eq_ofDigitChars_zero, List.length_cons, Nat.pow_succ]
    have hhead : 10 ^ as.length * (a.toNat - '0'.toNat) ≤ 10 ^ as.length * 9 :=
      Nat.mul_le_mul_left _ (by omega)
    omega

/-- Digits that come first have the smaller value, if there are equally many. -/
theorem ofDigitChars_lt_of_lt (has : ∀ c ∈ as, c.isDigit = true) (hbs : ∀ c ∈ bs, c.isDigit = true)
    (hlength : as.length = bs.length) (h : as < bs) :
    Nat.ofDigitChars 10 as 0 < Nat.ofDigitChars 10 bs 0 := by
  induction as generalizing bs with
  | nil =>
    obtain rfl := List.length_eq_zero_iff.1 hlength.symm
    cases h
  | cons a as ih =>
    cases bs with
    | nil => cases hlength
    | cons b bs =>
      obtain ⟨ha, has'⟩ := List.forall_mem_cons.1 has
      obtain ⟨hb, hbs'⟩ := List.forall_mem_cons.1 hbs
      have hlength' : as.length = bs.length := Nat.succ.inj hlength
      simp only [Nat.ofDigitChars_cons, Nat.mul_zero, Nat.zero_add]
      rw [Nat.ofDigitChars_eq_ofDigitChars_zero (l := as),
        Nat.ofDigitChars_eq_ofDigitChars_zero (l := bs), hlength']
      rcases List.cons_lt_cons_iff.1 h with hab | ⟨rfl, htail⟩
      · -- the first digits differ by at least one, which outweighs all that follow
        have htail := ofDigitChars_lt_pow has'
        have hdigits : a.toNat - '0'.toNat + 1 ≤ b.toNat - '0'.toNat := by
          have hlow := toNat_of_isDigit ha
          have hlt : a.toNat < b.toNat := hab
          change a.toNat - 48 + 1 ≤ b.toNat - 48
          omega
        have hscaled := Nat.mul_le_mul_left (10 ^ bs.length) hdigits
        rw [hlength'] at htail
        rw [Nat.mul_add, Nat.mul_one] at hscaled
        omega
      · have hvalue := ih has' hbs' hlength' htail
        omega

/-- Of texts that begin with numbers of one width, the one with the smaller number comes first. -/
theorem lt_of_padded_append_lt (hwidth : 0 < width) (hm : m < 10 ^ width) (hn : n < 10 ^ width)
    (h : (padded width m).toList ++ xs < (padded width n).toList ++ ys) :
    m < n ∨ m = n ∧ xs < ys := by
  have hlength : (padded width m).toList.length = (padded width n).toList.length := by
    rw [length_padded hwidth hm, length_padded hwidth hn]
  rcases lt_of_append_lt hlength h with hlt | ⟨heq, hlt⟩
  · have hvalue := ofDigitChars_lt_of_lt (fun c ↦ isDigit_of_mem_padded) (fun c ↦ isDigit_of_mem_padded)
      hlength hlt
    rw [ofDigitChars_padded, ofDigitChars_padded] at hvalue
    exact .inl hvalue
  · have hvalue := congrArg (Nat.ofDigitChars 10 · 0) heq
    simp only [ofDigitChars_padded] at hvalue
    exact .inr ⟨hvalue, hlt⟩

end Switchyard.Text
