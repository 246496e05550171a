import Mathlib.Data.String.Basic

/-!
# The order of texts by their bytes

Texts are compared character by character. Their UTF-8 bytes compare in the same way: the bytes of
a smaller character are smaller at the first place where they differ, and they always differ
before either of them ends. So a table that is sorted by its texts is sorted by their bytes.

## Main definitions

* `Text.bytes` : the UTF-8 bytes of a text.

## Main results

* `Text.utf8EncodeChar_append_lt` : the bytes of a smaller character come first.
* `Text.bytes_lt_bytes_iff` : texts compare as their bytes.
-/

namespace Switchyard.Text

/-- The UTF-8 bytes of a text. -/
def bytes (s : String) : List UInt8 := s.toUTF8.data.toList

theorem bytes_eq_flatMap (s : String) : bytes s = s.toList.flatMap String.utf8EncodeChar := by
  have hchars := congrArg String.toByteArray (String.ofList_toList (s := s))
  rw [String.toByteArray_ofList, List.utf8Encode] at hchars
  rw [bytes, String.toUTF8_eq_toByteArray, ← hchars, List.data_toByteArray]

/-- No character has more than four bytes. -/
theorem utf8ByteSize_le (s : String) : s.utf8ByteSize ≤ 4 * s.toList.length := by
  have hlength (cs : List Char) : (cs.flatMap String.utf8EncodeChar).length ≤ 4 * cs.length := by
    induction cs with
    | nil => simp
    | cons c cs ih =>
      have hc := c.utf8Size_le_four
      rw [List.flatMap_cons, List.length_append, String.length_utf8EncodeChar, List.length_cons]
      omega
  have hbytes : s.utf8ByteSize = (bytes s).length := rfl
  rw [hbytes, bytes_eq_flatMap]
  exact hlength s.toList

/-! ### One character -/

variable {a b : Nat} {xs ys : List UInt8}

/-- Numbers that fit in a byte compare as bytes; where they are equal the rest decides. -/
private theorem ofNat_cons_lt (hb : b < 256) (hle : a ≤ b) (h : a = b → xs < ys) :
    UInt8.ofNat a :: xs < UInt8.ofNat b :: ys := by
  rw [List.cons_lt_cons_iff, UInt8.lt_iff_toNat_lt, UInt8.toNat_ofNat', UInt8.toNat_ofNat',
    Nat.mod_eq_of_lt (Nat.lt_of_le_of_lt hle hb), Nat.mod_eq_of_lt hb]
  rcases Nat.lt_or_eq_of_le hle with hlt | heq
  · exact Or.inl hlt
  · exact Or.inr ⟨by rw [heq], h heq⟩

private theorem ofNat_cons_lt_of_lt (hb : b < 256) (h : a < b) (xs ys : List UInt8) :
    UInt8.ofNat a :: xs < UInt8.ofNat b :: ys :=
  ofNat_cons_lt hb (Nat.le_of_lt h) fun heq ↦ absurd heq (Nat.ne_of_lt h)

theorem toNat_val_le (c : Char) : c.val.toNat ≤ 1114111 := by
  rcases c.valid with h | ⟨-, h⟩
  · exact Nat.le_of_lt (Nat.lt_of_lt_of_le h (by decide))
  · exact Nat.le_of_lt_succ h

/-- The bytes of a smaller character come first, whatever follows. A longer encoding begins with a
greater byte, and in encodings of one length the digits in base 64 decide from the left. -/
theorem utf8EncodeChar_append_lt {c d : Char} (h : c < d) (xs ys : List UInt8) :
    String.utf8EncodeChar c ++ xs < String.utf8EncodeChar d ++ ys := by
  have hlt : c.val.toNat < d.val.toNat := h
  have hmax := toNat_val_le d
  simp only [String.utf8EncodeChar]
  generalize c.val.toNat = v at hlt
  generalize d.val.toNat = w at hlt hmax
  split_ifs
  -- a longer encoding of the smaller character is impossible
  all_goals try omega
  -- encodings of different lengths, or of length one, differ in the first byte
  all_goals try exact ofNat_cons_lt_of_lt (by omega) (by omega) _ _
  · refine ofNat_cons_lt (by omega) (by omega) fun _ ↦ ?_
    exact ofNat_cons_lt_of_lt (by omega) (by omega) _ _
  · refine ofNat_cons_lt (by omega) (by omega) fun _ ↦ ?_
    refine ofNat_cons_lt (by omega) (by omega) fun _ ↦ ?_
    exact ofNat_cons_lt_of_lt (by omega) (by omega) _ _
  · refine ofNat_cons_lt (by omega) (by omega) fun _ ↦ ?_
    refine ofNat_cons_lt (by omega) (by omega) fun _ ↦ ?_
    refine ofNat_cons_lt (by omega) (by omega) fun _ ↦ ?_
    exact ofNat_cons_lt_of_lt (by omega) (by omega) _ _

/-! ### Whole texts -/

theorem flatMap_utf8EncodeChar_lt {cs ds : List Char} (h : cs < ds) :
    cs.flatMap String.utf8EncodeChar < ds.flatMap String.utf8EncodeChar := by
  induction h with
  | @nil d ds =>
    obtain ⟨b, bs, hb⟩ := List.exists_cons_of_ne_nil (String.utf8EncodeChar_ne_nil (c := d))
    rw [List.flatMap_nil, List.flatMap_cons, hb]
    exact List.nil_lt_cons _ _
  | rel hlt => exact utf8EncodeChar_append_lt hlt _ _
  | cons _ ih => exact List.append_left_lt ih

/-- Texts compare as their bytes. -/
theorem bytes_lt_bytes_iff {s t : String} : bytes s < bytes t ↔ s < t := by
  have hmono {s t : String} (h : s < t) : bytes s < bytes t := by
    rw [bytes_eq_flatMap, bytes_eq_flatMap]
    exact flatMap_utf8EncodeChar_lt h
  refine ⟨fun h ↦ ?_, hmono⟩
  rcases lt_trichotomy s t with hlt | rfl | hgt
  · exact hlt
  · exact absurd h (List.lt_irrefl _)
  · exact absurd h (List.lt_asymm (hmono hgt))

end Switchyard.Text
