import Switchyard.Proofs.Text.ByteOrder
import Switchyard.Text.Utf8

/-!
# Decoding what was encoded

The bytes of a character stand at the front of any bytes that begin with them, whatever follows. So
the bytes of a text are decoded to the text.

## Main results

* `Utf8.decodeFrom_utf8EncodeChar` : one character.
* `Utf8.decodeLossy_encode` : a whole text.
-/

namespace Switchyard.Text.Utf8

/-- A number below 256 as a byte. -/
private theorem toNat_byte {n : Nat} (h : n < 256) : (UInt8.ofNat n).toNat = n := by
  rw [UInt8.toNat_ofNat', Nat.mod_eq_of_lt h]

/-- The payload of a continuation byte is what was put into it. -/
private theorem low6_byte {n : Nat} (h : n < 64) : low6 (.ofNat (n + 128)) = n := by
  rw [low6, toNat_byte (by omega)]
  omega

/-- A byte that carries six bits continues a character. -/
private theorem continues_byte {lo hi n : Nat} (h : n < 64) (hlo : lo ≤ n + 128)
    (hhi : n + 128 ≤ hi) : continues lo hi (.ofNat (n + 128)) = true := by
  rw [continues, toNat_byte (by omega), Bool.and_eq_true, decide_eq_true_iff, decide_eq_true_iff]
  exact ⟨hlo, hhi⟩

variable {v : Nat}

private theorem front_one (h : v ≤ 127) (rest : List UInt8) :
    front (.ofNat v) rest = .character (Char.ofNat v) 0 := by
  simp only [front, toNat_byte (show v < 256 by omega)]
  rw [if_pos (by omega)]

private theorem front_two (hlow : 127 < v) (hhigh : v ≤ 2047) (rest : List UInt8) :
    front (.ofNat (v / 64 % 32 + 192)) (.ofNat (v % 64 + 128) :: rest) =
      .character (Char.ofNat v) 1 := by
  have hnext : continues 0x80 0xBF (.ofNat (v % 64 + 128)) = true :=
    continues_byte (by omega) (by omega) (by omega)
  have hvalue : (v / 64 % 32 + 192 - 0xC0) * 64 + v % 64 = v := by omega
  simp only [front, toNat_byte (show v / 64 % 32 + 192 < 256 by omega)]
  rw [if_neg (by omega), if_pos (by omega)]
  simp only [hnext, if_true, low6_byte (Nat.mod_lt v (by decide : 0 < 64)), hvalue]

private theorem front_three (hlow : 2047 < v) (hhigh : v ≤ 65535)
    (hgap : v < 0xD800 ∨ 0xDFFF < v) (rest : List UInt8) :
    front (.ofNat (v / 4096 % 16 + 224))
        (.ofNat (v / 64 % 64 + 128) :: .ofNat (v % 64 + 128) :: rest) =
      .character (Char.ofNat v) 2 := by
  have hnext : continues (if v / 4096 % 16 + 224 = 0xE0 then 0xA0 else 0x80)
      (if v / 4096 % 16 + 224 = 0xED then 0x9F else 0xBF) (.ofNat (v / 64 % 64 + 128)) = true :=
    continues_byte (by omega) (by split <;> omega) (by split <;> omega)
  have hlast : continues 0x80 0xBF (.ofNat (v % 64 + 128)) = true :=
    continues_byte (by omega) (by omega) (by omega)
  have hvalue : ((v / 4096 % 16 + 224 - 0xE0) * 64 + v / 64 % 64) * 64 + v % 64 = v := by omega
  simp only [front, toNat_byte (show v / 4096 % 16 + 224 < 256 by omega)]
  rw [if_neg (by omega), if_neg (by omega), if_pos (by omega)]
  simp only [hnext, hlast, if_true, low6_byte (Nat.mod_lt (v / 64) (by decide : 0 < 64)),
    low6_byte (Nat.mod_lt v (by decide : 0 < 64)), hvalue]

private theorem front_four (hlow : 65535 < v) (hhigh : v ≤ 1114111) (rest : List UInt8) :
    front (.ofNat (v / 262144 % 8 + 240))
        (.ofNat (v / 4096 % 64 + 128) :: .ofNat (v / 64 % 64 + 128) ::
          .ofNat (v % 64 + 128) :: rest) =
      .character (Char.ofNat v) 3 := by
  have hnext : continues (if v / 262144 % 8 + 240 = 0xF0 then 0x90 else 0x80)
      (if v / 262144 % 8 + 240 = 0xF4 then 0x8F else 0xBF) (.ofNat (v / 4096 % 64 + 128)) = true :=
    continues_byte (by omega) (by split <;> omega) (by split <;> omega)
  have hthird : continues 0x80 0xBF (.ofNat (v / 64 % 64 + 128)) = true :=
    continues_byte (by omega) (by omega) (by omega)
  have hlast : continues 0x80 0xBF (.ofNat (v % 64 + 128)) = true :=
    continues_byte (by omega) (by omega) (by omega)
  have hvalue : (((v / 262144 % 8 + 240 - 0xF0) * 64 + v / 4096 % 64) * 64 + v / 64 % 64) * 64 +
      v % 64 = v := by omega
  simp only [front, toNat_byte (show v / 262144 % 8 + 240 < 256 by omega)]
  rw [if_neg (by omega), if_neg (by omega), if_neg (by omega), if_pos (by omega)]
  simp only [hnext, hthird, hlast, if_true, low6_byte (Nat.mod_lt (v / 4096) (by decide : 0 < 64)),
    low6_byte (Nat.mod_lt (v / 64) (by decide : 0 < 64)),
    low6_byte (Nat.mod_lt v (by decide : 0 < 64)), hvalue]

/-- The bytes of a character are decoded to it, whatever follows. -/
theorem decodeFrom_utf8EncodeChar (c : Char) (rest : List UInt8) :
    decodeFrom 0 (String.utf8EncodeChar c ++ rest) = some c :: decodeFrom 0 rest := by
  have hmax := toNat_val_le c
  have hgap : c.val.toNat < 0xD800 ∨ 0xDFFF < c.val.toNat := c.valid.imp_right And.left
  have hback : Char.ofNat c.val.toNat = c := Char.ofNat_toNat c
  simp only [String.utf8EncodeChar]
  generalize c.val.toNat = v at hmax hgap hback
  -- one case for every number of bytes
  split_ifs with h₁ h₂ h₃
  · simp only [List.cons_append, List.nil_append, decodeFrom, front_one h₁, hback]
  · simp only [List.cons_append, List.nil_append, decodeFrom, front_two (not_le.1 h₁) h₂, hback]
  · simp only [List.cons_append, List.nil_append, decodeFrom,
      front_three (not_le.1 h₂) h₃ hgap, hback]
  · simp only [List.cons_append, List.nil_append, decodeFrom, front_four (not_le.1 h₃) hmax, hback]

/-- The bytes of an array are listed from the first to the last. -/
private theorem toList_eq_data (bs : ByteArray) : bs.toList = bs.data.toList := by
  have hloop (i : Nat) (r : List UInt8) :
      ByteArray.toList.loop bs i r = r.reverse ++ bs.data.toList.drop i := by
    induction i, r using ByteArray.toList.loop.induct bs with
    | case1 i r hi ih =>
      have hlt : i < bs.data.toList.length := hi
      have hget : bs.get! i = bs.data.toList[i] := getElem!_pos bs.data i hlt
      rw [ByteArray.toList.loop, if_pos hi, ih, List.drop_eq_getElem_cons hlt, hget,
        List.reverse_cons, List.append_assoc, List.singleton_append]
    | case2 i r hi =>
      have hle : bs.data.toList.length ≤ i := Nat.le_of_not_lt hi
      rw [ByteArray.toList.loop, if_neg hi, List.drop_eq_nil_of_le hle, List.append_nil]
  exact (hloop 0 []).trans (by simp)

theorem encode_eq_flatMap (cs : List Char) : encode cs = cs.flatMap String.utf8EncodeChar := by
  have h := bytes_eq_flatMap (String.ofList cs)
  rwa [String.toList_ofList, bytes, ← toList_eq_data] at h

theorem decodeFrom_encode (cs : List Char) : decodeFrom 0 (encode cs) = cs.map some := by
  rw [encode_eq_flatMap]
  induction cs with
  | nil => rfl
  | cons c cs ih => rw [List.flatMap_cons, decodeFrom_utf8EncodeChar, ih, List.map_cons]

/-- The bytes of a text are well-formed and spell it. -/
theorem decode?_encode (cs : List Char) : decode? (encode cs) = some cs := by
  rw [decode?, decodeFrom_encode]
  induction cs with
  | nil => rfl
  | cons c cs ih => simp [ih]

/-- The bytes of a text are decoded to it. -/
theorem decodeLossy_encode (cs : List Char) : decodeLossy (encode cs) = cs := by
  rw [decodeLossy, decodeFrom_encode, List.map_map]
  exact List.map_id cs

end Switchyard.Text.Utf8
