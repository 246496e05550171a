import Switchyard.Http.Message
import Switchyard.Http.Query
import Switchyard.Proofs.Device.MacText
import Switchyard.Proofs.Text.Decoding

/-!
# What is written into a query

A text that is written into a query is read out of it again, whatever its characters are: the bytes
of its characters are written one by one, and none of them is written with a character that has a
meaning of its own in a target. So a target that ends in one field has the path in front of its
question mark and the field behind it.

## Main results

* `Http.Query.decode_encode` : a text is read back.
* `Http.Query.forall_mem_encode` : the characters that do not occur.
* `Http.Query.fields_fieldText` : a field is read back.
* `Http.Request.path_of_field`, `Http.Request.query_of_field` : a target with one field.
-/

namespace Switchyard.Http

namespace Query

open Text

/-! ### One byte -/

variable {b : UInt8} {c : Char}

/-- The character of a plain byte is a letter, a digit or one of the four marks. -/
theorem char_ne_of_isPlain (h : isPlain b = true)
    (hc : (c.isAlphanum || c == '*' || c == '-' || c == '.' || c == '_') = false) :
    Char.ofNat b.toNat ≠ c := by
  rintro rfl
  simp only [isPlain, Bool.and_eq_true, hc] at h
  exact Bool.false_ne_true h.2

/-- The byte of a plain character is the byte that it stands for. -/
theorem encode_of_isPlain (h : isPlain b = true) : Utf8.encode [Char.ofNat b.toNat] = [b] := by
  have hlt : b.toNat < 128 := by
    simp only [isPlain, Bool.and_eq_true, decide_eq_true_iff] at h
    exact h.1
  have hvalid : b.toNat.isValidChar := Or.inl (by omega)
  have hvalue : (Char.ofNat b.toNat).val.toNat = b.toNat := by
    rw [Char.ofNat, dif_pos hvalid]
    rfl
  rw [Utf8.encode_eq_flatMap, List.flatMap_singleton, String.utf8EncodeChar]
  simp only [hvalue]
  rw [if_pos (by omega), UInt8.ofNat_toNat]

/-- A byte that is written is read back. -/
theorem bytes_escape (b : UInt8) (rest : List Char) : bytes (escape b ++ rest) = b :: bytes rest := by
  rw [escape]
  split
  next h =>
    have hplus : Char.ofNat b.toNat ≠ '+' := char_ne_of_isPlain h (by decide)
    have hpercent : Char.ofNat b.toNat ≠ '%' := char_ne_of_isPlain h (by decide)
    rw [List.singleton_append, bytes, encode_of_isPlain h, List.singleton_append]
    · exact hplus
    · exact fun _ _ _ heq ↦ absurd heq hpercent
  next =>
    split
    next h => rw [h, List.singleton_append, bytes]
    next =>
      have hlt : b.toNat < 256 := UInt8.toNat_lt b
      have hhigh := digitIn_hexDigit (b.toNat / 16 % 16) (Nat.mod_lt _ (by decide))
      have hlow := digitIn_hexDigit (b.toNat % 16) (Nat.mod_lt _ (by decide))
      have hvalue : 16 * (b.toNat / 16 % 16) + b.toNat % 16 = b.toNat := by omega
      simp only [hexByte_eq, List.cons_append, List.nil_append, bytes, hhigh, hlow, hvalue,
        UInt8.ofNat_toNat]

/-- A byte is written without the characters that have a meaning of their own in a target. -/
theorem forall_mem_escape (b : UInt8) :
    ∀ c ∈ escape b, c ≠ '#' ∧ c ≠ '?' ∧ c ≠ '&' ∧ c ≠ '=' := by
  have hdigit : ∀ d < 16, hexDigit d ≠ '#' ∧ hexDigit d ≠ '?' ∧ hexDigit d ≠ '&' ∧
      hexDigit d ≠ '=' := by decide
  rw [escape]
  split
  next h =>
    rw [List.forall_mem_singleton]
    exact ⟨char_ne_of_isPlain h (by decide), char_ne_of_isPlain h (by decide),
      char_ne_of_isPlain h (by decide), char_ne_of_isPlain h (by decide)⟩
  next =>
    split
    next => simp
    next =>
      rw [hexByte_eq, List.forall_mem_cons, List.forall_mem_cons, List.forall_mem_singleton]
      exact ⟨by decide, hdigit _ (Nat.mod_lt _ (by decide)), hdigit _ (Nat.mod_lt _ (by decide))⟩

/-! ### Whole texts -/

/-- A text is written without the characters that have a meaning of their own in a target. -/
theorem forall_mem_encode (s : String) :
    ∀ c ∈ (encode s).toList, c ≠ '#' ∧ c ≠ '?' ∧ c ≠ '&' ∧ c ≠ '=' := by
  intro c hc
  rw [encode, String.toList_ofList] at hc
  obtain ⟨b, -, hb⟩ := List.mem_flatMap.1 hc
  exact forall_mem_escape b c hb

theorem bytes_encode (s : String) : bytes (encode s).toList = Utf8.encode s.toList := by
  rw [encode, String.toList_ofList]
  induction Utf8.encode s.toList with
  | nil => rfl
  | cons b bs ih => rw [List.flatMap_cons, bytes_escape, ih]

/-- A text is read back. -/
theorem decode_encode (s : String) : decode (encode s).toList = s := by
  rw [decode, bytes_encode, Utf8.decodeLossy_encode, String.ofList_toList]

/-! ### Fields -/

/-- A field as it is written. -/
def fieldText (name value : String) : List Char :=
  (encode name).toList ++ '=' :: (encode value).toList

/-- A field is read back. -/
theorem fields_fieldText (name value : String) :
    fields (fieldText name value) = [(name, value)] := by
  have hname := forall_mem_encode name
  have hvalue := forall_mem_encode value
  have hcut : cutAt '=' (fieldText name value) =
      some ((encode name).toList, (encode value).toList) :=
    cutAt_append (fun hmem ↦ (hname '=' hmem).2.2.2 rfl) _
  have hpieces : pieces (· == '&') (fieldText name value) = [fieldText name value] := by
    refine pieces_of_forall fun c hc ↦ beq_eq_false_iff_ne.2 ?_
    rcases List.mem_append.1 hc with hc | hc
    · exact (hname c hc).2.2.1
    · rcases List.mem_cons.1 hc with rfl | hc
      · decide
      · exact (hvalue c hc).2.2.1
  have hfull : [fieldText name value].filter (!·.isEmpty) = [fieldText name value] := by
    simp [fieldText]
  rw [fields, hpieces, hfull, List.map_singleton, field, hcut]
  simp only [decode_encode]

end Query

/-! ### Targets -/

namespace Request

variable {r : Request} {path name value : String}

/-- The path of a target without a query is the whole target. -/
theorem path_of_not_mem (hmark : '#' ∉ r.target.toList) (hask : '?' ∉ r.target.toList) :
    r.path = r.target := by
  have hresource : r.resource = r.target.toList :=
    List.takeWhile_eq_self_iff.2 fun c hc ↦ bne_iff_ne.2 (ne_of_mem_of_not_mem hc hmark)
  rw [Request.path, hresource,
    List.takeWhile_eq_self_iff.2 fun c hc ↦ bne_iff_ne.2 (ne_of_mem_of_not_mem hc hask),
    String.ofList_toList]

/-- A target with one field has nothing behind a number sign. -/
theorem resource_of_field (hmark : '#' ∉ path.toList)
    (h : r.target.toList = path.toList ++ '?' :: Query.fieldText name value) :
    r.resource = path.toList ++ '?' :: Query.fieldText name value := by
  rw [resource, h, List.takeWhile_eq_self_iff]
  intro c hc
  rw [bne_iff_ne]
  rcases List.mem_append.1 hc with hc | hc
  · exact ne_of_mem_of_not_mem hc hmark
  rcases List.mem_cons.1 hc with rfl | hc
  · decide
  rcases List.mem_append.1 hc with hc | hc
  · exact (Query.forall_mem_encode name c hc).1
  rcases List.mem_cons.1 hc with rfl | hc
  · decide
  · exact (Query.forall_mem_encode value c hc).1

/-- The path of a target with one field is what stands in front of the question mark. -/
theorem path_of_field (hmark : '#' ∉ path.toList) (hask : '?' ∉ path.toList)
    (h : r.target.toList = path.toList ++ '?' :: Query.fieldText name value) : r.path = path := by
  have hfront : ∀ c ∈ path.toList, (c != '?') = true := fun c hc ↦
    bne_iff_ne.2 (ne_of_mem_of_not_mem hc hask)
  rw [Request.path, resource_of_field hmark h, List.takeWhile_append_of_pos hfront,
    List.takeWhile_cons_of_neg (by decide), List.append_nil, String.ofList_toList]

/-- The query of a target with one field is that field. -/
theorem query_of_field (hmark : '#' ∉ path.toList) (hask : '?' ∉ path.toList)
    (h : r.target.toList = path.toList ++ '?' :: Query.fieldText name value) :
    r.query = Query.fieldText name value := by
  have hfront : ∀ c ∈ path.toList, (c != '?') = true := fun c hc ↦
    bne_iff_ne.2 (ne_of_mem_of_not_mem hc hask)
  rw [Request.query, resource_of_field hmark h, List.dropWhile_append_of_pos hfront,
    List.dropWhile_cons_of_neg (by decide), List.drop_one, List.tail_cons]

end Request

end Switchyard.Http
