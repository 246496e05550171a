import Switchyard.Json.Token
import Switchyard.Json.Value
import Switchyard.Proofs.Text.Padded

/-!
# The tokens of what is written

The text of a value is cut into the tokens that one expects: a literal, a word or a number is one
token, and an array or object is its members between brackets, with commas in between. A number is
the only token whose end has to be seen in what follows; in a value that is written, the end of the
text follows it, or a comma, or a bracket, or the end of a line.

## Main definitions

* `Json.Value.tokens` : the tokens of a value.

## Main results

* `Json.Token.scan_quote`, `Json.Token.scan_int` : literals and numbers.
* `Json.Token.ofText_render` : the tokens of the text of a value.
-/

namespace Switchyard.Json

/-- An integer as it is written. -/
def Numeral.ofInt (n : Int) : Numeral := ⟨n < 0, n.natAbs, 0, true⟩

namespace Value

mutual

/-- The tokens of a value. -/
def tokens : Value → List Token
  | .null => [.constant .null]
  | .bool b => [.constant (if b then .true else .false)]
  | .int n => [.number (.ofInt n)]
  | .text s => [.string (.text s)]
  | .array vs => .openArray :: itemTokens vs ++ [.closeArray]
  | .object fs => .openObject :: fieldTokens fs ++ [.closeObject]

/-- The tokens of some values with commas between them. -/
def itemTokens : List Value → List Token
  | [] => []
  | [v] => v.tokens
  | v :: vs => v.tokens ++ .comma :: itemTokens vs

/-- The tokens of some members with commas between them. -/
def fieldTokens : List (String × Value) → List Token
  | [] => []
  | [(k, v)] => .string (.text k) :: .colon :: v.tokens
  | (k, v) :: fs => .string (.text k) :: .colon :: v.tokens ++ .comma :: fieldTokens fs

end

end Value

namespace Token

open Text (digitIn_of_isDigit)

/-! ### Literals -/

/-- The state of a literal of which some characters were read. -/
private def reading (cs : List Char) : Mode := .string ⟨cs.reverse, none, true, .none⟩

theorem digitIn_digitChar : ∀ d < 16, Text.digitIn 16 (Nat.digitChar d) = some d := by decide

/-- An escaped control character is read back. -/
private theorem scan_control {c : Char} (hc : c.toNat < 0x20) (cs rest : List Char) :
    scan (reading cs) (['\\', 'u', '0', '0'] ++ Value.hexPair c.toNat ++ rest) =
      scan (reading (cs ++ [c])) rest := by
  have hhigh := digitIn_digitChar (c.toNat / 16 % 16) (Nat.mod_lt _ (by decide))
  have hlow := digitIn_digitChar (c.toNat % 16) (Nat.mod_lt _ (by decide))
  have hzero : Text.digitIn 16 '0' = some 0 := by decide
  have hvalue : c.toNat / 16 % 16 * 16 + c.toNat % 16 = c.toNat := by omega
  have hunit (s : PartialString) : s.addUnit c.toNat = s.add c := by
    rw [PartialString.addUnit, if_neg (by omega), if_neg (by omega), Char.ofNat_toNat]
  simp [reading, Value.hexPair, scan, PartialString.push, hzero, hhigh, hlow, hvalue, hunit,
    PartialString.add]

/-- A character that is written is read back. -/
private theorem scan_escape (c : Char) (cs rest : List Char) :
    scan (reading cs) (Value.escape c ++ rest) = scan (reading (cs ++ [c])) rest := by
  unfold Value.escape
  split
  -- the letters that have an escape of their own
  iterate 7 · simp [reading, scan, PartialString.push, PartialString.escaped, PartialString.add]
  next hquote hslash _ _ _ _ _ =>
    split
    next hc => exact scan_control hc cs rest
    next hc =>
      have hquote' : c ≠ '"' := fun h ↦ hquote h
      have hslash' : c ≠ '\\' := fun h ↦ hslash h
      simp [reading, scan, PartialString.push, PartialString.add, hquote', hslash', hc]

/-- A literal is read back. -/
theorem scan_quote (s : String) (rest : List Char) :
    scan .between ((Value.quote s).toList ++ rest) = .string (.text s) :: scan .between rest := by
  have hbody (cs ds : List Char) : scan (reading cs) (ds.flatMap Value.escape ++ '"' :: rest) =
      .string (.text (String.ofList (cs ++ ds))) :: scan .between rest := by
    induction ds generalizing cs with
    | nil => simp [reading, scan, PartialString.value]
    | cons d ds ih =>
      rw [List.flatMap_cons, List.append_assoc, scan_escape, ih, List.append_assoc,
        List.singleton_append]
  have hliteral : (Value.quote s).toList ++ rest =
      '"' :: (s.toList.flatMap Value.escape ++ '"' :: rest) := by
    simp [Value.quote]
  rw [hliteral]
  refine (hbody [] s.toList).trans ?_
  rw [List.nil_append, String.ofList_toList]

/-! ### Numbers -/

/-- What may follow a number in a value that is written. -/
def Ends (rest : List Char) : Prop :=
  ∀ c ∈ rest.head?, c = ',' ∨ c = ']' ∨ c = '\x7d' ∨ c = '\n'

theorem ends_nil : Ends [] := fun _ hc ↦ by cases hc

theorem ends_comma (rest : List Char) : Ends (',' :: rest) := fun _ hc ↦
  .inl (Option.some.inj hc).symm

theorem ends_bracket (rest : List Char) : Ends (']' :: rest) := fun _ hc ↦
  .inr (.inl (Option.some.inj hc).symm)

theorem ends_brace (rest : List Char) : Ends ('\x7d' :: rest) := fun _ hc ↦
  .inr (.inr (.inl (Option.some.inj hc).symm))

theorem ends_lineFeed (rest : List Char) : Ends ('\n' :: rest) := fun _ hc ↦
  .inr (.inr (.inr (Option.some.inj hc).symm))

/-- The state of a number without point or exponent. -/
private def counting (phase : NumberPhase) (negative : Bool) (digits : Nat) : PartialNumber :=
  ⟨phase, negative, digits, 0, 0, false⟩

/-- A number ends where it has to. -/
private theorem scan_end {phase : NumberPhase} (hphase : phase = .zero ∨ phase = .whole)
    (negative : Bool) (n : Nat) {rest : List Char} (h : Ends rest) :
    scan (.number (counting phase negative n)) rest =
      .number ⟨negative, n, 0, true⟩ :: scan .between rest := by
  cases rest with
  | nil => rcases hphase with rfl | rfl <;> rfl
  | cons c rest =>
    have hnone : ∀ c : Char, c = ',' ∨ c = ']' ∨ c = '\x7d' ∨ c = '\n' →
        Text.digitIn 10 c = none := by
      rintro c (rfl | rfl | rfl | rfl) <;> decide
    rcases h c rfl with rfl | rfl | rfl | rfl <;> rcases hphase with rfl | rfl <;>
      simp [scan, counting, PartialNumber.push, hnone, PartialNumber.complete, splitsDigits,
        PartialNumber.value]

/-- Digits that follow are added to a number. -/
private theorem scan_digits {ds : List Char} (hds : ∀ c ∈ ds, c.isDigit = true) (negative : Bool)
    (n : Nat) (rest : List Char) :
    scan (.number (counting .whole negative n)) (ds ++ rest) =
      scan (.number (counting .whole negative (Nat.ofDigitChars 10 ds n))) rest := by
  induction ds generalizing n with
  | nil => rfl
  | cons d ds ih =>
    obtain ⟨hd, hds⟩ := List.forall_mem_cons.1 hds
    have hpush : (counting .whole negative n).push d =
        some (counting .whole negative (n * 10 + (d.toNat - '0'.toNat))) := by
      simp [counting, PartialNumber.push, digitIn_of_isDigit hd]
    rw [List.cons_append, scan, hpush, Nat.ofDigitChars_cons, Nat.mul_comm 10 n]
    exact ih hds _

/-- The digits of a number begin with a zero only if it is zero. -/
theorem toDigits_eq_cons {n : Nat} (hn : n ≠ 0) :
    ∃ d ds, Nat.toDigits 10 n = d :: ds ∧ d.toNat - '0'.toNat ≠ 0 := by
  induction n using Nat.strongRecOn with
  | ind n ih =>
    rw [Nat.toDigits_eq_if (by decide)]
    split
    next hlt =>
      have hdigit : ∀ n < 10, n ≠ 0 → (Nat.digitChar n).toNat - '0'.toNat ≠ 0 := by decide
      exact ⟨_, [], rfl, hdigit n hlt hn⟩
    next hle =>
      obtain ⟨d, ds, hds, hd⟩ := ih (n / 10) (by omega) (by omega)
      exact ⟨d, ds ++ [(n % 10).digitChar], by rw [hds]; rfl, hd⟩

/-- The digits of a number are read back. -/
private theorem scan_toDigits (negative : Bool) (n : Nat) {rest : List Char} (h : Ends rest) :
    scan (.number (counting .sign negative 0)) (Nat.toDigits 10 n ++ rest) =
      .number ⟨negative, n, 0, true⟩ :: scan .between rest := by
  by_cases hn : n = 0
  · subst hn
    have hpush : (counting .sign negative 0).push '0' = some (counting .zero negative 0) := by
      simp [counting, PartialNumber.push, digitIn_of_isDigit]
    rw [Nat.toDigits_zero, List.singleton_append, scan, hpush]
    exact scan_end (.inl rfl) negative 0 h
  · obtain ⟨d, ds, hds, hd⟩ := toDigits_eq_cons hn
    have hall : ∀ c ∈ d :: ds, c.isDigit = true := fun c hc ↦
      Nat.isDigit_of_mem_toDigits (by decide) (by decide) (hds ▸ hc)
    have hpush : (counting .sign negative 0).push d =
        some (counting .whole negative (d.toNat - '0'.toNat)) := by
      simpa [counting, PartialNumber.push, digitIn_of_isDigit (hall d List.mem_cons_self)] using hd
    have hvalue : Nat.ofDigitChars 10 ds (d.toNat - '0'.toNat) = n := by
      have hback := Nat.ofDigitChars_toDigits (b := 10) (n := n) (by decide) (by decide)
      rwa [hds, Nat.ofDigitChars_cons, Nat.mul_zero, Nat.zero_add] at hback
    rw [hds, List.cons_append, scan, hpush]
    refine (scan_digits (fun c hc ↦ hall c (List.mem_cons_of_mem d hc)) negative _ rest).trans ?_
    rw [hvalue]
    exact scan_end (.inr rfl) negative n h

/-- A digit begins a number. -/
private theorem scan_digit {c : Char} (hc : c.isDigit = true) (rest : List Char) :
    scan .between (c :: rest) = scan (.number (counting .sign false 0)) (c :: rest) := by
  have hdigit := digitIn_of_isDigit hc
  have hstart : start c = ((counting .sign false 0).push c).map fun n ↦ (none, .number n) := by
    unfold start
    split
    iterate 15 · exact absurd hc (by decide)
    next => simp [hdigit, counting, PartialNumber.push]
  rw [scan, scan, hstart]
  simp [hdigit, counting, PartialNumber.push]

/-- A number is read back. -/
theorem scan_int (n : Int) {rest : List Char} (h : Ends rest) :
    scan .between ((toString n).toList ++ rest) = .number (.ofInt n) :: scan .between rest := by
  cases n with
  | ofNat n =>
    change scan .between (n.repr.toList ++ rest) = _
    obtain ⟨d, ds, hds⟩ := List.exists_cons_of_ne_nil (Nat.toDigits_ne_nil (n := n) (b := 10))
    have hd : d.isDigit = true :=
      Nat.isDigit_of_mem_toDigits (by decide) (by decide) (hds ▸ List.mem_cons_self)
    rw [Nat.toList_repr, hds, List.cons_append, scan_digit hd, ← List.cons_append, ← hds,
      scan_toDigits false n h]
    simp [Numeral.ofInt]
  | negSucc n =>
    change scan .between (("-" ++ n.succ.repr).toList ++ rest) = _
    rw [String.toList_append, Nat.toList_repr]
    refine (scan_toDigits true n.succ h).trans ?_
    simp [Numeral.ofInt]

/-! ### Values -/

mutual

/-- A value is read back, whatever follows it. -/
theorem scan_render (v : Value) {rest : List Char} (h : Ends rest) :
    scan .between (v.render.toList ++ rest) = v.tokens ++ scan .between rest := by
  match v with
  | .null => simp [Value.render, Value.tokens, scan, start]
  | .bool b => cases b <;> simp [Value.render, Value.tokens, scan, start]
  | .int n => simpa [Value.render, Value.tokens] using scan_int n h
  | .text s => simpa [Value.render, Value.tokens] using scan_quote s rest
  | .array vs =>
    have hitems := scan_renderItems vs (ends_bracket rest)
    simpa [Value.render, Value.tokens, scan, start, String.toList_append] using hitems
  | .object fs =>
    have hfields := scan_renderFields fs (ends_brace rest)
    simpa [Value.render, Value.tokens, scan, start, String.toList_append] using hfields

/-- The items of an array are read back. -/
theorem scan_renderItems (vs : List Value) {rest : List Char} (h : Ends rest) :
    scan .between ((Value.renderItems vs).toList ++ rest) =
      Value.itemTokens vs ++ scan .between rest := by
  match vs with
  | [] => simp [Value.renderItems, Value.itemTokens]
  | [v] => simpa [Value.renderItems, Value.itemTokens] using scan_render v h
  | v :: w :: vs =>
    have hhead := scan_render v (ends_comma ((Value.renderItems (w :: vs)).toList ++ rest))
    have htail := scan_renderItems (w :: vs) h
    simp only [Value.renderItems, Value.itemTokens, String.toList_append, List.append_assoc]
    refine hhead.trans ?_
    simp [scan, start, htail]

/-- The members of an object are read back. -/
theorem scan_renderFields (fs : List (String × Value)) {rest : List Char} (h : Ends rest) :
    scan .between ((Value.renderFields fs).toList ++ rest) =
      Value.fieldTokens fs ++ scan .between rest := by
  match fs with
  | [] => simp [Value.renderFields, Value.fieldTokens]
  | [(k, v)] =>
    have hvalue := scan_render v h
    simp only [Value.renderFields, Value.fieldTokens, String.toList_append, List.append_assoc]
    refine (scan_quote k _).trans ?_
    simp [scan, start, hvalue]
  | (k, v) :: (l, w) :: fs =>
    have hvalue := scan_render v (ends_comma ((Value.renderFields ((l, w) :: fs)).toList ++ rest))
    have htail := scan_renderFields ((l, w) :: fs) h
    simp only [Value.renderFields, Value.fieldTokens, String.toList_append, List.append_assoc]
    refine (scan_quote k _).trans ?_
    simp [scan, start, hvalue, htail]

end

/-- The tokens of the text of a value. -/
theorem ofText_render (v : Value) : ofText v.render = v.tokens := by
  have h := scan_render v ends_nil
  rwa [List.append_nil, scan, List.append_nil] at h

end Token

end Switchyard.Json
