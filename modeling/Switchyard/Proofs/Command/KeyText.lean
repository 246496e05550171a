import Switchyard.Handler.DeviceAction
import Switchyard.Proofs.Command.Wire
import Switchyard.Proofs.Text.Words

/-!
# Keys across the wire

A wire form is read as addressed when it begins with an at sign, a name without spaces and a space;
every other text is read as a plain key. So a key is not always read back from its own wire form.
The key of a command that came over the wire and concerns a device always is, and no other command
whose wire form is the same is read as anything else.

## Main definitions

* `Key.Addressed` : a wire form that begins with an address.

## Main results

* `Key.parse_of_addressed`, `Key.parse_of_not_addressed` : how a wire form is read.
* `Command.key_carried_of_wire_eq` : the keys of commands for devices are read back.
-/

namespace Switchyard

open Text

/-! ### First words -/

namespace Command

variable {c : Command}

theorem verb_of_blank (h : ∀ ch ∈ c.text.toList, isBlank ch = true) : c.verb = "" := by
  rw [verb, words, Text.words, wordChars_eq_nil h]
  rfl

theorem head?_verb {ch : Char} {cs : List Char} (hch : isBlank ch = false)
    (h : c.text.toList = ch :: cs) : c.verb.toList.head? = some ch := by
  obtain ⟨w, ws, hw⟩ := exists_wordChars_cons hch cs
  rw [verb, words, Text.words, h, hw]
  simp

theorem verb_congr {d : Command} (h : c.text = d.text) : c.verb = d.verb := by
  rw [verb, verb, words, words, h]

/-- A command for a device has a text that is not blank and does not begin with an at sign. -/
theorem text_of_verb_mem (h : c.verb ∈ Handler.deviceVerbs) :
    trim c.text ≠ "" ∧ ∀ cs, c.text.toList ≠ '@' :: cs := by
  constructor
  · intro hblank
    have htrim : trimChars c.text.toList = [] := by
      simpa [trim] using congrArg String.toList hblank
    rw [verb_of_blank (trimChars_eq_nil_iff.1 htrim)] at h
    exact absurd h (by decide)
  · intro cs hat
    have hhead := head?_verb (by decide) hat
    have hne : ∀ v ∈ Handler.deviceVerbs, v.toList.head? ≠ some '@' := by decide
    exact hne _ h hhead

end Command

/-! ### Reading wire forms -/

namespace Key

/-- A text that begins with an at sign, a name without spaces and a space. -/
def Addressed (cs name rest : List Char) : Prop :=
  cs = '@' :: (name ++ ' ' :: rest) ∧ name ≠ [] ∧ ' ' ∉ name

variable {s : String} {name rest : List Char}

theorem parse_of_addressed (h : Addressed s.toList name rest) :
    parse s = ⟨some (String.ofList name), String.ofList (trimChars rest)⟩ := by
  obtain ⟨hs, hne, hspace⟩ := h
  simp [parse, hs, cutAt_append hspace, hne]

theorem parse_of_not_addressed (h : ∀ name rest, ¬Addressed s.toList name rest) :
    parse s = plain s := by
  rw [parse]
  split
  next cs hs =>
    split
    next name rest hcut =>
      obtain ⟨rfl, hspace⟩ := cutAt_eq_some_iff.1 hcut
      split
      next => rfl
      next hne => exact absurd ⟨hs, by simpa using hne, hspace⟩ (h name rest)
    next => rfl
  next => rfl

theorem toList_wire_some (client text : String) : (Key.mk (some client) text).wire.toList =
    '@' :: (client.toList ++ ' ' :: text.toList) := by
  simp [wire, String.toList_append]

/-- Where two addresses end at different places, the longer one has a space in its name. -/
theorem suffix_of_append_eq {name' rest' : List Char} (hspace : ' ' ∉ name)
    (h : name' ++ ' ' :: rest' = name ++ ' ' :: rest) : rest' <:+ rest := by
  induction name generalizing name' with
  | nil =>
    cases name' with
    | nil => exact (List.cons.inj h).2 ▸ List.suffix_rfl
    | cons c cs =>
      obtain ⟨-, htail⟩ := List.cons.inj h
      exact ⟨cs ++ [' '], by rw [← htail]; simp⟩
  | cons c cs ih =>
    obtain ⟨hne, hcs⟩ := not_or.1 (mt List.mem_cons.2 hspace)
    cases name' with
    | nil => exact absurd (List.cons.inj h).1 hne
    | cons c' cs' => exact ih hcs (List.cons.inj h).2

end Key

/-! ### The keys of commands for devices -/

namespace Command

open Key

variable {c : Command}

/-- A key that is read back, and is not blank, is read from every command with its wire form. -/
theorem key_carried_eq {k : Key} (hparse : Key.parse k.wire = k) (htext : k.text ≠ "")
    (hclient : k.client = none → ∀ cs, k.text.toList ≠ '@' :: cs) (hwire : c.key.wire = k.wire) :
    c.carried.key = k := by
  have hcarried : c.carried.text = k.text := by
    rw [carried_text, hwire, hparse, if_neg (by simpa using htext)]
  have haddress : c.carried.client = k.client := by
    rw [carried_client, hwire, hparse]
    cases hk : k.client with
    | some client => rfl
    | none =>
      cases hc : c.client with
      | none => rfl
      | some client =>
        have htoList : k.text.toList = '@' :: (client.toList ++ ' ' :: c.text.toList) := by
          rw [← toList_wire_some, ← hc]
          change k.text.toList = c.key.wire.toList
          rw [hwire, Key.wire, hk]
        exact absurd htoList (hclient hk _)
  rw [key, haddress, hcarried]

/-- The text that a wire form leaves to a command for a device is not blank. -/
private theorem rest_ne_blank (hverb : c.carried.verb ∈ Handler.deviceVerbs)
    {name rest : List Char} (haddr : Addressed c.key.wire.toList name rest) :
    trimChars rest ≠ [] := by
  obtain ⟨hblank, hat⟩ := text_of_verb_mem hverb
  intro hrest
  have htext : c.carried.text = c.text := by
    rw [carried_text, parse_of_addressed haddr, if_pos (by simp [hrest])]
  rw [htext] at hblank hat
  cases hc : c.client with
  | none =>
    have hwire : c.key.wire = c.text := by rw [Key.wire, key, hc]
    exact hat _ (hwire ▸ haddr.1)
  | some client =>
    have hwire : c.key.wire.toList = '@' :: (client.toList ++ ' ' :: c.text.toList) := by
      rw [← toList_wire_some, ← hc]
      rfl
    have hsuffix : c.text.toList <:+ rest :=
      suffix_of_append_eq haddr.2.2 (List.cons.inj (hwire.symm.trans haddr.1)).2
    have hall : trimChars c.text.toList = [] :=
      trimChars_eq_nil_iff.2 fun ch hch ↦ trimChars_eq_nil_iff.1 hrest ch (hsuffix.subset hch)
    exact hblank (by rw [trim, hall])

/-- Read from an address, the key of a command for a device is read back. -/
private theorem parse_wire_carried_of_addressed (hverb : c.carried.verb ∈ Handler.deviceVerbs)
    {name rest : List Char} (haddr : Addressed c.key.wire.toList name rest) :
    Key.parse c.carried.key.wire = c.carried.key := by
  have hrest := rest_ne_blank hverb haddr
  have hkey : c.carried.key = ⟨some (String.ofList name), String.ofList (trimChars rest)⟩ := by
    rw [key, carried_text, carried_client, parse_of_addressed haddr,
      if_neg (by simpa using hrest)]
    rfl
  have haddr' : Addressed c.carried.key.wire.toList name (trimChars rest) := by
    refine ⟨?_, haddr.2⟩
    rw [hkey, toList_wire_some, String.toList_ofList, String.toList_ofList]
  rw [parse_of_addressed haddr', hkey, trimChars_trimChars]

/-- Read from a text without an address, the key of a command for a device is read back. -/
private theorem parse_wire_carried_of_plain (hverb : c.carried.verb ∈ Handler.deviceVerbs)
    (hc : c.client = none) (hplain : Key.parse c.key.wire = plain c.key.wire) :
    Key.parse c.carried.key.wire = c.carried.key := by
  obtain ⟨hblank, hat⟩ := text_of_verb_mem hverb
  have hwire : c.key.wire = c.text := by rw [Key.wire, key, hc]
  have htext : c.carried.text = trim c.text := by
    rw [carried_text, hplain, hwire, plain]
    split
    next hempty =>
      rw [carried_text, hplain, hwire, plain, if_pos hempty] at hblank
      exact absurd (by simpa using hempty) hblank
    next => rfl
  have hkey : c.carried.key = ⟨none, trim c.text⟩ := by
    rw [key, htext, carried_client, hplain, hc]
    rfl
  rw [htext] at hat
  rw [hkey, Key.wire, parse_of_not_addressed fun name rest h ↦ hat _ h.1, plain, trim_trim]

/-- The wire form of a command for a device of a client is read as an address: otherwise the whole
of it would be the text, which begins with an at sign. -/
private theorem exists_addressed (hverb : c.carried.verb ∈ Handler.deviceVerbs) {client : String}
    (hc : c.client = some client) : ∃ name rest, Addressed c.key.wire.toList name rest := by
  by_contra hnot
  have hplain : Key.parse c.key.wire = plain c.key.wire :=
    parse_of_not_addressed fun name rest h ↦ hnot ⟨name, rest, h⟩
  have hwire : c.key.wire.toList = '@' :: (client.toList ++ ' ' :: c.text.toList) := by
    rw [← toList_wire_some, ← hc]
    rfl
  have htrim : trimChars c.key.wire.toList = '@' :: dropEndWhile isBlank
      (client.toList ++ ' ' :: c.text.toList) := by
    rw [hwire, trimChars_cons (by decide)]
  have htext : c.carried.text = trim c.key.wire := by
    rw [carried_text, hplain, plain, if_neg (by simp [trim, htrim])]
  obtain ⟨-, hat⟩ := text_of_verb_mem hverb
  exact absurd (by rw [htext, trim, htrim, String.toList_ofList]) (hat _)

/-- The key of a command that came over the wire and concerns a device is read back. -/
theorem parse_wire_carried (hverb : c.carried.verb ∈ Handler.deviceVerbs) :
    Key.parse c.carried.key.wire = c.carried.key := by
  by_cases haddr : ∃ name rest, Addressed c.key.wire.toList name rest
  · obtain ⟨name, rest, haddr⟩ := haddr
    exact parse_wire_carried_of_addressed hverb haddr
  · cases hc : c.client with
    | none =>
      exact parse_wire_carried_of_plain hverb hc
        (parse_of_not_addressed fun name rest h ↦ haddr ⟨name, rest, h⟩)
    | some client => exact absurd (exists_addressed hverb hc) haddr

/-- The key of a command that came over the wire and concerns a device is read from every command
with its wire form. -/
theorem key_carried_of_wire_eq {sent : Command} (hverb : sent.carried.verb ∈ Handler.deviceVerbs)
    (hwire : c.key.wire = sent.carried.key.wire) : c.carried.key = sent.carried.key := by
  obtain ⟨hblank, hat⟩ := text_of_verb_mem hverb
  have htext : sent.carried.key.text ≠ "" := by
    intro hempty
    change sent.carried.text = "" at hempty
    rw [hempty] at hblank
    exact hblank (by decide)
  exact key_carried_eq (parse_wire_carried hverb) htext (fun _ ↦ hat) hwire

end Command

end Switchyard
