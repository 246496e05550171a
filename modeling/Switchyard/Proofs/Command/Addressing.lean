import Switchyard.Proofs.Command.Legible

/-!
# Addresses across the wire

The wire form of a key is a plain text, in which an address is what follows an at sign up to the
first space. So a key is read with its own address if and only if it is clear: its client has a
name without spaces, or it has no client and its text does not begin with an address. Of a clear
key nothing but the blanks around its text is lost, and clear keys differ in their wire forms. All
other keys come to be for other clients than they were.

## Main results

* `Key.client_parse_wire_eq_iff` : exactly the clear keys keep their address.
* `Key.isFor_eq_iff` : keys for the same clients have the same address.
* `Key.read_back_iff` : which keys are read back, and for whom a key is that was read.
-/

namespace Switchyard.Key

open Text

variable {k k' : Key}

/-- A key that is for every client has no address. -/
theorem client_eq_none_of_isFor (h : ∀ name, k.isFor name = true) : k.client = none := by
  cases hc : k.client with
  | none => rfl
  | some client =>
    have hempty : client = "" := by simpa [isFor, hc] using h ""
    have hsign : client = "@" := by simpa [isFor, hc] using h "@"
    exact absurd (hempty.symm.trans hsign) (by decide)

/-- Two keys are for the same clients if and only if they have the same address. -/
theorem isFor_eq_iff : (∀ name, k.isFor name = k'.isFor name) ↔ k.client = k'.client := by
  constructor
  · intro h
    cases hc : k.client with
    | none => exact (client_eq_none_of_isFor fun name ↦ by rw [← h name, isFor, hc]).symm
    | some client =>
      cases hc' : k'.client with
      | none =>
        rw [client_eq_none_of_isFor fun name ↦ by rw [h name, isFor, hc']] at hc
        cases hc
      | some client' =>
        have heq : client' = client := by simpa [isFor, hc, hc'] using h client
        rw [heq]
  · intro h name
    rw [isFor, isFor, h]

/-- Exactly the clear keys keep their address. -/
theorem client_parse_wire_eq_iff (k : Key) : (parse k.wire).client = k.client ↔ k.Clear := by
  constructor
  · intro h
    obtain ⟨client, text⟩ := k
    by_cases haddr : ∃ name rest, Addressed (Key.mk client text).wire.toList name rest
    · obtain ⟨name, rest, haddr⟩ := haddr
      rw [parse_of_addressed haddr] at h
      obtain rfl : some (String.ofList name) = client := h
      exact ⟨by simpa using haddr.2.1, by simpa using haddr.2.2⟩
    · have hplain : ∀ name rest, ¬Addressed (Key.mk client text).wire.toList name rest :=
        fun name rest h ↦ haddr ⟨name, rest, h⟩
      rw [parse_of_not_addressed hplain] at h
      obtain rfl : none = client := h
      exact hplain
  · intro h
    rw [parse_wire_of_clear h]

/-- A key is read back if and only if it is clear and has no blanks around its text. On the clear
keys, and so on those read back, the wire form is injective; and a key is for the same clients
after it was read if and only if it is clear. -/
theorem read_back_iff :
    (∀ k : Key, parse k.wire = k ↔ k.Clear ∧ trim k.text = k.text) ∧
    (∀ k k' : Key, k.Clear → k'.Clear → (k.wire = k'.wire ↔ k = k')) ∧
    ∀ k : Key, (∀ name, (parse k.wire).isFor name = k.isFor name) ↔ k.Clear := by
  refine ⟨fun k ↦ ⟨fun h ↦ ?_, fun ⟨hclear, htrim⟩ ↦ ?_⟩, fun k k' h h' ↦ ?_, fun k ↦ ?_⟩
  · have hclear : k.Clear := (client_parse_wire_eq_iff k).1 (congrArg client h)
    rw [parse_wire_of_clear hclear] at h
    exact ⟨hclear, congrArg text h⟩
  · rw [parse_wire_of_clear hclear, htrim]
  · exact ⟨wire_injective h h', congrArg wire⟩
  · rw [isFor_eq_iff, client_parse_wire_eq_iff]

/-- A sweep of one client, and a text that begins almost like its wire form. -/
def alike : Key × Key := (⟨some "c1", "scan gwd"⟩, ⟨none, "@ c1 scan gwd"⟩)

/-- Both are read back, from different wire forms, and each stays for whom it was. The wire form of
the sweep taken for a text is not. -/
theorem read_back_iff_of_alike :
    alike.1.Clear ∧ alike.2.Clear ∧ parse alike.1.wire = alike.1 ∧ parse alike.2.wire = alike.2 ∧
      alike.1.wire ≠ alike.2.wire ∧ (parse alike.1.wire).isFor "c2" = false ∧
      parse (Key.mk none alike.1.wire).wire ≠ ⟨none, alike.1.wire⟩ := by
  obtain ⟨hback, hwire, hfor⟩ := read_back_iff
  have hclear : alike.1.Clear := ⟨by decide, by decide⟩
  have hclear' : alike.2.Clear := fun name rest ↦ not_addressed_of_space _ name rest
  refine ⟨hclear, hclear', (hback _).2 ⟨hclear, by decide⟩, (hback _).2 ⟨hclear', by decide⟩,
    (hwire _ _ hclear hclear').not.2 (by decide), ?_, (hback _).not.2 fun h ↦ ?_⟩
  · exact ((hfor _).2 hclear "c2").trans (by decide)
  · exact h.1 _ _ (addressed_wire hclear.1 hclear.2 "scan gwd")

end Switchyard.Key
