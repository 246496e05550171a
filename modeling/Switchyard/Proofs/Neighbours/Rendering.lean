import Switchyard.Neighbours
import Switchyard.Proofs.Device.MacText
import Switchyard.Proofs.Device.Numerals
import Switchyard.Proofs.Text.Words

/-!
# Neighbour tables are read back

A neighbour table is written with a heading and a line for every neighbour. The widths of the
columns do not matter, nor does the case of the digits or the number of zeros in front of the flags.
Reading the table for an interface gives the neighbours that answered on this interface, in the
order of the table: their addresses on the network as written and their hardware addresses in the
canonical form.

## Main definitions

* `Neighbours.Entry` : a neighbour with its flags and its interface.
* `Neighbours.Entry.IsLine`, `Neighbours.IsTable` : how neighbours are written.
* `Neighbours.Entry.Answers` : a neighbour answered on an interface.

## Main results

* `Neighbours.sighting?_of_isLine` : what is read from the line of a neighbour.
* `Neighbours.canonical?_of_mem_parse` : the addresses that are read are canonical.
* `Neighbours.parse_of_isTable` : what is read from a table.
-/

namespace Switchyard.Neighbours

open Text

/-- A neighbour: its address on the network, its flags in 32 bits, its hardware address and the
interface that it was seen on. -/
structure Entry where
  ip : String
  flags : Nat
  mac : Mac
  device : String
  flags_lt : flags < bound32
  isWord_ip : IsWord ip.toList
  isWord_device : IsWord device.toList

namespace Entry

/-- The columns of a line: the kind of hardware is always that of Ethernet, and the mask is not
used. -/
def columns (e : Entry) (flags mac : List Char) : List (List Char) :=
  [e.ip.toList, ['0', 'x', '1'], '0' :: 'x' :: flags, mac, ['*'], e.device.toList]

/-- The lines in which a neighbour may be written: the flags as any numeral with their value, the
hardware address with colons and in either case, and spaces between the columns. -/
def IsLine (e : Entry) (line : List Char) : Prop :=
  ∃ flags mac, IsHex e.flags flags ∧ Mac.Row (· = [':']) e.mac.octets mac ∧
    Columns (e.columns flags mac) line

/-- A neighbour answered on an interface: its entry is complete and its hardware address known. -/
def Answers (interface : String) (e : Entry) : Prop :=
  e.device = interface ∧ e.flags.testBit 1 = true ∧ e.mac.octets ≠ List.replicate 6 0

instance (interface : String) : DecidablePred (Answers interface) := fun e ↦
  inferInstanceAs (Decidable
    (e.device = interface ∧ e.flags.testBit 1 = true ∧ e.mac.octets ≠ List.replicate 6 0))

/-- What is seen of a neighbour. -/
def sighting (e : Entry) : Sighting := ⟨e.mac.text, e.ip⟩

end Entry

/-- The texts of a table: a heading and the lines of the neighbours. -/
def IsTable (es : List Entry) (table : String) : Prop :=
  ∃ heading lines, '\n' ∉ heading ∧ List.Forall₂ Entry.IsLine es lines ∧
    Lined (heading :: lines) table.toList

variable {e : Entry} {es : List Entry} {flags line mac : List Char} {interface table : String}

/-! ### Columns -/

/-- Digits have no mark of hexadecimal numbers in front. -/
theorem dropMarks_of_isHex {n : Nat} (h : IsHex n flags) : dropMarks flags = flags := by
  rw [dropMarks]
  rintro rest rfl
  have hx := isSome_digitIn_of_digits? (digits?_eq_some_iff.2 h) 'x' (by simp)
  exact absurd hx (by decide)

theorem flags?_of_isHex {n : Nat} (h : IsHex n flags) (hn : n < bound32) :
    flags? ('0' :: 'x' :: flags) = some n := by
  rw [flags?, dropMarks, dropMarks_of_isHex h]
  exact unsigned?_eq_some_iff.2 ⟨hn, .inl h⟩

theorem Entry.isWord_of_mem_columns (hflags : IsHex e.flags flags)
    (hmac : Mac.Row Mac.IsMark e.mac.octets mac) : ∀ w ∈ e.columns flags mac, IsWord w := by
  have hflagsWord : IsWord ('0' :: 'x' :: flags) := by
    refine ⟨List.cons_ne_nil _ _, ?_⟩
    rw [List.forall_mem_cons, List.forall_mem_cons]
    exact ⟨rfl, rfl, fun c hc ↦ (hflags.forall_mem c hc).1.2.1⟩
  have hmacWord : IsWord mac := by
    refine ⟨?_, (Mac.exists_parts (.inl hmac)).1⟩
    rintro rfl
    have := hmac.pieces_of_isMark.1
    rw [e.mac.length_eq] at this
    cases this
  simp only [Entry.columns, List.forall_mem_cons]
  exact ⟨e.isWord_ip, by decide, hflagsWord, hmacWord, by decide, e.isWord_device,
    List.forall_mem_nil _⟩

/-! ### Lines -/

/-- From the line of a neighbour it is read whether it answered, and its addresses if so. -/
theorem sighting?_of_isLine (h : e.IsLine line) : sighting? interface line =
    if e.Answers interface then some e.sighting else none := by
  obtain ⟨flags, mac, hflags, hmac, hcolumns⟩ := h
  have hmark := hmac.isMark
  have hwords : wordChars line = e.columns flags mac :=
    wordChars_of_columns hcolumns (e.isWord_of_mem_columns hflags hmark)
  have hcomplete : e.flags / completeFlag % 2 = 1 ↔ e.flags.testBit 1 = true := by
    rw [Nat.testBit_eq_decide_div_mod_eq, decide_eq_true_iff]
    rfl
  rw [sighting?, hwords]
  simp only [Entry.columns]
  rw [flags?_of_isHex hflags e.flags_lt, Mac.ofChars?_of_row (.inl hmark)]
  simp only [Option.bind_eq_bind, Option.bind_some, String.ofList_toList, hcomplete,
    Mac.isZero_iff]
  by_cases h : e.Answers interface
  · rw [if_pos h, if_pos ⟨h.1, h.2.1⟩, if_neg h.2.2, Entry.sighting]
  · rw [if_neg h]
    split
    next hdevice => exact if_pos (by_contra fun hne ↦ h ⟨hdevice.1, hdevice.2, hne⟩)
    next => rfl

/-- A line of columns is a line: it is not empty and has no line end. -/
theorem Entry.IsLine.plain (h : e.IsLine line) : line ≠ [] ∧ '\n' ∉ line ∧ '\r' ∉ line := by
  obtain ⟨flags, mac, hflags, hmac, hcolumns⟩ := h
  have hwords := e.isWord_of_mem_columns hflags hmac.isMark
  have hnone {c : Char} (hc : isBlank c = true) (hne : c ≠ ' ') : c ∉ line := fun hmem ↦
    (hcolumns.eq_space_or hwords c hmem).elim hne fun hplain ↦ by rw [hc] at hplain; cases hplain
  exact ⟨hcolumns.ne_nil hwords, hnone rfl (by decide), hnone rfl (by decide)⟩

/-! ### Tables -/

/-- Whatever the table, the hardware addresses that are read from it are canonical. -/
theorem canonical?_of_mem_parse {s : Sighting} (h : s ∈ parse table interface) :
    Mac.canonical? s.mac = some s.mac := by
  obtain ⟨line, -, hline⟩ := List.mem_filterMap.1 h
  unfold sighting? at hline
  split at hline
  next =>
    simp only [Option.bind_eq_bind, Option.bind_eq_some_iff, Option.ite_none_right_eq_some] at hline
    obtain ⟨flags, -, -, m, hm, hs⟩ := hline
    obtain ⟨-, hs⟩ := Option.ite_none_left_eq_some.1 hs
    obtain rfl := Option.some.inj hs
    rw [Mac.canonical?, Mac.parse?_text (Mac.octets_lt_of_ofChars? hm), Option.map_some]
  next => cases hline

theorem plain_of_isLine {lines : List (List Char)} (h : List.Forall₂ Entry.IsLine es lines) :
    ∀ l ∈ lines, l ≠ [] ∧ '\n' ∉ l ∧ '\r' ∉ l := by
  induction h with
  | nil => exact List.forall_mem_nil _
  | cons he _ ih => exact List.forall_mem_cons.2 ⟨he.plain, ih⟩

/-- From the lines of neighbours are read those that answered. -/
theorem filterMap_sighting? {lines : List (List Char)} (h : List.Forall₂ Entry.IsLine es lines) :
    lines.filterMap (sighting? interface) =
      (es.filter (Entry.Answers interface ·)).map Entry.sighting := by
  induction h with
  | nil => rfl
  | @cons e line es lines he _ ih =>
    rw [List.filterMap_cons, sighting?_of_isLine he, List.filter_cons]
    by_cases hanswers : e.Answers interface
    · simp only [hanswers, if_true, decide_true, List.map_cons, ih]
    · simp only [hanswers, if_false, decide_false, Bool.false_eq_true, ih]

/-- From a table of neighbours are read, in its order, those that answered on an interface: one
sighting for each, with its address on the network and its hardware address in the canonical form,
which is read as itself. -/
theorem parse_of_isTable (interface : String) (h : IsTable es table) :
    parse table interface = (es.filter (Entry.Answers interface ·)).map Entry.sighting ∧
      ∀ s ∈ parse table interface, Mac.canonical? s.mac = some s.mac := by
  refine ⟨?_, fun s ↦ canonical?_of_mem_parse⟩
  obtain ⟨heading, lines, hheading, hlines, htable⟩ := h
  have hdrop := drop_lines_of_lined htable hheading (plain_of_isLine hlines)
  rw [String.ofList_toList] at hdrop
  rw [parse, hdrop, filterMap_sighting? hlines]

/-- A neighbour that answered. -/
def answering : Entry where
  ip := "10.0.0.5"
  flags := 6
  mac := ⟨[0x00, 0x60, 0xE9, 0x2D, 0x91, 0x3E], rfl⟩
  device := "eth0"
  flags_lt := by decide
  isWord_ip := by decide
  isWord_device := by decide

/-- A neighbour of which nothing was heard. -/
def silent : Entry where
  ip := "10.0.0.6"
  flags := 0
  mac := ⟨[0, 0, 0, 0, 0, 0], rfl⟩
  device := "eth0"
  flags_lt := by decide
  isWord_ip := by decide
  isWord_device := by decide

theorem isLine_answering :
    answering.IsLine "10.0.0.5   0x1  0x0006 00:60:e9:2D:91:3e   * eth0".toList := by
  refine ⟨"0006".toList, "00:60:e9:2D:91:3e".toList, digits?_eq_some_iff.1 (by decide), ?_, ?_⟩
  · exact .next (w := ['0', '0']) (g := [':']) (.mk (by decide) (by decide) (by decide)) rfl <|
      .next (w := ['6', '0']) (g := [':']) (.mk (by decide) (by decide) (by decide)) rfl <|
      .next (w := ['e', '9']) (g := [':']) (.mk (by decide) (by decide) (by decide)) rfl <|
      .next (w := ['2', 'D']) (g := [':']) (.mk (by decide) (by decide) (by decide)) rfl <|
      .next (w := ['9', '1']) (g := [':']) (.mk (by decide) (by decide) (by decide)) rfl <|
      .last (.mk (by decide) (by decide) (by decide))
  · exact .next 2 <| .next 1 <| .next 0 <| .next 2 <| .next 0 <| .last _

theorem isLine_silent : silent.IsLine "10.0.0.6 0x1 0x0 00:00:00:00:00:00 * eth0".toList := by
  have hzero : IsHexPair 0 ['0', '0'] := .mk (by decide) (by decide) (by decide)
  refine ⟨['0'], "00:00:00:00:00:00".toList, digits?_eq_some_iff.1 (by decide), ?_, ?_⟩
  · exact .next (g := [':']) hzero rfl <| .next (g := [':']) hzero rfl <|
      .next (g := [':']) hzero rfl <| .next (g := [':']) hzero rfl <|
      .next (g := [':']) hzero rfl <| .last hzero
  · exact .next 0 <| .next 0 <| .next 0 <| .next 0 <| .next 0 <| .last _

/-- A table of the two neighbours, whose last line has no line feed. -/
def street : String :=
  "IP address" ++ "\n" ++ "10.0.0.5   0x1  0x0006 00:60:e9:2D:91:3e   * eth0" ++ "\n" ++
    "10.0.0.6 0x1 0x0 00:00:00:00:00:00 * eth0"

/-- The neighbour that answered is seen on its interface and on no other. -/
theorem parse_of_street : IsTable [answering, silent] street ∧
    parse street "eth0" = [⟨"00-60-E9-2D-91-3E", "10.0.0.5"⟩] ∧ parse street "eth1" = [] := by
  have htable : IsTable [answering, silent] street := by
    refine ⟨"IP address".toList, _, by decide, .cons isLine_answering (.cons isLine_silent .nil), ?_⟩
    simp only [street, String.toList_append, List.append_assoc]
    exact .next (.next (.unended _))
  refine ⟨htable, (parse_of_isTable "eth0" htable).1.trans ?_,
    (parse_of_isTable "eth1" htable).1.trans ?_⟩
  · decide
  · decide

end Switchyard.Neighbours
