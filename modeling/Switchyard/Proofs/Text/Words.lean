import Switchyard.Proofs.Text.Trimming

/-!
# Words and lines

The words of a text stand between blanks, so a line of words with spaces between any two has exactly
these words, however many spaces there are. The lines of a text stand between line feeds, and the
last one may lack its own.

## Main definitions

* `Text.IsWord` : something without blanks.
* `Text.Columns` : words in a line with spaces between them.
* `Text.Lined` : lines in a text.

## Main results

* `Text.wordChars_of_columns` : a line is cut into the words that it was made of.
* `Text.lines_of_lined`, `Text.drop_lines_of_lined` : a text is cut into the lines that it was made
  of.
-/

namespace Switchyard.Text

variable {c : Char} {cs heading l line w : List Char} {ls ws : List (List Char)}

/-! ### Words -/

theorem wordChars_cons_of_blank (hc : isBlank c = true) (cs : List Char) :
    wordChars (c :: cs) = wordChars cs := by
  simp [wordChars, pieces, hc]

theorem wordChars_eq_nil (h : ∀ c ∈ cs, isBlank c = true) : wordChars cs = [] := by
  induction cs with
  | nil => rfl
  | cons c cs ih =>
    rw [wordChars_cons_of_blank (h c List.mem_cons_self)]
    exact ih fun d hd ↦ h d (List.mem_cons_of_mem _ hd)

/-- What stands in front of a blank, without blanks itself, is the first word. -/
theorem wordChars_append {pre : List Char} (hne : pre ≠ []) (hpre : pre.all (!isBlank ·) = true)
    (hc : isBlank c = true) (cs : List Char) :
    wordChars (pre ++ c :: cs) = pre :: wordChars cs := by
  have hplain : ∀ c ∈ pre, isBlank c = false := fun c hmem ↦
    (Bool.not_eq_true' _).mp (List.all_eq_true.1 hpre c hmem)
  rw [wordChars, pieces_append hplain hc, List.filter_cons_of_pos (by simpa using hne), wordChars]

/-- A text that begins with a character that is not blank has a first word that begins with it. -/
theorem exists_wordChars_cons (hc : isBlank c = false) (cs : List Char) :
    ∃ w ws, wordChars (c :: cs) = (c :: w) :: ws := by
  obtain ⟨w, ws, h⟩ := List.exists_cons_of_ne_nil (pieces_ne_nil isBlank cs)
  exact ⟨w, ws.filter (!·.isEmpty), by simp [wordChars, pieces, hc, h]⟩

/-! ### Columns -/

/-- One character or more, none of which is blank. -/
def IsWord (w : List Char) : Prop := w ≠ [] ∧ ∀ c ∈ w, isBlank c = false

instance : DecidablePred IsWord := fun w ↦
  decidable_of_iff (w ≠ [] ∧ w.all (!isBlank ·) = true) (by simp [IsWord])

/-- Words in a line with one space or more between any two. -/
inductive Columns : List (List Char) → List Char → Prop
  | last (w : List Char) : Columns [w] w
  | next {w line : List Char} {ws : List (List Char)} (spaces : Nat) (hrest : Columns ws line) :
      Columns (w :: ws) (w ++ (List.replicate (spaces + 1) ' ' ++ line))

theorem IsWord.wordChars (h : IsWord w) : wordChars w = [w] := by
  rw [Text.wordChars, pieces_of_forall h.2]
  simp [h.1]

theorem wordChars_replicate_append (spaces : Nat) (cs : List Char) :
    wordChars (List.replicate spaces ' ' ++ cs) = wordChars cs := by
  induction spaces with
  | zero => rfl
  | succ spaces ih => rw [List.replicate_succ, List.cons_append, wordChars_cons_of_blank rfl, ih]

/-- A line of words with spaces between them is cut into these words. -/
theorem wordChars_of_columns (h : Columns ws line) (hws : ∀ w ∈ ws, IsWord w) :
    wordChars line = ws := by
  induction h with
  | last w => exact (hws w List.mem_cons_self).wordChars
  | @next w line ws spaces _ ih =>
    obtain ⟨hw, hws⟩ := List.forall_mem_cons.1 hws
    have hplain : w.all (!isBlank ·) = true :=
      List.all_eq_true.2 fun d hd ↦ (Bool.not_eq_true' _).mpr (hw.2 d hd)
    rw [List.replicate_succ, List.cons_append, wordChars_append hw.1 hplain rfl,
      wordChars_replicate_append, ih hws]

/-- In a line of words nothing is blank but the spaces. -/
theorem Columns.eq_space_or (h : Columns ws line) (hws : ∀ w ∈ ws, IsWord w) :
    ∀ c ∈ line, c = ' ' ∨ isBlank c = false := by
  induction h with
  | last w => exact fun c hc ↦ .inr ((hws w List.mem_cons_self).2 c hc)
  | next _ _ ih =>
    obtain ⟨hw, hws⟩ := List.forall_mem_cons.1 hws
    rw [List.forall_mem_append, List.forall_mem_append]
    exact ⟨fun c hc ↦ .inr (hw.2 c hc), fun c hc ↦ .inl (List.eq_of_mem_replicate hc), ih hws⟩

theorem Columns.ne_nil (h : Columns ws line) (hws : ∀ w ∈ ws, IsWord w) : line ≠ [] := by
  cases h with
  | last => exact (hws _ List.mem_cons_self).1
  | next => exact List.append_ne_nil_of_left_ne_nil (hws _ List.mem_cons_self).1 _

/-! ### Lines -/

/-- Lines in a text with a line feed after each, which the last one may lack. -/
inductive Lined : List (List Char) → List Char → Prop
  | ended (l : List Char) : Lined [l] (l ++ ['\n'])
  | unended (l : List Char) : Lined [l] l
  | next {l cs : List Char} {ls : List (List Char)} (hrest : Lined ls cs) :
      Lined (l :: ls) (l ++ '\n' :: cs)

theorem pieces_of_notMem (h : '\n' ∉ l) : pieces (· == '\n') l = [l] :=
  pieces_of_forall fun _ hc ↦ beq_eq_false_iff_ne.2 fun heq ↦ h (heq ▸ hc)

/-- A line feed ends the first line. -/
theorem lines_append (h : '\n' ∉ l) (cs : List Char) :
    lines (String.ofList (l ++ '\n' :: cs)) = dropReturn l :: lines (String.ofList cs) := by
  have hplain : ∀ c ∈ l, (c == '\n') = false := fun _ hc ↦
    beq_eq_false_iff_ne.2 fun heq ↦ h (heq ▸ hc)
  obtain ⟨earlier, last, hpieces⟩ :=
    (List.eq_nil_or_concat' _).resolve_left (pieces_ne_nil (· == '\n') cs)
  rw [lines, lines, String.toList_ofList, String.toList_ofList, pieces_append hplain rfl, hpieces]
  simp

theorem lines_of_notMem (h : '\n' ∉ l) :
    lines (String.ofList l) = if l.isEmpty then [] else [l] := by
  rw [lines, String.toList_ofList, pieces_of_notMem h]
  rfl

theorem dropReturn_of_notMem (h : '\r' ∉ l) : dropReturn l = l :=
  if_neg fun hlast ↦ h (List.mem_of_getLast? hlast)

/-- A text is cut into its lines, if none of them is empty or contains a line end. -/
theorem lines_of_lined (h : Lined ls cs)
    (hls : ∀ l ∈ ls, l ≠ [] ∧ '\n' ∉ l ∧ '\r' ∉ l) : lines (String.ofList cs) = ls := by
  induction h with
  | ended l =>
    obtain ⟨-, hfeed, hreturn⟩ := hls l List.mem_cons_self
    rw [lines_append hfeed, dropReturn_of_notMem hreturn]
    rfl
  | unended l =>
    obtain ⟨hne, hfeed, -⟩ := hls l List.mem_cons_self
    rw [lines_of_notMem hfeed, if_neg (mt List.isEmpty_iff.1 hne)]
  | next _ ih =>
    obtain ⟨⟨-, hfeed, hreturn⟩, hls⟩ := List.forall_mem_cons.1 hls
    rw [lines_append hfeed, dropReturn_of_notMem hreturn, ih hls]

/-- After the first line of a text, whatever it is, come the others. -/
theorem drop_lines_of_lined (h : Lined (heading :: ls) cs) (hheading : '\n' ∉ heading)
    (hls : ∀ l ∈ ls, l ≠ [] ∧ '\n' ∉ l ∧ '\r' ∉ l) :
    (lines (String.ofList cs)).drop 1 = ls := by
  cases h with
  | ended => rw [lines_append hheading, List.drop_one, List.tail_cons]; rfl
  | unended =>
    rw [lines_of_notMem hheading]
    split <;> rfl
  | next hrest =>
    rw [lines_append hheading, List.drop_one, List.tail_cons, lines_of_lined hrest hls]

end Switchyard.Text
