import Mathlib.Logic.Function.Iterate
import Switchyard.Proofs.Command.StatusText

/-!
# Statuses that are read back

A status comes back from its line of text as it was if nothing in its reason or note can be taken
for something else: no blanks around it, an error that does not begin with the words of a
cancellation, a note without parentheses at its ends. A status of any other form comes back with
less, and an error may come back as a cancellation; but what is new, pending, a success or done
stays so.

What was read from a line of text mostly has this form already. There are two exceptions, both of
commands that are done. A text that begins with the words of a cancellation without the mark of an
error in front is an error, and on the next trip it is read as the cancellation. And a note from
which blanks and parentheses were taken may begin or end with a parenthesis again, which is lost
next time. Every trip takes something off such a status, so it comes to rest.

## Main definitions

* `Status.Legible` : the statuses that are read back.
* `Status.isParenthesized` : the notes that begin or end like one in parentheses.
* `Status.ReadFrom` : what may be read from a text.
* `Status.carried` : a status after one trip over the wire.
* `Status.weight` : how much a trip can still take off.

## Main results

* `Status.parse_text_cancelled_some` : what becomes of a note.
* `Status.parse_text_eq_self_iff` : exactly the legible statuses are read back.
* `Status.kept_on_wire` : this, and what is kept of every status.
* `Status.legible_parse_iff` : when what was read is read back.
* `Status.weight_carried_lt` : a trip takes something off every status that is not legible.
* `Status.parse_comes_to_rest` : how a status that was read comes to rest.
-/

namespace Switchyard.Status

open Text

variable {s : Status} {t reason note : String} {cs rest : List Char}

/-! ### Notes -/

/-- The note of a cancellation after one trip: without parentheses at its ends, and then without
blanks there. -/
def bare (cs : List Char) : List Char :=
  trimChars (dropEndWhile (· == ')') (cs.dropWhile (· == '(')))

/-- The cancellation with a note, or without one if there is nothing in it. -/
def noted (cs : List Char) : Status :=
  .cancelled (if cs.isEmpty then none else some (String.ofList cs))

theorem noted_of_ne_nil (h : cs ≠ []) : noted cs = .cancelled (some (String.ofList cs)) := by
  rw [noted, if_neg (by simpa using h)]

theorem bare_sublist (cs : List Char) : (bare cs).Sublist cs :=
  ((trimChars_sublist _).trans (dropEndWhile_sublist _ _)).trans (List.dropWhile_sublist _)

/-- A note stays as it is if it has neither blanks nor parentheses at its ends. -/
theorem bare_eq_self_iff : bare cs = cs ↔
    trimChars cs = cs ∧ cs.head? ≠ some '(' ∧ cs.getLast? ≠ some ')' := by
  rw [← dropWhile_beq_eq_self_iff, ← dropEndWhile_beq_eq_self_iff]
  constructor
  · intro h
    -- each of the three steps only takes something off, so none of them does
    have hopen : cs.dropWhile (· == '(') = cs := by
      refine (List.dropWhile_sublist _).antisymm ?_
      conv_lhs => rw [← h]
      exact (trimChars_sublist _).trans (dropEndWhile_sublist _ _)
    rw [bare, hopen] at h
    have hclose : dropEndWhile (· == ')') cs = cs := by
      refine (dropEndWhile_sublist _ _).antisymm ?_
      conv_lhs => rw [← h]
      exact trimChars_sublist _
    rw [hclose] at h
    exact ⟨h, hopen, hclose⟩
  · rintro ⟨htrim, hopen, hclose⟩
    rw [bare, hopen, hclose, htrim]

/-- The parentheses that are written around a note are taken off with those that it has. -/
theorem noteIn_parenthesized (cs : List Char) : noteIn (' ' :: '(' :: (cs ++ [')'])) = bare cs := by
  have htrim : trimChars ('(' :: (cs ++ [')'])) = '(' :: (cs ++ [')']) :=
    trimChars_prefix_append (by decide) (by decide) cs []
  have hopen : ('(' :: (cs ++ [')'])).dropWhile (· == '(') =
      cs.dropWhile (· == '(') ++ [')'] := by
    rw [List.dropWhile_cons_of_pos (by decide), List.dropWhile_append]
    split
    next h => rw [List.isEmpty_iff.1 h]; rfl
    next => rfl
  have hclose : dropEndWhile (· == ')') (cs.dropWhile (· == '(') ++ [')']) =
      dropEndWhile (· == ')') (cs.dropWhile (· == '(')) :=
    List.rdropWhile_concat_pos _ _ _ (by decide)
  rw [noteIn, trimChars_cons_of_blank (by decide), htrim,
    List.dropWhile_cons_of_neg (by decide), htrim, hopen, hclose, bare]

/-! ### One trip -/

theorem ofReason_of_unmarked (h : ¬cancelledText.toList <+: cs) :
    ofReason cs = .error (String.ofList cs) := by
  rw [ofReason, after?_eq_none_iff.2 h]

theorem ofReason_append (rest : List Char) :
    ofReason (cancelledText.toList ++ rest) = noted (noteIn rest) := by
  rw [ofReason, after?_append]
  rfl

theorem parse_text_cancelled_none : parse (cancelled none).text = .cancelled none := by decide

theorem parse_text_cancelled_some (note : String) :
    parse (cancelled (some note)).text = noted (bare note.toList) := by
  have htext : (cancelledText ++ (" (" ++ (note ++ ")"))).toList =
      cancelledText.toList ++ (' ' :: '(' :: (note.toList ++ [')'])) := by
    simp [String.toList_append]
  have htrim : trimChars (cancelledText.toList ++ (' ' :: '(' :: (note.toList ++ [')']))) =
      cancelledText.toList ++ (' ' :: '(' :: (note.toList ++ [')'])) := by
    have h := trimChars_prefix_append (a := 'c') (b := ')') (by decide) (by decide)
      ("ancelled, too many retries (".toList ++ note.toList) []
    simpa [cancelledText, dropEndWhile] using h
  rw [text, String.append_assoc, String.append_assoc, String.append_assoc, parse_error_mark,
    htext, htrim, ofReason_append, noteIn_parenthesized]

/-! ### Legible statuses -/

/-- The statuses that are read back: those without a reason or note, and those whose reason or note
has no blanks around it and cannot be taken for something else. -/
def Legible : Status → Prop
  | .new | .ok | .cancelled none => True
  | .pending reason => trim reason = reason
  | .error reason => trim reason = reason ∧ ¬cancelledText.toList <+: reason.toList
  | .cancelled (some note) =>
    note ≠ "" ∧ trim note = note ∧ note.toList.head? ≠ some '(' ∧ note.toList.getLast? ≠ some ')'

theorem parse_text_pending_eq_self_iff :
    parse (pending reason).text = .pending reason ↔ trim reason = reason := by
  rw [parse_text_pending, Status.pending.injEq]

theorem parse_text_error_eq_self_iff : parse (error reason).text = .error reason ↔
    trim reason = reason ∧ ¬cancelledText.toList <+: reason.toList := by
  rw [parse_text_error]
  constructor
  · intro h
    have hplain : ¬cancelledText.toList <+: trimChars reason.toList := by
      rintro ⟨rest, hrest⟩
      rw [← hrest, ofReason_append] at h
      cases h
    rw [ofReason_of_unmarked hplain] at h
    have htrim : trim reason = reason := Status.error.inj h
    exact ⟨htrim, trim_eq_self_iff.1 htrim ▸ hplain⟩
  · rintro ⟨htrim, hplain⟩
    rw [trim_eq_self_iff.1 htrim, ofReason_of_unmarked hplain, String.ofList_toList]

theorem noted_eq_cancelled_some_iff :
    noted cs = .cancelled (some note) ↔ note ≠ "" ∧ cs = note.toList := by
  rw [noted, Status.cancelled.injEq]
  constructor
  · intro h
    split at h
    next => cases h
    next hne =>
      obtain rfl := Option.some.inj h
      exact ⟨by simpa using hne, String.toList_ofList.symm⟩
  · rintro ⟨hne, rfl⟩
    rw [if_neg (by simpa using hne), String.ofList_toList]

theorem parse_text_cancelled_eq_self_iff :
    parse (cancelled (some note)).text = .cancelled (some note) ↔ note ≠ "" ∧
      trim note = note ∧ note.toList.head? ≠ some '(' ∧ note.toList.getLast? ≠ some ')' := by
  rw [parse_text_cancelled_some, noted_eq_cancelled_some_iff, bare_eq_self_iff, trim_eq_self_iff]

/-- Exactly the legible statuses are read back. -/
theorem parse_text_eq_self_iff (s : Status) : parse s.text = s ↔ s.Legible := by
  cases s with
  | new => exact iff_of_true parse_text_new trivial
  | pending reason => exact parse_text_pending_eq_self_iff
  | ok => exact iff_of_true parse_text_ok trivial
  | error reason => exact parse_text_error_eq_self_iff
  | cancelled note =>
    cases note with
    | none => exact iff_of_true parse_text_cancelled_none trivial
    | some note => exact parse_text_cancelled_eq_self_iff

theorem isPending_iff : s.isPending = true ↔ ∃ reason, s = .pending reason := by
  cases s <;> simp [isPending]

theorem parse_text_eq_ok_iff (s : Status) : parse s.text = .ok ↔ s = .ok := by
  constructor
  · intro h
    cases s with
    | new => rw [parse_text_new] at h; cases h
    | pending reason => rw [parse_text_pending] at h; cases h
    | ok => rfl
    | error reason =>
      rw [parse_text_error, ofReason] at h
      split at h <;> cases h
    | cancelled note =>
      cases note with
      | none => rw [parse_text_cancelled_none] at h; cases h
      | some note => rw [parse_text_cancelled_some] at h; cases h
  · rintro rfl
    exact parse_text_ok

/-- A status that is written and read again is new, pending, a success or done if and only if it
was so before, and it is the same if and only if it is legible. -/
theorem kept_on_wire (s : Status) :
    (parse s.text = .new ↔ s = .new) ∧
    ((∃ reason, parse s.text = .pending reason) ↔ ∃ reason, s = .pending reason) ∧
    (parse s.text = .ok ↔ s = .ok) ∧
    ((parse s.text).isTerminal = true ↔ s.isTerminal = true) ∧
    (parse s.text = s ↔ s.Legible) := by
  refine ⟨parse_text_eq_new_iff s, ?_, parse_text_eq_ok_iff s, ?_, parse_text_eq_self_iff s⟩
  · rw [← isPending_iff, ← isPending_iff, isPending_parse_text]
  · rw [isTerminal_parse_text]

/-! ### What is read -/

/-- Whether a cancellation has a note that begins or ends like one in parentheses. -/
def isParenthesized : Status → Bool
  | .new | .pending _ | .ok | .error _ | .cancelled none => false
  | .cancelled (some note) => note.toList.head? == some '(' || note.toList.getLast? == some ')'

/-- What may be read from characters without blanks at their ends. A reason or note has no such
blanks either and is not longer. An error that begins with the words of a cancellation is all that
was written. -/
inductive ReadFrom (cs : List Char) : Status → Prop
  | new : ReadFrom cs .new
  | pending {rest : List Char} (htrim : trimChars rest = rest) (hle : rest.length ≤ cs.length) :
      ReadFrom cs (.pending (String.ofList rest))
  | ok : ReadFrom cs .ok
  | error {rest : List Char} (htrim : trimChars rest = rest) (hle : rest.length ≤ cs.length)
      (hwhole : cancelledText.toList <+: rest → rest = cs) :
      ReadFrom cs (.error (String.ofList rest))
  | noted {rest : List Char} (htrim : trimChars rest = rest) (hlt : rest.length < cs.length) :
      ReadFrom cs (noted rest)

theorem noteIn_sublist (cs : List Char) : (noteIn cs).Sublist cs :=
  (bare_sublist _).trans
    ((trimChars_sublist _).trans ((List.dropWhile_sublist _).trans (trimChars_sublist _)))

theorem trimChars_noteIn (cs : List Char) : trimChars (noteIn cs) = noteIn cs :=
  trimChars_trimChars _

theorem readFrom_ofReason (htrim : trimChars rest = rest) (hlt : rest.length < cs.length) :
    ReadFrom cs (ofReason rest) := by
  by_cases hwords : cancelledText.toList <+: rest
  · obtain ⟨note, rfl⟩ := hwords
    rw [ofReason_append]
    refine .noted (trimChars_noteIn note) ?_
    have hle := (noteIn_sublist note).length_le
    rw [List.length_append] at hlt
    omega
  · rw [ofReason_of_unmarked hwords]
    exact .error htrim hlt.le fun h ↦ absurd h hwords

theorem readFrom_parse (t : String) : ReadFrom (trimChars t.toList) (parse t) := by
  have htrim := trimChars_trimChars t.toList
  rw [parse]
  generalize trimChars t.toList = cs at htrim
  rw [ofTrimmed]
  split_ifs
  · exact .new
  · exact .ok
  · cases hpending : after? "pending:".toList cs with
    | some rest =>
      obtain rfl := after?_eq_some_iff.1 hpending
      refine .pending (trimChars_trimChars rest) ((length_trimChars_le rest).trans ?_)
      rw [List.length_append]
      exact Nat.le_add_left ..
    | none =>
      cases herror : after? "error:".toList cs with
      | none => exact .error htrim le_rfl fun _ ↦ rfl
      | some rest =>
        obtain rfl := after?_eq_some_iff.1 herror
        refine readFrom_ofReason (trimChars_trimChars rest) ?_
        have hle := length_trimChars_le rest
        rw [List.length_append]
        have hmark : 0 < "error:".toList.length := by decide
        omega

/-- A text that begins with the words of a cancellation is an error. -/
theorem parse_of_words (h : cancelledText.toList <+: trimChars t.toList) :
    parse t = .error (trim t) := by
  obtain ⟨rest, hrest⟩ := h
  have hpending : after? "pending:".toList (cancelledText.toList ++ rest) = none := by
    simp [after?, cancelledText, List.isPrefixOf]
  have herror : after? "error:".toList (cancelledText.toList ++ rest) = none := by
    simp [after?, cancelledText, List.isPrefixOf]
  rw [parse, trim, ← hrest, ofTrimmed, if_neg (by simp [cancelledText]),
    if_neg (by simp [cancelledText]), hpending, herror]

theorem isParenthesized_cancelled_some (note : String) :
    (cancelled (some note)).isParenthesized = false ↔
      note.toList.head? ≠ some '(' ∧ note.toList.getLast? ≠ some ')' := by
  rw [isParenthesized, Bool.or_eq_false_iff, beq_eq_false_iff_ne, beq_eq_false_iff_ne]

theorem legible_noted_iff (htrim : trimChars rest = rest) :
    (noted rest).Legible ↔ (noted rest).isParenthesized = false := by
  by_cases hne : rest = []
  · subst hne
    exact iff_of_true trivial rfl
  · rw [noted_of_ne_nil hne, isParenthesized_cancelled_some, Legible,
      and_iff_right (by simpa using hne), and_iff_right (trim_ofList htrim)]

theorem legible_error_ofList (htrim : trimChars rest = rest)
    (hplain : ¬cancelledText.toList <+: rest) : (error (String.ofList rest)).Legible :=
  ⟨trim_ofList htrim, by rwa [String.toList_ofList]⟩

/-- What was read is read back unless it is a text that begins with the words of a cancellation, or
a cancellation whose note is parenthesized. -/
theorem legible_parse_iff (t : String) : (parse t).Legible ↔
    ¬cancelledText.toList <+: (trim t).toList ∧ (parse t).isParenthesized = false := by
  rw [trim, String.toList_ofList]
  by_cases hwords : cancelledText.toList <+: trimChars t.toList
  · refine iff_of_false ?_ fun h ↦ h.1 hwords
    rw [parse_of_words hwords]
    intro h
    exact h.2 (by rwa [trim, String.toList_ofList])
  · rw [and_iff_right hwords]
    have hread := readFrom_parse t
    generalize parse t = s at hread
    cases hread with
    | new => exact iff_of_true trivial rfl
    | pending htrim _ => exact iff_of_true (trim_ofList htrim) rfl
    | ok => exact iff_of_true trivial rfl
    | error htrim _ hwhole =>
      exact iff_of_true (legible_error_ofList htrim fun h ↦ hwords (hwhole h ▸ h)) rfl
    | noted htrim _ => exact legible_noted_iff htrim

/-- Only what is done is not read back, and it comes back as a cancellation. -/
theorem cancelled_of_not_legible_parse (h : ¬(parse t).Legible) :
    (parse t).isTerminal = true ∧ ∃ note, parse (parse t).text = .cancelled note := by
  have hread := readFrom_parse t
  generalize parse t = s at hread h
  cases hread with
  | new => exact absurd trivial h
  | pending htrim _ => exact absurd (trim_ofList htrim) h
  | ok => exact absurd trivial h
  | @error reason htrim _ _ =>
    refine ⟨rfl, ?_⟩
    rw [parse_text_error, String.toList_ofList, htrim]
    by_cases hwords : cancelledText.toList <+: reason
    · obtain ⟨note, rfl⟩ := hwords
      exact ⟨_, ofReason_append note⟩
    · exact absurd (legible_error_ofList htrim hwords) h
  | @noted note htrim _ =>
    refine ⟨rfl, ?_⟩
    by_cases hne : note = []
    · subst hne
      exact ⟨none, parse_text_cancelled_none⟩
    · rw [noted_of_ne_nil hne, parse_text_cancelled_some]
      exact ⟨_, rfl⟩

/-! ### Coming to rest -/

/-- The status after one trip over the wire. -/
def carried (s : Status) : Status := parse s.text

/-- How much a trip can still take off. -/
def weight : Status → Nat
  | .new | .ok | .cancelled none => 0
  | .pending reason | .error reason => reason.length
  | .cancelled (some note) => note.length + 1

theorem weight_noted_le (cs : List Char) : (noted cs).weight ≤ cs.length + 1 := by
  by_cases hne : cs = []
  · subst hne
    exact Nat.zero_le _
  · rw [noted_of_ne_nil hne, weight, String.length_ofList]

theorem weight_carried_error_lt (h : ¬(error reason).Legible) :
    (error reason).carried.weight < (error reason).weight := by
  rw [carried, parse_text_error]
  by_cases hwords : cancelledText.toList <+: trimChars reason.toList
  · obtain ⟨rest, hrest⟩ := hwords
    have hlen := length_trimChars_le reason.toList
    have hnote := (noteIn_sublist rest).length_le
    have hweight := weight_noted_le (noteIn rest)
    have hwords : 1 < cancelledText.toList.length := by decide
    rw [← hrest, List.length_append, String.length_toList (s := reason)] at hlen
    rw [← hrest, ofReason_append, weight]
    omega
  · rw [ofReason_of_unmarked hwords]
    refine length_trim_lt fun htrim ↦ h ⟨htrim, ?_⟩
    rwa [← trim_eq_self_iff.1 htrim]

theorem weight_carried_cancelled_lt (h : ¬(cancelled (some note)).Legible) :
    (cancelled (some note)).carried.weight < (cancelled (some note)).weight := by
  rw [carried, parse_text_cancelled_some, weight]
  by_cases hne : bare note.toList = []
  · rw [hne]
    exact Nat.succ_pos _
  · rw [noted_of_ne_nil hne, weight, String.length_ofList, Nat.add_lt_add_iff_right,
      ← String.length_toList]
    refine lt_of_le_of_ne (bare_sublist _).length_le fun hlen ↦ h ?_
    have hself := (bare_sublist note.toList).eq_of_length hlen
    refine parse_text_cancelled_eq_self_iff.1 ?_
    rw [parse_text_cancelled_some, hself, noted_of_ne_nil (hself ▸ hne), String.ofList_toList]

/-- A trip takes something off every status that is not legible. -/
theorem weight_carried_lt (h : ¬s.Legible) : s.carried.weight < s.weight := by
  cases s with
  | new => exact absurd trivial h
  | pending reason =>
    rw [carried, parse_text_pending]
    exact length_trim_lt h
  | ok => exact absurd trivial h
  | error reason => exact weight_carried_error_lt h
  | cancelled note =>
    cases note with
    | none => exact absurd trivial h
    | some note => exact weight_carried_cancelled_lt h

/-- After as many trips as can take something off a status is legible. -/
theorem legible_iterate_carried {n : Nat} (h : s.weight ≤ n) : (carried^[n] s).Legible := by
  induction n generalizing s with
  | zero =>
    by_contra hnot
    have hlt : s.carried.weight < s.weight := weight_carried_lt hnot
    omega
  | succ n ih =>
    by_cases hs : s.Legible
    · have hfixed : s.carried = s := (parse_text_eq_self_iff s).2 hs
      rwa [Function.iterate_fixed hfixed]
    · have hlt := weight_carried_lt hs
      exact ih (by omega)

theorem weight_parse_le (t : String) : (parse t).weight ≤ t.length := by
  have hle := length_trimChars_le t.toList
  rw [String.length_toList] at hle
  have hread := readFrom_parse t
  generalize parse t = s at hread
  cases hread with
  | new => exact Nat.zero_le _
  | pending _ hrest =>
    rw [weight, String.length_ofList]
    exact hrest.trans hle
  | ok => exact Nat.zero_le _
  | error _ hrest _ =>
    rw [weight, String.length_ofList]
    exact hrest.trans hle
  | noted _ hrest => exact (weight_noted_le _).trans ((Nat.succ_le_of_lt hrest).trans hle)

/-- A status that was read is the same after another trip if and only if the text did not begin
with the words of a cancellation and the status has no parenthesized note. Otherwise it is done and
becomes a cancellation. In any case no trip changes it any more after as many trips as the text has
characters. -/
theorem parse_comes_to_rest (t : String) :
    (parse (parse t).text = parse t ↔
      ¬cancelledText.toList <+: (trim t).toList ∧ (parse t).isParenthesized = false) ∧
    (parse (parse t).text = parse t ∨
      (parse t).isTerminal = true ∧ ∃ note, parse (parse t).text = .cancelled note) ∧
    ∀ k, carried^[t.length + k] (parse t) = carried^[t.length] (parse t) := by
  refine ⟨(parse_text_eq_self_iff _).trans (legible_parse_iff t), ?_, fun k ↦ ?_⟩
  · rw [parse_text_eq_self_iff]
    exact or_iff_not_imp_left.2 cancelled_of_not_legible_parse
  · rw [Nat.add_comm, Function.iterate_add_apply]
    refine Function.iterate_fixed ?_ k
    exact (parse_text_eq_self_iff _).2 (legible_iterate_carried (weight_parse_le t))

/-- A blank between two parentheses hides the inner one for one trip. -/
example : parse "error: cancelled, too many retries ( (locked" = .cancelled (some "(locked") ∧
    parse (cancelled (some "(locked")).text = .cancelled (some "locked") := by decide

/-- Without the mark of an error the words of a cancellation are an error, which is read as the
cancellation. -/
theorem not_forall_parse_at_rest : ¬∀ t : String, parse (parse t).text = parse t := by
  intro h
  exact absurd (h "cancelled, too many retries") (by decide)

end Switchyard.Status
