import Switchyard.Command.Status
import Switchyard.Proofs.Text.Trimming

/-!
# Statuses across the wire

A status that is written and read again stays of its kind: what is new comes back new, what is
pending comes back pending, and what is done comes back done. Only the blanks around a reason are
lost, and they are lost once.

## Main results

* `Status.parse_text_pending`, `Status.parse_text_error` : what becomes of a reason.
* `Status.isTerminal_parse_text`, `Status.isPending_parse_text`, `Status.parse_text_eq_new_iff` :
  the kinds are kept.
* `Status.parse_text_parse` : a pending status that was read once is read back unchanged.
-/

namespace Switchyard.Status

open Switchyard.Text

/-- What follows a mark `word:` and a space is read without the blanks around it. -/
private theorem trimChars_marked {a : Char} (ha : isBlank a = false) (mid cs : List Char) :
    trimChars (a :: (mid ++ ':' :: ' ' :: cs)) =
      (a :: (mid ++ [':'])) ++ dropEndWhile isBlank (' ' :: cs) := by
  rw [trimChars_prefix_append ha (by decide)]
  simp

private theorem trimChars_dropEndWhile_space (cs : List Char) :
    trimChars (dropEndWhile isBlank (' ' :: cs)) = trimChars cs := by
  rw [trimChars_dropEndWhile, trimChars_cons_of_blank (by decide)]

theorem parse_text_pending (reason : String) :
    parse (pending reason).text = .pending (trim reason) := by
  have htext : (pending reason).text.toList =
      'p' :: (['e', 'n', 'd', 'i', 'n', 'g'] ++ ':' :: ' ' :: reason.toList) := by
    simp [text, String.toList_append]
  have hafter := after?_append "pending:".toList (dropEndWhile isBlank (' ' :: reason.toList))
  rw [parse, htext, trimChars_marked (by decide)]
  change ofTrimmed ("pending:".toList ++ _) = _
  rw [ofTrimmed, if_neg (by simp), if_neg (by simp), hafter]
  simp only [trimChars_dropEndWhile_space]
  rfl

/-- A text that begins with the mark of an error is read by what follows the mark. -/
theorem parse_error_mark (reason : String) :
    parse ("error: " ++ reason) = ofReason (trimChars reason.toList) := by
  have htext : ("error: " ++ reason).toList =
      'e' :: (['r', 'r', 'o', 'r'] ++ ':' :: ' ' :: reason.toList) := by
    simp [String.toList_append]
  have hafter := after?_append "error:".toList (dropEndWhile isBlank (' ' :: reason.toList))
  rw [parse, htext, trimChars_marked (by decide)]
  change ofTrimmed ("error:".toList ++ _) = _
  have hpending : after? "pending:".toList
      ("error:".toList ++ dropEndWhile isBlank (' ' :: reason.toList)) = none := by
    simp [after?, List.isPrefixOf]
  rw [ofTrimmed, if_neg (by simp), if_neg (by simp), hpending]
  simp only [hafter, trimChars_dropEndWhile_space]

theorem parse_text_error (reason : String) :
    parse (error reason).text = ofReason (trimChars reason.toList) :=
  parse_error_mark reason

theorem isTerminal_ofReason (cs : List Char) : (ofReason cs).isTerminal = true := by
  rw [ofReason]
  split <;> rfl

theorem parse_text_ok : parse ok.text = .ok := by decide

theorem parse_text_new : parse new.text = .new := by decide

theorem isTerminal_parse_text_cancelled (note : Option String) :
    (parse (cancelled note).text).isTerminal = true := by
  cases note with
  | none =>
    rw [text, parse_error_mark, isTerminal_ofReason]
  | some note =>
    rw [text, String.append_assoc, String.append_assoc, String.append_assoc, parse_error_mark,
      isTerminal_ofReason]

@[simp] theorem isTerminal_parse_text (s : Status) :
    (parse s.text).isTerminal = s.isTerminal := by
  cases s with
  | new => rw [parse_text_new]
  | pending reason => rw [parse_text_pending]; rfl
  | ok => rw [parse_text_ok]
  | error reason => rw [parse_text_error, isTerminal_ofReason]; rfl
  | cancelled note => rw [isTerminal_parse_text_cancelled]; rfl

@[simp] theorem isRunnable_parse_text (s : Status) :
    (parse s.text).isRunnable = s.isRunnable := by
  simp [isRunnable]

theorem isRunnable_iff {s : Status} : s.isRunnable = true ↔ s.isTerminal = false := by
  rw [isRunnable, Bool.not_eq_true']

theorem not_isRunnable_of_isTerminal {s : Status} (h : s.isTerminal = true) :
    ¬s.isRunnable = true := by
  rw [isRunnable_iff, h]
  exact Bool.noConfusion

theorem isPending_of_isTerminal {s : Status} (h : s.isTerminal = true) : s.isPending = false := by
  cases s <;> simp_all [isTerminal, isPending]

theorem isRunnable_of_isPending {s : Status} (h : s.isPending = true) : s.isRunnable = true := by
  rw [isRunnable_iff, ← Bool.not_eq_true]
  intro hdone
  rw [isPending_of_isTerminal hdone] at h
  cases h

@[simp] theorem isPending_parse_text (s : Status) :
    (parse s.text).isPending = s.isPending := by
  cases s with
  | new => rw [parse_text_new]
  | pending reason => rw [parse_text_pending]; rfl
  | ok => rw [parse_text_ok]
  | error reason =>
    rw [parse_text_error, isPending_of_isTerminal (isTerminal_ofReason _)]; rfl
  | cancelled note =>
    rw [isPending_of_isTerminal (isTerminal_parse_text_cancelled note)]; rfl

theorem eq_new_iff (s : Status) : s = .new ↔ s.isTerminal = false ∧ s.isPending = false := by
  cases s <;> simp [isTerminal, isPending]

@[simp] theorem parse_text_eq_new_iff (s : Status) : parse s.text = .new ↔ s = .new := by
  simp [eq_new_iff]

/-- A pending status that was read has a trimmed reason, so it is read back unchanged. -/
theorem parse_text_parse {s : String} (h : (parse s).isRunnable = true) :
    parse (parse s).text = parse s := by
  have hcases : parse s = .new ∨ ∃ cs, parse s = .pending (String.ofList (trimChars cs)) := by
    simp only [isRunnable, Bool.not_eq_true'] at h
    unfold parse ofTrimmed at h ⊢
    split_ifs at h ⊢ with h₁ h₂
    · exact Or.inl rfl
    · simp [isTerminal] at h
    · split at h
      next rest _ => exact Or.inr ⟨rest, rfl⟩
      next =>
        split at h
        next => simp [isTerminal_ofReason] at h
        next => simp [isTerminal] at h
  rcases hcases with h | ⟨cs, h⟩
  · rw [h, parse_text_new]
  · rw [h, parse_text_pending, trim, String.toList_ofList, trimChars_trimChars]

end Switchyard.Status
