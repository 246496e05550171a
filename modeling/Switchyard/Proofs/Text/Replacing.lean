import Mathlib.Data.List.Infix
import Switchyard.Text.Cut

/-!
# Replacing a marked text

A text whose first character does not occur in it again cannot overlap with itself. So replacing it
goes from one occurrence to the next: what stands between two of them is replaced on its own, and it
stays as it is exactly if the text does not occur in it, or is replaced by itself.

## Main results

* `replace_append` : replacing goes on behind an occurrence.
* `replace_eq_self_iff` : when nothing is replaced.
* `replace_intercalate_eq_iff` : when only the occurrences between given texts are replaced.
* `exists_runs` : every list is made of the runs between the occurrences of one member.
-/

namespace Switchyard.Text

variable {o : Char} {body value target pre rest cs : List Char} {n : Nat}

/-! ### What is replaced -/

/-- The characters that belong to an occurrence are passed over. -/
theorem replaceFrom_append_of_length (target value : List Char) {skipped : List Char}
    (h : skipped.length = n) (rest : List Char) :
    replaceFrom target value n (skipped ++ rest) = replace target value rest := by
  induction skipped generalizing n with
  | nil =>
    obtain rfl : 0 = n := h
    rfl
  | cons c skipped ih =>
    obtain rfl : skipped.length + 1 = n := h
    rw [List.cons_append, replaceFrom, ih rfl]

/-- What begins before an occurrence ends before it. -/
theorem cons_prefix_append_iff (ho : o ∉ body) (hpre : pre ≠ []) (rest : List Char) :
    o :: body <+: pre ++ o :: rest ↔ o :: body <+: pre := by
  refine ⟨fun h ↦ ?_, fun h ↦ h.trans (List.prefix_append _ _)⟩
  rcases List.prefix_or_prefix_of_prefix h (List.prefix_append pre (o :: rest)) with
    hshort | ⟨overlap, hlong⟩
  · exact hshort
  obtain ⟨c, pre, rfl⟩ := List.exists_cons_of_ne_nil hpre
  rw [List.cons_append] at hlong
  obtain ⟨rfl, rfl⟩ := List.cons.inj hlong
  rw [List.cons_append, List.cons_prefix_cons, List.prefix_append_right_inj] at h
  cases overlap with
  | nil => rw [List.append_nil]
  | cons d overlap =>
    obtain ⟨rfl, -⟩ := List.cons_prefix_cons.1 h.2
    exact absurd (List.mem_append_right _ List.mem_cons_self) ho

theorem replaceFrom_zero_cons (o : Char) (body value : List Char) (c : Char) (cs : List Char) :
    replaceFrom (o :: body) value 0 (c :: cs) =
      if o :: body <+: c :: cs then value ++ replaceFrom (o :: body) value body.length cs
      else c :: replaceFrom (o :: body) value 0 cs := by
  simp only [replaceFrom, List.isPrefixOf_iff_prefix, List.length_cons, Nat.add_sub_cancel]

theorem replaceFrom_append (ho : o ∉ body) (value rest : List Char) (hn : n ≤ pre.length) :
    replaceFrom (o :: body) value n (pre ++ o :: (body ++ rest)) =
      replaceFrom (o :: body) value n pre ++ (value ++ replace (o :: body) value rest) := by
  induction pre generalizing n with
  | nil =>
    obtain rfl : n = 0 := Nat.le_zero.1 hn
    have hmark : o :: body <+: o :: (body ++ rest) := List.prefix_append (o :: body) rest
    rw [List.nil_append, replaceFrom_zero_cons, if_pos hmark,
      replaceFrom_append_of_length _ _ rfl]
    rfl
  | cons c pre ih =>
    cases n with
    | succ n => exact ih (Nat.le_of_succ_le_succ hn)
    | zero =>
      have hmark : o :: body <+: c :: (pre ++ o :: (body ++ rest)) ↔ o :: body <+: c :: pre :=
        cons_prefix_append_iff ho (List.cons_ne_nil c pre) _
      simp only [List.cons_append, replaceFrom_zero_cons, hmark]
      split
      next h => rw [ih (Nat.le_of_succ_le_succ h.length_le), List.append_assoc]
      next => rw [ih (Nat.zero_le _), List.cons_append]

/-- Replacing goes on behind an occurrence, and what stands before it is replaced on its own. -/
theorem replace_append (ho : o ∉ body) (value pre rest : List Char) :
    replace (o :: body) value (pre ++ (o :: body ++ rest)) =
      replace (o :: body) value pre ++ (value ++ replace (o :: body) value rest) :=
  replaceFrom_append ho value rest (Nat.zero_le _)

theorem replace_of_not_within (h : ¬target <:+: cs) : replace target value cs = cs := by
  induction cs with
  | nil => rfl
  | cons c cs ih =>
    rw [List.infix_cons_iff, not_or] at h
    rw [replace, replaceFrom, if_neg (mt List.isPrefixOf_iff_prefix.1 h.1)]
    exact congrArg (c :: ·) (ih h.2)

theorem replaceFrom_self (o : Char) (body : List Char) (n : Nat) (cs : List Char) :
    replaceFrom (o :: body) (o :: body) n cs = cs.drop n := by
  induction cs generalizing n with
  | nil => cases n <;> rfl
  | cons c cs ih =>
    cases n with
    | succ n => exact ih n
    | zero =>
      rw [replaceFrom_zero_cons, ih, ih]
      split
      next h =>
        obtain ⟨rfl, rest, rfl⟩ := List.cons_prefix_cons.1 h
        rw [List.drop_left]
        rfl
      next => rfl

/-! ### Lengths -/

theorem le_length_replaceFrom (h : (o :: body).length ≤ value.length) (n : Nat) (cs : List Char) :
    cs.length ≤ (replaceFrom (o :: body) value n cs).length + n := by
  induction cs generalizing n with
  | nil => exact Nat.zero_le _
  | cons c cs ih =>
    cases n with
    | succ n => exact Nat.succ_le_succ (ih n)
    | zero =>
      have hbehind := ih body.length
      rw [replaceFrom_zero_cons]
      split
      next =>
        simp only [List.length_append, List.length_cons] at h ⊢
        omega
      next => exact Nat.succ_le_succ (ih 0)

theorem length_replaceFrom_le (h : value.length ≤ (o :: body).length) (hn : n ≤ cs.length) :
    (replaceFrom (o :: body) value n cs).length + n ≤ cs.length := by
  induction cs generalizing n with
  | nil => simpa [replaceFrom] using hn
  | cons c cs ih =>
    cases n with
    | succ n => exact Nat.succ_le_succ (ih (Nat.le_of_succ_le_succ hn))
    | zero =>
      rw [replaceFrom_zero_cons]
      split
      next hmark =>
        have hbehind := ih (Nat.le_of_succ_le_succ hmark.length_le)
        simp only [List.length_append, List.length_cons] at h ⊢
        omega
      next => exact Nat.succ_le_succ (ih (Nat.zero_le _))

/-- Replacing by a longer text makes no text shorter. -/
theorem length_le_length_replace (h : (o :: body).length ≤ value.length) (cs : List Char) :
    cs.length ≤ (replace (o :: body) value cs).length :=
  le_length_replaceFrom h 0 cs

/-- Replacing by a shorter text makes no text longer. -/
theorem length_replace_le_length (h : value.length ≤ (o :: body).length) (cs : List Char) :
    (replace (o :: body) value cs).length ≤ cs.length :=
  length_replaceFrom_le h (Nat.zero_le _)

/-- Nothing is changed exactly if there is no occurrence, or each is replaced by itself. -/
theorem replace_eq_self_iff (ho : o ∉ body) :
    replace (o :: body) value cs = cs ↔ (o :: body <:+: cs → value = o :: body) := by
  constructor
  · rintro h ⟨pre, rest, rfl⟩
    rw [List.append_assoc, replace_append ho] at h
    have htotal := congrArg List.length h
    simp only [List.length_append] at htotal
    have hlengths : (replace (o :: body) value pre).length = pre.length ∧
        value.length = (o :: body).length := by
      rcases Nat.le_total (o :: body).length value.length with hle | hle
      · have hpre := length_le_length_replace hle pre
        have hrest := length_le_length_replace hle rest
        omega
      · have hpre := length_replace_le_length hle pre
        have hrest := length_replace_le_length hle rest
        omega
    obtain ⟨-, hbehind⟩ := List.append_inj h hlengths.1
    exact (List.append_inj hbehind hlengths.2).1
  · intro h
    by_cases hocc : o :: body <:+: cs
    · rw [h hocc]
      exact replaceFrom_self o body 0 cs
    · exact replace_of_not_within hocc

/-! ### Texts between occurrences -/

section Intercalate

variable {α β : Type}

theorem length_intercalate_map_le {g h : List α → List α}
    (hle : ∀ xs, (g xs).length ≤ (h xs).length) (sep : List α) (xss : List (List α)) :
    (sep.intercalate (xss.map g)).length ≤ (sep.intercalate (xss.map h)).length := by
  induction xss with
  | nil => rfl
  | cons xs xss ih =>
    cases xss with
    | nil => simpa using hle xs
    | cons ys xss =>
      simp only [List.map_cons, List.intercalate_cons_cons, List.length_append] at ih ⊢
      have := hle xs
      omega

/-- Texts of which one is nowhere longer than the other are equal, joined, only one by one. -/
theorem eq_of_intercalate_map_eq {g h : List α → List α}
    (hle : ∀ xs, (g xs).length ≤ (h xs).length) {sep : List α} {xss : List (List α)}
    (heq : sep.intercalate (xss.map g) = sep.intercalate (xss.map h)) :
    ∀ xs ∈ xss, g xs = h xs := by
  induction xss with
  | nil => exact fun _ hxs ↦ by cases hxs
  | cons xs xss ih =>
    cases xss with
    | nil => simpa using heq
    | cons ys xss =>
      simp only [List.map_cons, List.intercalate_cons_cons, List.append_assoc] at heq
      have hrest := length_intercalate_map_le hle sep (ys :: xss)
      simp only [List.map_cons] at hrest
      have hlength := congrArg List.length heq
      simp only [List.length_append] at hlength
      have hxs := hle xs
      obtain ⟨hhead, htail⟩ := List.append_inj heq (by omega)
      exact List.forall_mem_cons.2 ⟨hhead, ih (List.append_cancel_left htail)⟩

theorem flatMap_intercalate (f : α → List β) (sep : List α) (xss : List (List α)) :
    (sep.intercalate xss).flatMap f =
      (sep.flatMap f).intercalate (xss.map (·.flatMap f)) := by
  induction xss with
  | nil => rfl
  | cons xs xss ih =>
    cases xss with
    | nil => simp
    | cons ys xss =>
      simp only [List.map_cons, List.intercalate_cons_cons, List.flatMap_append] at ih ⊢
      rw [ih]

/-- A list is made of the runs between the occurrences of one member. -/
theorem exists_runs (a : α) (as : List α) : ∃ runs : List (List α), runs ≠ [] ∧
    (∀ run ∈ runs, a ∉ run) ∧ as = [a].intercalate runs := by
  induction as with
  | nil => exact ⟨[[]], by simp, by simp, rfl⟩
  | cons b as ih =>
    obtain ⟨runs, hne, hruns, rfl⟩ := ih
    by_cases hb : b = a
    · refine ⟨[] :: runs, by simp, by simpa using hruns, ?_⟩
      rw [List.intercalate_cons_of_ne_nil hne, hb]
      rfl
    · obtain ⟨run, runs, rfl⟩ := List.exists_cons_of_ne_nil hne
      obtain ⟨hrun, hruns⟩ := List.forall_mem_cons.1 hruns
      refine ⟨(b :: run) :: runs, by simp, List.forall_mem_cons.2 ⟨?_, hruns⟩, ?_⟩
      · exact List.not_mem_cons_of_ne_of_not_mem (Ne.symm hb) hrun
      · cases runs <;> simp

/-- A part without the member is part of a run. -/
theorem infix_intercalate_iff {a : α} {part : List α} {runs : List (List α)} (hpart : a ∉ part)
    (hne : part ≠ []) : part <:+: [a].intercalate runs ↔ ∃ run ∈ runs, part <:+: run := by
  have hfront (as : List α) : ¬part <+: a :: as := by
    obtain ⟨b, part, rfl⟩ := List.exists_cons_of_ne_nil hne
    rintro h
    obtain ⟨rfl, -⟩ := List.cons_prefix_cons.1 h
    exact hpart List.mem_cons_self
  induction runs with
  | nil => simp [hne]
  | cons run runs ih =>
    cases runs with
    | nil => simp
    | cons run' runs =>
      have hsplit : [a].intercalate (run :: run' :: runs) =
          run ++ a :: [a].intercalate (run' :: runs) := by
        rw [List.intercalate_cons_cons, List.append_assoc, List.singleton_append]
      simp only [hsplit, List.infix_append_iff, List.infix_cons_iff, ih, hfront, false_or,
        List.exists_mem_cons_iff]
      constructor
      · rintro (h | h | ⟨l, r, rfl, hl, hr⟩)
        · exact .inl h
        · exact .inr h
        · cases r with
          | nil =>
            rw [List.append_nil]
            exact .inl hl.isInfix
          | cons c r =>
            obtain ⟨rfl, -⟩ := List.cons_prefix_cons.1 hr
            exact absurd (List.mem_append_right l List.mem_cons_self) hpart
      · rintro (h | h)
        · exact .inl h
        · exact .inr (.inl h)

end Intercalate

theorem replace_intercalate (ho : o ∉ body) (value : List Char) (texts : List (List Char)) :
    replace (o :: body) value ((o :: body).intercalate texts) =
      value.intercalate (texts.map (replace (o :: body) value)) := by
  induction texts with
  | nil => rfl
  | cons text texts ih =>
    cases texts with
    | nil => simp
    | cons text' texts =>
      rw [List.intercalate_cons_cons, List.append_assoc, replace_append ho, ih]
      simp

/-- Only the occurrences between the texts are replaced exactly if there is no other, or each is
replaced by itself. -/
theorem replace_intercalate_eq_iff (ho : o ∉ body) (texts : List (List Char)) :
    replace (o :: body) value ((o :: body).intercalate texts) = value.intercalate texts ↔
      ∀ text ∈ texts, o :: body <:+: text → value = o :: body := by
  simp only [← replace_eq_self_iff ho, replace_intercalate ho]
  constructor
  · intro h
    have hid : value.intercalate (texts.map (replace (o :: body) value)) =
        value.intercalate (texts.map id) := by rw [h, List.map_id]
    rcases Nat.le_total (o :: body).length value.length with hle | hle
    · exact fun text htext ↦
        (eq_of_intercalate_map_eq (length_le_length_replace hle) hid.symm text htext).symm
    · exact eq_of_intercalate_map_eq (length_replace_le_length hle) hid
  · intro h
    rw [List.map_congr_left h, List.map_id']

end Switchyard.Text
