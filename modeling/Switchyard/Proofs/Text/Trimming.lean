import Mathlib.Data.List.DropRight
import Switchyard.Text.Blank
import Switchyard.Text.Cut

/-!
# Trimming and cutting

A trimmed list is a middle part of the list it comes from: only blanks are lost at either end, and
a character that is not blank is kept with everything between it and the next such character. So
a known beginning without a blank at either end survives trimming, and trimming twice is trimming
once.

## Main results

* `trimChars_trimChars` : trimming is idempotent.
* `trimChars_eq_nil_iff` : only blank lists are trimmed to nothing.
* `trimChars_prefix_append` : a beginning between two characters that are not blank is kept.
* `trimChars_surrounded` : what has no blanks is left of it with blanks around.
* `exists_trimChars` : what is trimmed off is blank.
* `trim_eq_self_iff`, `length_trim_lt` : a text is trimmed already, or becomes shorter.
* `after?_eq_some_iff`, `cutAt_append`, `cutAt_eq_some_iff` : what the two cuts find.
* `pieces_append`, `mem_of_mem_intercalate` : pieces that are cut off and pieces that are joined.
-/

namespace Switchyard.Text

variable {c sep : Char} {cs pre rest : List Char}

/-! ### Trimming -/

theorem dropEndWhile_eq_rdropWhile (p : Char → Bool) (cs : List Char) :
    dropEndWhile p cs = cs.rdropWhile p := rfl

theorem dropEndWhile_append_cons {p : Char → Bool} (hc : p c = false) (pre rest : List Char) :
    dropEndWhile p (pre ++ c :: rest) = pre ++ c :: dropEndWhile p rest := by
  simp only [dropEndWhile, List.reverse_append, List.reverse_cons, List.dropWhile_append]
  split
  next h =>
    have hrest : (rest.reverse.dropWhile p).reverse = [] := by simpa using h
    simp [hrest, hc]
  next h => simp

theorem dropEndWhile_dropEndWhile (p : Char → Bool) (cs : List Char) :
    dropEndWhile p (dropEndWhile p cs) = dropEndWhile p cs :=
  List.rdropWhile_idempotent p cs

theorem trimChars_nil : trimChars [] = [] := rfl

theorem trimChars_cons_of_blank (hc : isBlank c = true) (cs : List Char) :
    trimChars (c :: cs) = trimChars cs := by
  simp [trimChars, hc]

theorem trimChars_cons (hc : isBlank c = false) (cs : List Char) :
    trimChars (c :: cs) = c :: dropEndWhile isBlank cs := by
  have h := dropEndWhile_append_cons hc [] cs
  simpa [trimChars, hc] using h

/-- A trimmed list is empty or begins with a character that is not blank. -/
theorem trimChars_eq_nil_or (cs : List Char) :
    trimChars cs = [] ∨ ∃ c rest, isBlank c = false ∧ trimChars cs = c :: rest := by
  induction cs with
  | nil => exact Or.inl rfl
  | cons c cs ih =>
    cases hc : isBlank c with
    | true => rwa [trimChars_cons_of_blank hc]
    | false => exact Or.inr ⟨c, _, hc, trimChars_cons hc cs⟩

theorem trimChars_trimChars (cs : List Char) : trimChars (trimChars cs) = trimChars cs := by
  induction cs with
  | nil => rfl
  | cons c cs ih =>
    cases hc : isBlank c with
    | true => rw [trimChars_cons_of_blank hc, ih]
    | false => rw [trimChars_cons hc, trimChars_cons hc, dropEndWhile_dropEndWhile]

theorem trim_trim (s : String) : trim (trim s) = trim s := by
  simp [trim, trimChars_trimChars]

theorem trimChars_eq_nil_iff : trimChars cs = [] ↔ ∀ c ∈ cs, isBlank c = true := by
  induction cs with
  | nil => simp [trimChars_nil]
  | cons c cs ih =>
    cases hc : isBlank c with
    | true => simp [trimChars_cons_of_blank hc, ih, hc]
    | false => simp [trimChars_cons hc, hc]

/-- A beginning that starts and ends with characters that are not blank is kept. -/
theorem trimChars_prefix_append {a b : Char} (ha : isBlank a = false) (hb : isBlank b = false)
    (mid rest : List Char) :
    trimChars (a :: (mid ++ b :: rest)) = a :: (mid ++ b :: dropEndWhile isBlank rest) := by
  rw [trimChars_cons ha, dropEndWhile_append_cons hb]

/-- Blanks dropped at the end beforehand make no difference. -/
theorem trimChars_dropEndWhile (cs : List Char) :
    trimChars (dropEndWhile isBlank cs) = trimChars cs := by
  rcases trimChars_eq_nil_or cs with h | ⟨c, rest, hc, h⟩
  · have hall := trimChars_eq_nil_iff.1 h
    rw [dropEndWhile_eq_rdropWhile, List.rdropWhile_eq_nil_iff.2 hall, h, trimChars_nil]
  · have hcs : cs = cs.takeWhile isBlank ++ cs.dropWhile isBlank :=
      List.takeWhile_append_dropWhile.symm
    cases hdrop : cs.dropWhile isBlank with
    | nil => simp [trimChars, hdrop, dropEndWhile] at h
    | cons d ds =>
      have hd : isBlank d = false := by
        have := List.head_dropWhile_not isBlank (l := cs) (by simp [hdrop])
        simpa [hdrop] using this
      have hfront : ∀ c ∈ cs.takeWhile isBlank, isBlank c = true :=
        fun c hc ↦ List.mem_takeWhile_imp hc
      rw [hdrop] at hcs
      rw [hcs, dropEndWhile_append_cons hd, trimChars, trimChars,
        List.dropWhile_append_of_pos hfront, List.dropWhile_append_of_pos hfront,
        List.dropWhile_cons_of_neg (by simp [hd]), List.dropWhile_cons_of_neg (by simp [hd])]
      have h₁ := dropEndWhile_append_cons hd [] ds
      have h₂ := dropEndWhile_append_cons hd [] (dropEndWhile isBlank ds)
      rw [List.nil_append, List.nil_append] at h₁ h₂
      rw [h₁, h₂, dropEndWhile_dropEndWhile]

theorem dropEndWhile_of_forall {p : Char → Bool} (h : ∀ c ∈ cs, p c = false) :
    dropEndWhile p cs = cs := by
  rw [dropEndWhile_eq_rdropWhile, List.rdropWhile_eq_self_iff]
  intro hne
  rw [h _ (List.getLast_mem hne)]
  exact Bool.false_ne_true

/-- Characters none of which is blank stay as they are. -/
theorem trimChars_of_forall (h : ∀ c ∈ cs, isBlank c = false) : trimChars cs = cs := by
  cases cs with
  | nil => rfl
  | cons c cs =>
    rw [trimChars_cons (h c List.mem_cons_self),
      dropEndWhile_of_forall fun d hd ↦ h d (List.mem_cons_of_mem c hd)]

/-- Blanks around characters none of which is blank are trimmed, and nothing else. -/
theorem trimChars_surrounded {front body back : List Char} (hfront : ∀ c ∈ front, isBlank c = true)
    (hbody : ∀ c ∈ body, isBlank c = false) (hback : ∀ c ∈ back, isBlank c = true) :
    trimChars (front ++ body ++ back) = body := by
  have hend : dropEndWhile isBlank (body ++ back) = body := by
    rw [dropEndWhile, List.reverse_append,
      List.dropWhile_append_of_pos fun c hc ↦ hback c (List.mem_reverse.1 hc), ← dropEndWhile,
      dropEndWhile_of_forall hbody]
  calc trimChars (front ++ body ++ back)
      = trimChars (body ++ back) := by
        rw [List.append_assoc, trimChars, List.dropWhile_append_of_pos hfront, trimChars]
    _ = trimChars body := by rw [← trimChars_dropEndWhile, hend]
    _ = body := trimChars_of_forall hbody

/-- What is trimmed off at either end is blank. -/
theorem exists_trimChars (cs : List Char) : ∃ front back, cs = front ++ trimChars cs ++ back ∧
    (∀ c ∈ front, isBlank c = true) ∧ ∀ c ∈ back, isBlank c = true := by
  have hend (ds : List Char) : ∃ back, ds = dropEndWhile isBlank ds ++ back ∧
      ∀ c ∈ back, isBlank c = true := by
    refine ⟨(ds.reverse.takeWhile isBlank).reverse, ?_, fun c hc ↦ ?_⟩
    · rw [dropEndWhile, ← List.reverse_append, List.takeWhile_append_dropWhile,
        List.reverse_reverse]
    · exact List.mem_takeWhile_imp (List.mem_reverse.1 hc)
  obtain ⟨back, hback, hblank⟩ := hend (cs.dropWhile isBlank)
  refine ⟨cs.takeWhile isBlank, back, ?_, fun c hc ↦ List.mem_takeWhile_imp hc, hblank⟩
  rw [List.append_assoc, trimChars, ← hback, List.takeWhile_append_dropWhile]

/-- Trimming keeps the characters that are not blank. -/
theorem filter_trimChars (cs : List Char) :
    (trimChars cs).filter (!isBlank ·) = cs.filter (!isBlank ·) := by
  have hfront : ∀ ds : List Char,
      (ds.dropWhile isBlank).filter (!isBlank ·) = ds.filter (!isBlank ·) := by
    intro ds
    induction ds with
    | nil => rfl
    | cons d ds ih => cases hd : isBlank d <;> simp [hd, ih]
  rw [trimChars, dropEndWhile, List.filter_reverse, hfront, ← List.filter_reverse,
    List.reverse_reverse, hfront]

theorem dropEndWhile_sublist (p : Char → Bool) (cs : List Char) :
    (dropEndWhile p cs).Sublist cs :=
  (List.rdropWhile_prefix p cs).sublist

theorem trimChars_sublist (cs : List Char) : (trimChars cs).Sublist cs :=
  (dropEndWhile_sublist isBlank _).trans (List.dropWhile_sublist isBlank)

theorem length_trimChars_le (cs : List Char) : (trimChars cs).length ≤ cs.length :=
  (trimChars_sublist cs).length_le

theorem trim_ofList (h : trimChars cs = cs) : trim (String.ofList cs) = String.ofList cs := by
  rw [trim, String.toList_ofList, h]

theorem trim_eq_self_iff {s : String} : trim s = s ↔ trimChars s.toList = s.toList := by
  rw [trim, ← String.toList_inj, String.toList_ofList]

/-- What trimming changes becomes shorter. -/
theorem length_trim_lt {s : String} (h : trim s ≠ s) : (trim s).length < s.length := by
  rw [trim, String.length_ofList, ← String.length_toList]
  refine lt_of_le_of_ne (length_trimChars_le _) fun hlen ↦ h ?_
  exact trim_eq_self_iff.2 ((trimChars_sublist _).eq_of_length hlen)

theorem dropWhile_beq_eq_self_iff : cs.dropWhile (· == c) = cs ↔ cs.head? ≠ some c := by
  cases cs with
  | nil => simp
  | cons d cs => simp [List.dropWhile_eq_self_iff]

theorem dropEndWhile_beq_eq_self_iff : dropEndWhile (· == c) cs = cs ↔ cs.getLast? ≠ some c := by
  rw [dropEndWhile, List.reverse_eq_iff, dropWhile_beq_eq_self_iff, List.head?_reverse]

/-! ### Cutting -/

theorem after?_append (pre rest : List Char) : after? pre (pre ++ rest) = some rest := by
  have h : pre.isPrefixOf (pre ++ rest) = true := by
    rw [List.isPrefixOf_iff_prefix]
    exact List.prefix_append pre rest
  simp [after?, h]

theorem after?_eq_none_iff : after? pre cs = none ↔ ¬pre <+: cs := by
  rw [after?, ← List.isPrefixOf_iff_prefix]
  split
  next h => simp [h]
  next h => simp [h]

theorem after?_eq_some_iff : after? pre cs = some rest ↔ cs = pre ++ rest := by
  constructor
  · intro h
    rw [after?] at h
    split at h
    next hpre =>
      obtain ⟨rest', rfl⟩ := List.isPrefixOf_iff_prefix.1 hpre
      rw [List.drop_left] at h
      rw [Option.some.inj h]
    next => cases h
  · rintro rfl
    exact after?_append pre rest

theorem cutAt_append (hpre : sep ∉ pre) (rest : List Char) :
    cutAt sep (pre ++ sep :: rest) = some (pre, rest) := by
  induction pre with
  | nil => simp [cutAt]
  | cons c pre ih =>
    obtain ⟨hne, hpre⟩ := not_or.1 (mt List.mem_cons.2 hpre)
    simp [cutAt, Ne.symm hne, ih hpre]

theorem cutAt_eq_some_iff : cutAt sep cs = some (pre, rest) ↔
    cs = pre ++ sep :: rest ∧ sep ∉ pre := by
  constructor
  · intro h
    induction cs generalizing pre with
    | nil => simp [cutAt] at h
    | cons c cs ih =>
      by_cases hc : c = sep
      · simp only [cutAt, hc, if_true, Option.some.injEq, Prod.mk.injEq] at h
        obtain ⟨rfl, rfl⟩ := h
        simp [hc]
      · simp only [cutAt, hc, if_false, Option.map_eq_some_iff, Prod.exists, Prod.mk.injEq] at h
        obtain ⟨before, rest', hcut, rfl, rfl⟩ := h
        obtain ⟨rfl, hbefore⟩ := ih hcut
        simp [hbefore, Ne.symm hc]
  · rintro ⟨rfl, hpre⟩
    exact cutAt_append hpre rest

/-! ### Pieces -/

theorem pieces_of_forall {p : Char → Bool} (h : ∀ c ∈ cs, p c = false) : pieces p cs = [cs] := by
  induction cs with
  | nil => rfl
  | cons c cs ih =>
    rw [pieces, h c List.mem_cons_self, ih fun d hd ↦ h d (List.mem_cons_of_mem _ hd)]
    rfl

theorem pieces_append {p : Char → Bool} (hpre : ∀ c ∈ pre, p c = false) (hsep : p sep = true)
    (rest : List Char) : pieces p (pre ++ sep :: rest) = pre :: pieces p rest := by
  induction pre with
  | nil => rw [List.nil_append, pieces, if_pos hsep]
  | cons c pre ih =>
    rw [List.cons_append, pieces, hpre c List.mem_cons_self,
      ih fun d hd ↦ hpre d (List.mem_cons_of_mem _ hd)]
    rfl

/-- What separates nothing stands in a piece. -/
theorem exists_mem_pieces {p : Char → Bool} (hc : c ∈ cs) (hp : p c = false) :
    ∃ w ∈ pieces p cs, c ∈ w := by
  induction cs with
  | nil => cases hc
  | cons d cs ih =>
    obtain ⟨w, ws, hpieces⟩ := List.exists_cons_of_ne_nil (pieces_ne_nil p cs)
    rw [pieces, hpieces]
    rw [hpieces] at ih
    rcases List.mem_cons.1 hc with rfl | hc
    · rw [hp]
      exact ⟨c :: w, List.mem_cons_self, List.mem_cons_self⟩
    · obtain ⟨v, hv, hcv⟩ := ih hc
      split
      · exact ⟨v, List.mem_cons_of_mem _ hv, hcv⟩
      · rcases List.mem_cons.1 hv with rfl | hv
        · exact ⟨d :: v, List.mem_cons_self, List.mem_cons_of_mem d hcv⟩
        · exact ⟨v, List.mem_cons_of_mem _ hv, hcv⟩

/-- A character of pieces joined by a separator is the separator or stands in a piece. -/
theorem mem_of_mem_intercalate {ws : List (List Char)}
    (h : c ∈ [sep].intercalate ws) : c = sep ∨ ∃ w ∈ ws, c ∈ w := by
  induction ws with
  | nil => exact absurd h List.not_mem_nil
  | cons w ws ih =>
    cases ws with
    | nil =>
      rw [List.intercalate_singleton] at h
      exact Or.inr ⟨w, List.mem_cons_self, h⟩
    | cons v vs =>
      rw [List.intercalate_cons_cons, List.append_assoc, List.mem_append] at h
      rcases h with hw | hrest
      · exact Or.inr ⟨w, List.mem_cons_self, hw⟩
      · rcases List.mem_cons.1 hrest with hsep | hrest
        · exact Or.inl hsep
        · refine (ih hrest).imp_right fun ⟨u, hu, hc⟩ ↦ ⟨u, List.mem_cons_of_mem _ hu, hc⟩

end Switchyard.Text
