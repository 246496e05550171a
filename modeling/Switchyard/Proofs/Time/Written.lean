import Mathlib.Data.List.TakeWhile
import Switchyard.Proofs.Text.Padded
import Switchyard.Proofs.Time.Calendar
import Switchyard.Time.Reading

/-!
# Points in time as they are written

A point in time that a clock can show is written as a text that is read back as the same point in
time: every field is a number whose width is known or whose end can be seen, the date determines the
day, and a second of sixty stands for the leap second.

## Main definitions

* `Time.Instant.Proper` : the points in time that a clock can show.

## Main results

* `Time.Reading.number_padded`, `Time.Reading.looseYear_yearText`,
  `Time.Reading.fraction_fractionText` : the fields.
* `Time.Reading.toInstant?_fieldsOf` : the point in time of its fields.
* `Time.Reading.relaxed?_zulu` : the written form is read back.
* `Time.Reading.proper_of_relaxed?` : nothing else is read than what a clock can show.
-/

namespace Switchyard.Time

/-- What a clock can show: a year within the range of the calendar, and a leap second only at the
end of a minute. -/
structure Instant.Proper (t : Instant) : Prop where
  year : Reading.yearInRange t.date.year = true
  nanos : t.nanos < 1000000000 ∨ t.seconds % 60 = 59 ∧ t.nanos < 2000000000

namespace Reading

open Text (digitIn digitIn_of_isDigit isBlank isDigit_of_mem_padded length_padded padded)

variable {cs ds rest : List Char} {min max n width : Nat} {t : Instant}

/-! ### Numbers -/

/-- Where a number ends: nothing follows it, or no digit. -/
def EndsNumber (rest : List Char) : Prop := ∀ c ∈ rest.head?, digitIn 10 c = none

theorem endsNumber_cons {c : Char} (h : digitIn 10 c = none) (rest : List Char) :
    EndsNumber (c :: rest) := by
  intro d hd
  obtain rfl := Option.some.inj hd
  exact h

/-- Digits are taken up to the greatest number of them, or to where the number ends. -/
theorem takeDigits_append (hds : ∀ c ∈ ds, c.isDigit = true) (hmax : ds.length ≤ max)
    (hend : ds.length = max ∨ EndsNumber rest) :
    takeDigits max n (ds ++ rest) = (Nat.ofDigitChars 10 ds n, rest) := by
  induction ds generalizing max n with
  | nil =>
    cases max with
    | zero => rfl
    | succ max =>
      have hend : EndsNumber rest := hend.resolve_left (by simp)
      cases rest with
      | nil => rfl
      | cons c rest => simp only [List.nil_append, takeDigits, hend c rfl, Nat.ofDigitChars_nil]
  | cons d ds ih =>
    obtain ⟨hd, hds⟩ := List.forall_mem_cons.1 hds
    cases max with
    | zero => cases hmax
    | succ max =>
      simp only [List.cons_append, takeDigits, digitIn_of_isDigit hd, Nat.ofDigitChars_cons,
        Nat.mul_comm 10 n]
      exact ih hds (Nat.le_of_succ_le_succ hmax) (hend.imp_left Nat.succ.inj)

/-- A number is read from its digits. -/
theorem number_append (hds : ∀ c ∈ ds, c.isDigit = true) (hmin : min ≤ ds.length)
    (hmax : ds.length ≤ max) (hend : ds.length = max ∨ EndsNumber rest) :
    number min max (ds ++ rest) = some (Nat.ofDigitChars 10 ds 0, rest) := by
  have htake : (ds ++ rest).take min = ds.take min := List.take_append_of_le_length hmin
  have hall : (ds.take min).all (fun c ↦ (digitIn 10 c).isSome) = true := by
    refine List.all_eq_true.2 fun c hc ↦ ?_
    rw [digitIn_of_isDigit (hds c (List.mem_of_mem_take hc))]
    rfl
  rw [number, htake, if_pos ⟨List.length_take_of_le hmin, hall⟩, takeDigits_append hds hmax hend]

/-- A number of full width is read whatever follows it. -/
theorem number_padded (hmin : min ≤ width) (hwidth : 0 < width) (hn : n < 10 ^ width)
    (rest : List Char) :
    number min width ((padded width n).toList ++ rest) = some (n, rest) := by
  have hlength := length_padded hwidth hn
  rw [number_append (fun _ ↦ isDigit_of_mem_padded) (hmin.trans_eq hlength.symm)
    hlength.le (.inl hlength), Text.ofDigitChars_padded]

/-! ### Blanks -/

theorem isBlank_of_isDigit {c : Char} (h : c.isDigit = true) : isBlank c = false := by
  have hrange := Text.toNat_of_isDigit h
  unfold isBlank
  simp
  omega

theorem skipBlanks_cons {c : Char} (h : isBlank c = false) (cs : List Char) :
    skipBlanks (c :: cs) = c :: cs := by
  simp [skipBlanks, h]

/-- A number begins with a digit. -/
theorem exists_padded_eq_cons (hwidth : 0 < width) (n : Nat) :
    ∃ d ds, (padded width n).toList = d :: ds ∧ d.isDigit = true := by
  have hlength := Text.le_length_padded width n
  cases hds : (padded width n).toList with
  | nil =>
    rw [hds, List.length_nil] at hlength
    omega
  | cons d ds => exact ⟨d, ds, rfl, isDigit_of_mem_padded (hds ▸ List.mem_cons_self)⟩

/-- No blanks are skipped in front of a number. -/
theorem skipBlanks_padded (hwidth : 0 < width) (n : Nat) (rest : List Char) :
    skipBlanks ((padded width n).toList ++ rest) = (padded width n).toList ++ rest := by
  obtain ⟨d, ds, hds, hd⟩ := exists_padded_eq_cons hwidth n
  rw [hds]
  exact skipBlanks_cons (isBlank_of_isDigit hd) _

theorem looseField_padded (hn : n < 100) (rest : List Char) :
    looseField ((padded 2 n).toList ++ rest) = some (n, rest) := by
  rw [looseField, skipBlanks_padded (by decide), number_padded (by decide) (by decide) hn]

/-! ### Years -/

/-- The digits of a year with a sign are read up to the dash. -/
theorem number_signed {cs : List Char} (hcs : cs = (padded 4 n).toList ++ '-' :: rest) :
    number 1 cs.length cs = some (n, '-' :: rest) := by
  have hlength := Text.le_length_padded 4 n
  have hmax : (padded 4 n).toList.length ≤ cs.length := by
    rw [hcs, List.length_append]
    exact Nat.le_add_right _ _
  generalize cs.length = max at hmax
  rw [hcs, number_append (fun _ ↦ isDigit_of_mem_padded) (by omega) hmax
    (.inr (endsNumber_cons (by decide) rest)), Text.ofDigitChars_padded]

theorem looseYear_plus (n : Nat) (rest : List Char) :
    looseYear ('+' :: (padded 4 n).toList ++ '-' :: rest) = some ((n : Int), '-' :: rest) := by
  rw [looseYear, List.cons_append, skipBlanks_cons (by decide)]
  simp only [number_signed rfl, Option.map_some]

theorem looseYear_minus (n : Nat) (rest : List Char) :
    looseYear ('-' :: (padded 4 n).toList ++ '-' :: rest) = some (-(n : Int), '-' :: rest) := by
  rw [looseYear, List.cons_append, skipBlanks_cons (by decide)]
  simp only [number_signed rfl, Option.map_some]

/-- A year without a sign begins with a digit. -/
theorem looseYear_padded (hn : n < 10000) (rest : List Char) :
    looseYear ((padded 4 n).toList ++ '-' :: rest) = some ((n : Int), '-' :: rest) := by
  have hnumber : number 1 4 ((padded 4 n).toList ++ '-' :: rest) = some (n, '-' :: rest) :=
    number_padded (by decide) (by decide) hn _
  obtain ⟨d, ds, hds, hd⟩ := exists_padded_eq_cons (show 0 < 4 by decide) n
  rw [looseYear, skipBlanks_padded (by decide)]
  split
  next hcs =>
    rw [hds] at hcs
    rw [List.head_eq_of_cons_eq hcs] at hd
    cases hd
  next hcs =>
    rw [hds] at hcs
    rw [List.head_eq_of_cons_eq hcs] at hd
    cases hd
  next => simp only [hnumber, Option.map_some]

/-- A year is read back where a dash follows it. -/
theorem looseYear_yearText (year : Int) (rest : List Char) :
    looseYear ((Instant.yearText year).toList ++ '-' :: rest) = some (year, '-' :: rest) := by
  unfold Instant.yearText
  split_ifs with hfour hsign
  · rw [looseYear_padded (by omega), Int.toNat_of_nonneg hfour.1]
  · rw [String.toList_append]
    refine (looseYear_plus _ rest).trans ?_
    rw [Int.toNat_of_nonneg hsign]
  · rw [String.toList_append]
    refine (looseYear_minus _ rest).trans ?_
    rw [Int.toNat_of_nonneg (by omega), Int.neg_neg]

/-! ### Fractions -/

/-- The digits of a fraction are read up to the letter after it. -/
theorem fraction_padded (hwidth : 0 < width) (hnine : width ≤ 9) (hn : n < 10 ^ width)
    (rest : List Char) :
    fraction ('.' :: (padded width n).toList ++ 'Z' :: rest) =
      some (n * 10 ^ (9 - width), 'Z' :: rest) := by
  have hlength := length_padded hwidth hn
  have hdigits : ((padded width n).toList ++ 'Z' :: rest).takeWhile
      (fun c ↦ (digitIn 10 c).isSome) = (padded width n).toList := by
    rw [List.takeWhile_append_of_pos]
    · simp [List.takeWhile, show digitIn 10 'Z' = none by decide]
    · intro c hc
      rw [digitIn_of_isDigit (isDigit_of_mem_padded hc)]
      rfl
  have htake : (padded width n).toList.take 9 = (padded width n).toList :=
    List.take_of_length_le (hlength.trans_le hnine)
  have hvalue : takeDigits 9 0 ((padded width n).toList ++ []) = (_, []) :=
    takeDigits_append (fun _ ↦ isDigit_of_mem_padded) (hlength.trans_le hnine)
      (.inr fun _ hc ↦ by cases hc)
  rw [List.append_nil, Text.ofDigitChars_padded] at hvalue
  have hnonempty : (padded width n).toList.isEmpty = false := by
    rw [List.isEmpty_eq_false_iff_exists_mem, ← List.length_pos_iff_exists_mem, hlength]
    exact hwidth
  simp [fraction, hdigits, htake, hvalue, hnonempty, hlength]

/-- The fraction of a second is read back where a letter follows it. -/
theorem fraction_fractionText (nanos : Nat) (rest : List Char) :
    fraction ((Instant.fractionText nanos).toList ++ 'Z' :: rest) =
      some (nanos % 1000000000, 'Z' :: rest) := by
  unfold Instant.fractionText
  simp only
  generalize hn : nanos % 1000000000 = n
  split_ifs with hzero hmilli hmicro
  · rw [hzero]
    rfl
  · rw [String.toList_append]
    refine (fraction_padded (show 0 < 3 by decide) (by decide) (by omega) rest).trans ?_
    rw [show n / 1000000 * 10 ^ (9 - 3) = n by omega]
  · rw [String.toList_append]
    refine (fraction_padded (show 0 < 6 by decide) (by decide) (by omega) rest).trans ?_
    rw [show n / 1000 * 10 ^ (9 - 6) = n by omega]
  · rw [String.toList_append]
    refine (fraction_padded (show 0 < 9 by decide) (by decide) (by omega) rest).trans ?_
    rw [show n * 10 ^ (9 - 9) = n by omega]

/-! ### Points in time -/

/-- The fields of a point in time that are written. -/
def fieldsOf (t : Instant) : Fields where
  date := t.date
  hour := t.secondOfDay / 3600
  minute := t.secondOfDay / 60 % 60
  second := t.secondOfDay % 60 + t.nanos / 1000000000
  nanos := t.nanos % 1000000000
  offset := 0

theorem secondOfDay_lt (t : Instant) : t.secondOfDay < 86400 := by
  unfold Instant.secondOfDay
  omega

/-- A point in time is that of its fields. -/
theorem toInstant?_fieldsOf (h : t.Proper) : (fieldsOf t).toInstant? = some t := by
  have hday : t.date.toDayCount = t.seconds / 86400 := Date.toDayCount_ofDayCount _
  have hsecond : (t.secondOfDay : Int) = t.seconds % 86400 := by
    unfold Instant.secondOfDay
    omega
  have hlt := secondOfDay_lt t
  have hleap := h.nanos
  unfold Fields.toInstant? fieldsOf
  simp only
  generalize htotal : t.date.toDayCount * 86400 + _ + _ + _ - _ = total
  have htotal : total = t.seconds := by
    rw [← htotal, hday]
    split_ifs <;> omega
  have hnanos : (if t.secondOfDay % 60 + t.nanos / 1000000000 = 60 then
      t.nanos % 1000000000 + 1000000000 else t.nanos % 1000000000) = t.nanos := by
    split_ifs <;> omega
  rw [htotal, hnanos,
    if_pos ⟨Date.valid_ofDayCount _, by omega, by omega, by omega, h.year, h.year⟩]

theorem toList_zulu (t : Instant) : t.zulu.toList =
    (Instant.yearText t.date.year).toList ++ '-' :: ((padded 2 (fieldsOf t).date.month).toList ++
      '-' :: ((padded 2 (fieldsOf t).date.day).toList ++
      'T' :: ((padded 2 (fieldsOf t).hour).toList ++ ':' :: ((padded 2 (fieldsOf t).minute).toList ++
      ':' :: ((padded 2 (fieldsOf t).second).toList ++
      ((Instant.fractionText t.nanos).toList ++ ['Z'])))))) := by
  simp [Instant.zulu, Instant.rfc3339, fieldsOf]

/-- A step that succeeds hands over to the next. -/
theorem bind_of_eq {α β : Type} {x : Option α} {f : α → Option β} {a : α} (h : x = some a) :
    (x >>= f) = f a := by
  rw [h]
  rfl

/-- The written form of a point in time is read back. -/
theorem relaxed?_zulu (h : t.Proper) : relaxed? t.zulu = some t := by
  have hdate : (fieldsOf t).date.Valid := Date.valid_ofDayCount _
  have hmonth := hdate.month
  have hday := hdate.day
  have hlt := secondOfDay_lt t
  have hnanos := h.nanos
  have hminute : (fieldsOf t).minute < 100 := show t.secondOfDay / 60 % 60 < 100 by omega
  have hhour : (fieldsOf t).hour < 100 := show t.secondOfDay / 3600 < 100 by omega
  have hsecond : (fieldsOf t).second < 100 :=
    show t.secondOfDay % 60 + t.nanos / 1000000000 < 100 by omega
  have hdash (cs : List Char) : literal '-' (skipBlanks ('-' :: cs)) = some cs := rfl
  have hcolon (cs : List Char) : literal ':' (skipBlanks (':' :: cs)) = some cs := rfl
  have hmark (cs : List Char) : dateTimeMark ('T' :: cs) = some cs := rfl
  have hoffset : looseOffset ['Z'] = some (0, []) := by decide
  rw [relaxed?, toList_zulu]
  refine (bind_of_eq (looseYear_yearText _ _)).trans ?_
  refine (bind_of_eq (hdash _)).trans ?_
  refine (bind_of_eq (looseField_padded (by omega) _)).trans ?_
  refine (bind_of_eq (hdash _)).trans ?_
  refine (bind_of_eq (looseField_padded (by omega) _)).trans ?_
  refine (bind_of_eq (hmark _)).trans ?_
  refine (bind_of_eq (looseField_padded hhour _)).trans ?_
  refine (bind_of_eq (hcolon _)).trans ?_
  refine (bind_of_eq (looseField_padded hminute _)).trans ?_
  refine (bind_of_eq (hcolon _)).trans ?_
  refine (bind_of_eq (looseField_padded hsecond _)).trans ?_
  refine (bind_of_eq (fraction_fractionText _ _)).trans ?_
  refine (bind_of_eq hoffset).trans ?_
  exact toInstant?_fieldsOf h

/-! ### What is read -/

theorem isDigit_of_digitIn {c : Char} (h : (digitIn 10 c).isSome = true) : c.isDigit = true := by
  unfold digitIn Text.digitValue at h
  split_ifs at h with hdigit
  · rw [Char.isDigit, Bool.and_eq_true, decide_eq_true_iff, decide_eq_true_iff]
    exact hdigit
  -- the letters stand for numbers from ten on
  all_goals simp at h

/-- A fraction is less than a second. -/
theorem fraction_lt {nanos : Nat} (h : fraction cs = some (nanos, rest)) : nanos < 1000000000 := by
  unfold fraction at h
  split at h
  next body =>
    simp only at h
    generalize hkept : (body.takeWhile fun c ↦ (digitIn 10 c).isSome).take 9 = kept at h
    have hdigits : ∀ c ∈ kept, c.isDigit = true := by
      intro c hc
      rw [← hkept] at hc
      exact isDigit_of_digitIn
        (List.mem_takeWhile_imp (p := fun c ↦ (digitIn 10 c).isSome) (List.mem_of_mem_take hc))
    have hnine : kept.length ≤ 9 := hkept ▸ List.length_take_le 9 _
    have hvalue : takeDigits 9 0 (kept ++ []) = (_, []) :=
      takeDigits_append hdigits hnine (.inr fun _ hc ↦ by cases hc)
    rw [List.append_nil] at hvalue
    split_ifs at h
    obtain ⟨rfl, -⟩ := Prod.mk.inj (Option.some.inj h)
    rw [hvalue]
    calc Nat.ofDigitChars 10 kept 0 * 10 ^ (9 - kept.length)
        < 10 ^ kept.length * 10 ^ (9 - kept.length) :=
          Nat.mul_lt_mul_of_pos_right (Text.ofDigitChars_lt_pow hdigits) (Nat.pow_pos (by decide))
      _ = 1000000000 := by
          rw [← Nat.pow_add, Nat.add_sub_cancel' hnine]
  next =>
    obtain ⟨rfl, -⟩ := Prod.mk.inj (Option.some.inj h)
    decide

/-- An offset is a number of minutes. -/
theorem offset_mod {between : List Char → Option (List Char)} {east : Int}
    (h : offset between cs = some (east, rest)) : east % 60 = 0 := by
  unfold offset at h
  split at h
  next =>
    obtain ⟨rfl, -⟩ := Prod.mk.inj (Option.some.inj h)
    rfl
  next =>
    obtain ⟨rfl, -⟩ := Prod.mk.inj (Option.some.inj h)
    rfl
  next =>
    simp only [Option.bind_eq_bind, Option.bind_eq_some_iff, Option.ite_none_right_eq_some,
      Option.some.injEq, Prod.mk.injEq] at h
    obtain ⟨sign, -, hours, -, cs, -, minutes, -, -, rfl, -⟩ := h
    split_ifs <;> omega

theorem looseOffset_mod {east : Int} (h : looseOffset cs = some (east, rest)) : east % 60 = 0 := by
  unfold looseOffset at h
  simp only at h
  split_ifs at h
  · obtain ⟨rfl, -⟩ := Prod.mk.inj (Option.some.inj h)
    rfl
  · exact offset_mod h

/-- Fields with a fraction of a second and an offset of minutes are those of a clock. -/
theorem proper_of_toInstant? {f : Fields} (hnanos : f.nanos < 1000000000)
    (hoffset : f.offset % 60 = 0) (h : f.toInstant? = some t) : t.Proper := by
  unfold Fields.toInstant? at h
  simp only [Option.ite_none_right_eq_some, Option.some.injEq] at h
  obtain ⟨⟨-, -, -, hsecond, -, hyear⟩, rfl⟩ := h
  refine ⟨hyear, ?_⟩
  simp only
  split_ifs <;> omega

/-- Only points in time that a clock can show are read. -/
theorem proper_of_relaxed? {s : String} (h : relaxed? s = some t) : t.Proper := by
  -- the fields of the date and of the time of day, and the marks between them
  obtain ⟨year, -, h⟩ := Option.bind_eq_some_iff.1 h
  obtain ⟨_, -, h⟩ := Option.bind_eq_some_iff.1 h
  obtain ⟨month, -, h⟩ := Option.bind_eq_some_iff.1 h
  obtain ⟨_, -, h⟩ := Option.bind_eq_some_iff.1 h
  obtain ⟨day, -, h⟩ := Option.bind_eq_some_iff.1 h
  obtain ⟨_, -, h⟩ := Option.bind_eq_some_iff.1 h
  obtain ⟨hour, -, h⟩ := Option.bind_eq_some_iff.1 h
  obtain ⟨_, -, h⟩ := Option.bind_eq_some_iff.1 h
  obtain ⟨minute, -, h⟩ := Option.bind_eq_some_iff.1 h
  obtain ⟨_, -, h⟩ := Option.bind_eq_some_iff.1 h
  obtain ⟨second, -, h⟩ := Option.bind_eq_some_iff.1 h
  obtain ⟨nanos, hfraction, h⟩ := Option.bind_eq_some_iff.1 h
  obtain ⟨offset, hoffset, h⟩ := Option.bind_eq_some_iff.1 h
  obtain ⟨-, hinstant⟩ := Option.ite_none_right_eq_some.1 h
  exact proper_of_toInstant? (fraction_lt hfraction) (looseOffset_mod hoffset) hinstant

end Reading

end Switchyard.Time
