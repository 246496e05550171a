import Switchyard.Proofs.Time.Written

/-!
# The order of stamps

A stamp is the compact form of a point in time, as it is used in names of files. In the years 0 to
9999 all its fields have fixed widths and stand in the order of their weight, so stamps compare as
texts in the order of time, across the ends of minutes, days, months and years and in leap seconds
too. Within one second the stamps are equal.

## Main definitions

* `Time.Instant.FourDigit` : the points in time of the years 0 to 9999.

## Main results

* `Time.Instant.compact_le_compact` : stamps are in the order of time.
* `Time.Instant.mem_compact`, `Time.Instant.Proper.length_compact_le` : what a stamp looks like in
  any year.
-/

namespace Switchyard.Time.Instant

open Reading (fieldsOf secondOfDay_lt)
open Text (padded)

variable {t t' : Instant}

/-- A point in time that a clock can show in the years 0 to 9999. -/
structure FourDigit (t : Instant) : Prop extends t.Proper where
  nonneg : 0 ≤ t.date.year
  le : t.date.year ≤ 9999

theorem FourDigit.toList_compact (h : t.FourDigit) : t.compact.toList =
    (padded 4 t.date.year.toNat).toList ++ ((padded 2 (fieldsOf t).date.month).toList ++
      ((padded 2 (fieldsOf t).date.day).toList ++ 'T' :: ((padded 2 (fieldsOf t).hour).toList ++
      ((padded 2 (fieldsOf t).minute).toList ++ ((padded 2 (fieldsOf t).second).toList ++ []))))) := by
  simp [compact, yearText, h.nonneg, h.le, fieldsOf]

/-- The fields after the year have two digits. -/
theorem Proper.fields_lt (h : t.Proper) :
    (fieldsOf t).date.month < 100 ∧ (fieldsOf t).date.day < 100 ∧ (fieldsOf t).hour < 100 ∧
      (fieldsOf t).minute < 100 ∧ (fieldsOf t).second < 100 := by
  have hdate : (fieldsOf t).date.Valid := Date.valid_ofDayCount _
  have hmonth := hdate.month
  have hday := hdate.day
  have hlt := secondOfDay_lt t
  have hnanos := h.nanos
  refine ⟨by omega, by omega, ?_, ?_, ?_⟩
  · change t.secondOfDay / 3600 < 100
    omega
  · change t.secondOfDay / 60 % 60 < 100
    omega
  · change t.secondOfDay % 60 + t.nanos / 1000000000 < 100
    omega

/-- A stamp that comes first has a date that comes first, or the same date and a time of day that
comes first. -/
theorem before_of_compact_lt (h : t.FourDigit) (h' : t'.FourDigit) (hlt : t.compact < t'.compact) :
    t.date.Before t'.date ∨ t.date = t'.date ∧
      ((fieldsOf t).hour < (fieldsOf t').hour ∨ (fieldsOf t).hour = (fieldsOf t').hour ∧
        ((fieldsOf t).minute < (fieldsOf t').minute ∨ (fieldsOf t).minute = (fieldsOf t').minute ∧
          (fieldsOf t).second < (fieldsOf t').second)) := by
  obtain ⟨hmonth, hday, hhour, hminute, hsecond⟩ := h.toProper.fields_lt
  obtain ⟨hmonth', hday', hhour', hminute', hsecond'⟩ := h'.toProper.fields_lt
  obtain ⟨hnonneg, hle⟩ := And.intro h.nonneg h.le
  obtain ⟨hnonneg', hle'⟩ := And.intro h'.nonneg h'.le
  rw [String.lt_iff_toList_lt, h.toList_compact, h'.toList_compact] at hlt
  rcases Text.lt_of_padded_append_lt (by decide) (by omega) (by omega) hlt with hyear | ⟨hyear, hlt⟩
  · exact .inl (.inl (by omega))
  have hyear : t.date.year = t'.date.year := by omega
  rcases Text.lt_of_padded_append_lt (by decide) hmonth hmonth' hlt with hm | ⟨hm, hlt⟩
  · exact .inl (.inr ⟨hyear, .inl hm⟩)
  rcases Text.lt_of_padded_append_lt (by decide) hday hday' hlt with hd | ⟨hd, hlt⟩
  · exact .inl (.inr ⟨hyear, .inr ⟨hm, hd⟩⟩)
  have hdate : t.date = t'.date := by
    change Date.mk t.date.year (fieldsOf t).date.month (fieldsOf t).date.day = t'.date
    rw [hyear, hm, hd]
    rfl
  refine .inr ⟨hdate, ?_⟩
  have hlt := (List.cons_lt_cons_iff.1 hlt).resolve_left (lt_irrefl 'T') |>.2
  rcases Text.lt_of_padded_append_lt (by decide) hhour hhour' hlt with hh | ⟨hh, hlt⟩
  · exact .inl hh
  rcases Text.lt_of_padded_append_lt (by decide) hminute hminute' hlt with hi | ⟨hi, hlt⟩
  · exact .inr ⟨hh, .inl hi⟩
  rcases Text.lt_of_padded_append_lt (by decide) hsecond hsecond' hlt with hs | ⟨-, hlt⟩
  · exact .inr ⟨hh, .inr ⟨hi, hs⟩⟩
  · cases hlt

/-- Stamps are in the order of time. -/
theorem compact_le_compact (h : t.FourDigit) (h' : t'.FourDigit) (hle : t.le t' = true) :
    t.compact ≤ t'.compact := by
  refine not_lt.1 fun hlt ↦ ?_
  rw [le, Bool.or_eq_true, Bool.and_eq_true, decide_eq_true_iff, beq_iff_eq,
    decide_eq_true_iff] at hle
  have hdays : t.seconds / 86400 ≤ t'.seconds / 86400 := by omega
  have hnanos := h.nanos
  have hnanos' := h'.nanos
  rcases before_of_compact_lt h' h hlt with hbefore | ⟨hdate, htime⟩
  · exact Date.not_before_ofDayCount hdays hbefore
  · have hday : t'.seconds / 86400 = t.seconds / 86400 := by
      rw [← Date.toDayCount_ofDayCount (t'.seconds / 86400),
        ← Date.toDayCount_ofDayCount (t.seconds / 86400)]
      exact congrArg Date.toDayCount hdate
    simp only [fieldsOf, secondOfDay] at htime
    omega

/-! ### What a stamp looks like -/

/-- A stamp has nothing in it but digits, a sign, and the letter before the time of day. -/
theorem mem_compact {c : Char} (h : c ∈ t.compact.toList) :
    c.isDigit = true ∨ c = '+' ∨ c = '-' ∨ c = 'T' := by
  have hpadded {width n : Nat} (h : c ∈ (padded width n).toList) : c.isDigit = true :=
    Text.isDigit_of_mem_padded h
  have hyear (year : Int) (h : c ∈ (yearText year).toList) :
      c.isDigit = true ∨ c = '+' ∨ c = '-' := by
    unfold yearText at h
    split_ifs at h
    · exact .inl (hpadded h)
    · rcases List.mem_append.1 (String.toList_append ▸ h) with h | h
      · exact .inr (.inl (List.mem_singleton.1 h))
      · exact .inl (hpadded h)
    · rcases List.mem_append.1 (String.toList_append ▸ h) with h | h
      · exact .inr (.inr (List.mem_singleton.1 h))
      · exact .inl (hpadded h)
  simp only [compact, String.toList_append, List.mem_append] at h
  rcases h with (((((h | h) | h) | h) | h) | h) | h
  · rcases hyear _ h with h | h | h
    · exact .inl h
    · exact .inr (.inl h)
    · exact .inr (.inr (.inl h))
  · exact .inl (hpadded h)
  · exact .inl (hpadded h)
  · exact .inr (.inr (.inr (List.mem_singleton.1 h)))
  all_goals exact .inl (hpadded h)

theorem FourDigit.length_compact (h : t.FourDigit) : t.compact.toList.length = 15 := by
  obtain ⟨hmonth, hday, hhour, hminute, hsecond⟩ := h.toProper.fields_lt
  have hyear : t.date.year.toNat < 10 ^ 4 := by
    have hle := h.le
    omega
  have htwo {n : Nat} (hn : n < 100) : (padded 2 n).toList.length = 2 :=
    Text.length_padded (by decide) hn
  simp [h.toList_compact, Text.length_padded (by decide) hyear, htwo hmonth, htwo hday, htwo hhour,
    htwo hminute, htwo hsecond]

/-- The years that a clock can show have at most six digits. -/
theorem Proper.length_compact_le (h : t.Proper) : t.compact.toList.length ≤ 18 := by
  obtain ⟨hlow, hhigh⟩ : -262143 ≤ t.date.year ∧ t.date.year ≤ 262142 := by
    simpa [Reading.yearInRange] using h.year
  obtain ⟨hmonth, hday, hhour, hminute, hsecond⟩ := h.fields_lt
  have hyear : (yearText t.date.year).toList.length ≤ 7 := by
    unfold yearText
    split_ifs
    · exact (Text.length_padded_le (by decide) (by decide) (show _ < 10 ^ 6 by omega)).trans
        (by decide)
    all_goals
      rw [String.toList_append, List.length_append]
      exact Nat.add_le_add_left
        (Text.length_padded_le (by decide) (by decide) (show _ < 10 ^ 6 by omega)) 1
  have htwo {n : Nat} (hn : n < 100) : (padded 2 n).toList.length = 2 :=
    Text.length_padded (by decide) hn
  simp only [fieldsOf] at hmonth hday hhour hminute hsecond
  simp only [compact, String.toList_append, List.length_append, htwo hmonth, htwo hday, htwo hhour,
    htwo hminute, htwo hsecond]
  change _ + 2 + 2 + 1 + 2 + 2 + 2 ≤ 18
  omega

end Switchyard.Time.Instant
