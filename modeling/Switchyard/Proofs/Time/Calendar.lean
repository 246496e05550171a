import Mathlib.Tactic.SplitIfs
import Switchyard.Time.Calendar

/-!
# Days and dates

In a year that begins in March the lengths of the months follow one rule, and the leap day comes
last. The count of a day is the number of days before its year, before its month in the year, and
before itself in the month. From this it follows that the date of a day is one the calendar has and
leads back to the day, and that a later date of the calendar is a later day.

## Main definitions

* `Time.Date.yearStart`, `Time.Date.monthStart` : the days before a year that begins in March, and
  before a month of it.
* `Time.Date.Before` : dates in the order of year, month and day.

## Main results

* `Time.Date.valid_ofDayCount`, `Time.Date.toDayCount_ofDayCount` : from a day to its date and back.
* `Time.Date.toDayCount_lt_of_before` : a later date is a later day.
* `Time.Date.not_before_ofDayCount` : a day that is not earlier has no earlier date.
-/

namespace Switchyard.Time.Date

variable {d e : Date} {n m y y' : Int}

/-- The number of days before a year that begins in March, from that of the year zero. -/
def yearStart (y : Int) : Int := 365 * y + y / 4 - y / 100 + y / 400

/-- The number of days before a month in a year that begins in March. -/
def monthStart (m : Int) : Int := (153 * m + 2) / 5

/-- The year of a date if years begin in March. -/
def marchYear (d : Date) : Int := if d.month ≤ 2 then d.year - 1 else d.year

/-- A month, March being month zero. -/
def marchMonth (month : Nat) : Int := if month ≤ 2 then month + 9 else month - 3

/-- The order of dates by year, month and day. -/
def Before (d e : Date) : Prop :=
  d.year < e.year ∨ d.year = e.year ∧ (d.month < e.month ∨ d.month = e.month ∧ d.day < e.day)

/-! ### Years and months -/

theorem isLeap_iff (y : Int) : isLeap y = true ↔ y % 4 = 0 ∧ (y % 100 ≠ 0 ∨ y % 400 = 0) := by
  simp [isLeap]

/-- The leap day of a calendar year is the last day of the year that began in March before. -/
theorem yearStart_succ (y : Int) :
    yearStart (y + 1) = yearStart y + if isLeap (y + 1) then 366 else 365 := by
  have hleap := isLeap_iff (y + 1)
  unfold yearStart
  split
  next h =>
    rw [hleap] at h
    omega
  next h =>
    rw [hleap] at h
    omega

/-- The calendar repeats itself after 400 years. -/
theorem yearStart_cycle (cycle : Int) (h₀ : 0 ≤ y) (h₁ : y ≤ 399) :
    yearStart (y + cycle * 400) = cycle * 146097 + (365 * y + y / 4 - y / 100) := by
  unfold yearStart
  omega

theorem yearStart_le (h : y ≤ y') : yearStart y ≤ yearStart y' := by
  unfold yearStart
  omega

theorem toDayCount_eq (d : Date) :
    d.toDayCount = yearStart d.marchYear + monthStart (marchMonth d.month) + d.day - 719469 := by
  simp only [toDayCount, yearStart, monthStart, marchYear, marchMonth]
  generalize (if d.month ≤ 2 then d.year - 1 else d.year) = y
  omega

theorem Valid.month (h : d.Valid) : 1 ≤ d.month ∧ d.month ≤ 12 := by
  have hlength : 1 ≤ monthLength d.year d.month := Nat.le_trans h.1 h.2
  unfold monthLength at hlength
  split at hlength <;> omega

theorem Valid.day (h : d.Valid) : 1 ≤ d.day ∧ d.day ≤ 31 := by
  have hlength : monthLength d.year d.month ≤ 31 := by
    unfold monthLength
    split
    case h_12 => split <;> omega
    all_goals omega
  exact ⟨h.1, Nat.le_trans h.2 hlength⟩

/-- Every month but February ends where the next one begins. -/
theorem monthStart_add_monthLength {month : Nat} (h₁ : 1 ≤ month) (h₂ : month ≤ 12)
    (hfebruary : month ≠ 2) (y : Int) :
    0 ≤ marchMonth month ∧ marchMonth month < 11 ∧
      monthStart (marchMonth month) + monthLength y month = monthStart (marchMonth month + 1) := by
  unfold monthLength
  split
  case h_12 => exact absurd rfl hfebruary
  case h_13 => grind
  all_goals exact ⟨by decide, by decide, by decide⟩

/-- A day lies in its month and in its year. -/
theorem Valid.march (h : d.Valid) :
    0 ≤ marchMonth d.month ∧ marchMonth d.month ≤ 11 ∧ 1 ≤ d.day ∧
      (marchMonth d.month < 11 →
        monthStart (marchMonth d.month) + d.day ≤ monthStart (marchMonth d.month + 1)) ∧
      yearStart d.marchYear + monthStart (marchMonth d.month) + d.day ≤
        yearStart (d.marchYear + 1) := by
  obtain ⟨year, month, day⟩ := d
  obtain ⟨hlow, hhigh⟩ : 1 ≤ day ∧ day ≤ monthLength year month := h
  have hsucc := yearStart_succ (marchYear ⟨year, month, day⟩)
  by_cases hfebruary : month = 2
  case pos =>
    subst hfebruary
    have hlength : day ≤ if isLeap year then 29 else 28 := hhigh
    have hmonth : marchMonth 2 = 11 := rfl
    have hstart : monthStart 11 = 337 := rfl
    rw [show marchYear ⟨year, 2, day⟩ = year - 1 from rfl, Int.sub_add_cancel] at hsucc ⊢
    dsimp only
    rw [hmonth, hstart]
    split_ifs at hsucc hlength <;> omega
  case neg =>
    obtain ⟨hfirst, hlast⟩ : 1 ≤ month ∧ month ≤ 12 :=
      Valid.month (d := ⟨year, month, day⟩) ⟨hlow, hhigh⟩
    obtain ⟨hmonth, hmonth', hnext⟩ := monthStart_add_monthLength hfirst hlast hfebruary year
    have hlast : monthStart (marchMonth month + 1) ≤ 337 := by
      unfold monthStart
      omega
    dsimp only
    split_ifs at hsucc <;> omega

/-! ### The order of dates -/

/-- A later date is a later day. -/
theorem toDayCount_lt_of_before (hd : d.Valid) (he : e.Valid) (h : d.Before e) :
    d.toDayCount < e.toDayCount := by
  obtain ⟨hd₀, hd₁, hd₂, hd₃, hd₄⟩ := hd.march
  obtain ⟨he₀, he₁, he₂, -, -⟩ := he.march
  rw [toDayCount_eq, toDayCount_eq]
  have hfrom : 0 ≤ monthStart (marchMonth e.month) := by
    unfold monthStart
    omega
  have hmarch : d.marchYear < e.marchYear ∨ d.marchYear = e.marchYear ∧
      (marchMonth d.month < marchMonth e.month ∨
        marchMonth d.month = marchMonth e.month ∧ d.day < e.day) := by
    have hdm := hd.month
    have hem := he.month
    unfold Before at h
    unfold marchYear marchMonth
    split_ifs <;> omega
  rcases hmarch with hyear | ⟨hyear, hmonth | ⟨hmonth, hday⟩⟩
  · have hle := yearStart_le (show d.marchYear + 1 ≤ e.marchYear from hyear)
    omega
  · have hnext := hd₃ (by omega)
    have hle : monthStart (marchMonth d.month + 1) ≤ monthStart (marchMonth e.month) := by
      unfold monthStart
      omega
    rw [hyear]
    omega
  · rw [hyear, hmonth]
    omega

/-! ### From a day to its date -/

/-- The year in a cycle of 400 years to which a day of the cycle belongs, and the day in that
year. Only a leap year has a day 365. -/
theorem yearOfCycle_spec {z : Int} (h₀ : 0 ≤ z) (h₁ : z < 146097)
    (hy : y = (z - z / 1460 + z / 36524 - z / 146096) / 365) :
    0 ≤ y ∧ y ≤ 399 ∧ 365 * y + y / 4 - y / 100 ≤ z ∧ z ≤ 365 * y + y / 4 - y / 100 + 365 ∧
      (z = 365 * y + y / 4 - y / 100 + 365 → isLeap (y + 1) = true) := by
  by_cases hlast : z = 146096
  · subst hlast hy
    decide
  have hzero : z / 146096 = 0 := by omega
  rw [hzero] at hy
  have hcentury : z / 36524 = 0 ∨ z / 36524 = 1 ∨ z / 36524 = 2 ∨ z / 36524 = 3 := by omega
  have hhundred : y / 100 = z / 36524 := by omega
  -- in the first days of some cycles of four years the quotients differ by one
  have hfour : y / 4 = z / 1460 ∨ y / 4 = z / 1460 - 1 := by omega
  have hrest : y % 4 = 0 ∨ y % 4 = 1 ∨ y % 4 = 2 ∨ y % 4 = 3 := by omega
  rw [hhundred, isLeap_iff]
  refine ⟨by omega, by omega, ?_, ?_, fun h ↦ ⟨?_, .inl ?_⟩⟩
  · rcases hfour with hfour | hfour <;> rw [hfour] <;> omega
  · rcases hfour with hfour | hfour <;> rw [hfour] <;> omega
  · rcases hfour with hfour | hfour <;> rw [hfour] at h
    · omega
    · rcases hrest with hrest | hrest | hrest | hrest <;> omega
  · rcases hfour with hfour | hfour <;> rw [hfour] at h <;> omega

/-- The month to which a day of a year belongs, and the day in that month. -/
theorem monthOfYear_spec {z : Int} (h₀ : 0 ≤ z) (h₁ : z ≤ 365) (hm : m = (5 * z + 2) / 153) :
    0 ≤ m ∧ m ≤ 11 ∧ monthStart m ≤ z ∧ z < monthStart (m + 1) := by
  unfold monthStart
  omega

/-- The date with the given year from March, month from March and day. -/
def ofMarch (year month day : Int) : Date :=
  ⟨if month < 10 then year else year + 1, (if month < 10 then month + 3 else month - 9).toNat,
    day.toNat⟩

theorem march_ofMarch (year day : Int) {month : Int} (h₀ : 0 ≤ month) (h₁ : month ≤ 11) :
    (ofMarch year month day).marchYear = year ∧
      marchMonth (ofMarch year month day).month = month := by
  unfold ofMarch marchYear marchMonth
  dsimp only
  split_ifs <;> omega

/-- The calendar has a date whose day lies in its month and in its year. -/
theorem valid_ofMarch {year month day : Int} (h₀ : 0 ≤ month) (h₁ : month ≤ 11) (hday : 1 ≤ day)
    (hmonth : monthStart month + day ≤ monthStart (month + 1))
    (hyear : yearStart year + monthStart month + day ≤ yearStart (year + 1)) :
    (ofMarch year month day).Valid := by
  refine ⟨show 1 ≤ day.toNat by omega, ?_⟩
  by_cases hfebruary : month = 11
  case pos =>
    subst hfebruary
    have hstart : monthStart 11 = 337 := rfl
    have hlength : day.toNat ≤ if isLeap (year + 1) then 29 else 28 := by
      rw [yearStart_succ, hstart] at hyear
      split_ifs at hyear ⊢ <;> omega
    exact hlength
  case neg =>
    obtain ⟨-, hmarch⟩ := march_ofMarch year day h₀ h₁
    have hrange : 1 ≤ (ofMarch year month day).month ∧ (ofMarch year month day).month ≤ 12 ∧
        (ofMarch year month day).month ≠ 2 := by
      unfold ofMarch
      dsimp only
      split_ifs <;> omega
    obtain ⟨-, -, hnext⟩ := monthStart_add_monthLength hrange.1 hrange.2.1 hrange.2.2
      (ofMarch year month day).year
    rw [hmarch] at hnext
    change day.toNat ≤ _
    omega

/-- A day is described by its year from March, its month from March and its day. -/
theorem exists_ofMarch (n : Int) :
    ∃ year month day : Int, 0 ≤ month ∧ month ≤ 11 ∧ 1 ≤ day ∧
      monthStart month + day ≤ monthStart (month + 1) ∧
      yearStart year + monthStart month + day ≤ yearStart (year + 1) ∧
      yearStart year + monthStart month + day - 719469 = n ∧
      ofDayCount n = ofMarch year month day := by
  unfold ofDayCount
  simp only
  generalize hz : (n + 719468) % 146097 = z
  generalize hcycle : (n + 719468) / 146097 = cycle
  generalize hyear : (z - z / 1460 + z / 36524 - z / 146096) / 365 = year
  obtain ⟨hy₀, hy₁, hlow, hhigh, hleap⟩ := yearOfCycle_spec (by omega) (by omega) hyear.symm
  generalize hday : z - (365 * year + year / 4 - year / 100) = day
  generalize hmonth : (5 * day + 2) / 153 = month
  obtain ⟨hm₀, hm₁, hfrom, hto⟩ := monthOfYear_spec (by omega) (by omega) hmonth.symm
  have hstart := yearStart_cycle cycle hy₀ hy₁
  refine ⟨year + cycle * 400, month, day - monthStart month + 1, hm₀, hm₁, by omega, by omega,
    ?_, by omega, ?_⟩
  · have hsame : isLeap (year + cycle * 400 + 1) = isLeap (year + 1) := by
      rw [Bool.eq_iff_iff, isLeap_iff, isLeap_iff]
      omega
    have hlast : day ≠ 365 ∨ isLeap (year + 1) = true := by
      by_cases h : day = 365
      · exact .inr (hleap (by omega))
      · exact .inl h
    rw [yearStart_succ, hsame]
    split_ifs with h
    · omega
    · have : day ≠ 365 := hlast.resolve_right h
      omega
  · unfold ofMarch monthStart
    rw [Date.mk.injEq]
    refine ⟨?_, rfl, by omega⟩
    split_ifs <;> omega

/-- The date of a day is one that the calendar has. -/
theorem valid_ofDayCount (n : Int) : (ofDayCount n).Valid := by
  obtain ⟨year, month, day, h₀, h₁, hday, hmonth, hyear, -, hdate⟩ := exists_ofMarch n
  rw [hdate]
  exact valid_ofMarch h₀ h₁ hday hmonth hyear

/-- The date of a day leads back to the day. -/
theorem toDayCount_ofDayCount (n : Int) : (ofDayCount n).toDayCount = n := by
  obtain ⟨year, month, day, h₀, h₁, hday, -, -, hcount, hdate⟩ := exists_ofMarch n
  obtain ⟨hyear, hmonth⟩ := march_ofMarch year day h₀ h₁
  have hback : ((ofMarch year month day).day : Int) = day := Int.toNat_of_nonneg (by omega)
  rw [hdate, toDayCount_eq, hyear, hmonth, hback, hcount]

/-- A day that is not earlier has no earlier date. -/
theorem not_before_ofDayCount (h : n ≤ m) : ¬(ofDayCount m).Before (ofDayCount n) := by
  intro hbefore
  have hlt := toDayCount_lt_of_before (valid_ofDayCount m) (valid_ofDayCount n) hbefore
  rw [toDayCount_ofDayCount, toDayCount_ofDayCount] at hlt
  omega

end Switchyard.Time.Date
