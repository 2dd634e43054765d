import AccessControl.Proofs.Calendar.Moments
import Mathlib.Tactic.IntervalCases

/-! # Dates and days

The date of a day is one that exists, and it is counted as that day. Both ways of counting go
through eras of four centuries and years that start in March: a day of an era is so many centuries,
so many times four years, so many years and so many days, and the five months from March and from
August on have 153 days each.
-/
namespace AccessControl.Date

def yearStart (y : Nat) : Nat := 365 * y + y / 4 - y / 100

def ofMarch (y : Int) (k : Nat) : Date :=
  let month := (5 * k + 2) / 153
  let day := k - (153 * month + 2) / 5 + 1
  if month < 10 then ⟨y, month + 3, day⟩ else ⟨y + 1, month - 9, day⟩

/-- A day is counted in centuries, then in four years at a time, then in years. The last of four
years has one day more, though not that of the first three centuries. -/
theorem exists_parts {d : Nat} (h : d < 146097) :
    ∃ c t s k, d = 36524 * c + 1461 * t + 365 * s + k ∧ c < 4 ∧ t < 25 ∧
    s < 4 ∧ (k < 365 ∨ k = 365 ∧ s = 3 ∧ (t < 24 ∨ c = 3)) := by
  obtain ⟨c, hc⟩ : ∃ c, c = min (d / 36524) 3 := ⟨_, rfl⟩
  obtain ⟨t, ht⟩ : ∃ t, t = (d - 36524 * c) / 1461 := ⟨_, rfl⟩
  obtain ⟨s, hs⟩ : ∃ s, s = min ((d - 36524 * c - 1461 * t) / 365) 3 := ⟨_, rfl⟩
  exact ⟨c, t, s, d - 36524 * c - 1461 * t - 365 * s, by omega⟩

/-- The year is found from the day of the era. The last day of an era is one more than four
centuries of 36524 days and needs a word of its own. -/
theorem yearOfEra_eq {c t s k : Nat} (hc : c < 4) (ht : t < 25) (hs : s < 4)
    (hk : k < 365 ∨ k = 365 ∧ s = 3 ∧ (t < 24 ∨ c = 3)) {d : Nat}
    (hd : d = 36524 * c + 1461 * t + 365 * s + k) :
    (d - d / 1460 + d / 36524 - d / 146096) / 365 = 100 * c + 4 * t + s := by
  by_cases hlast : d = 146096
  · subst hlast
    omega
  · have hcentury : d / 36524 = c := by omega
    have hera : d / 146096 = 0 := by omega
    rw [hcentury, hera, hd]
    omega

theorem yearStart_parts {c t s : Nat} (ht : t < 25) (hs : s < 4) :
    yearStart (100 * c + 4 * t + s) = 36524 * c + 1461 * t + 365 * s := by
  simp only [yearStart]
  omega

theorem isLeapYear_iff {y : Int} : isLeapYear y = true ↔ y % 4 = 0 ∧ y % 100 ≠ 0 ∨ y % 400 = 0 := by
  simp [isLeapYear]

theorem exists_yearOfEra {d : Nat} (h : d < 146097) : ∃ y k, d = yearStart y + k ∧ y < 400 ∧
    (k < 365 ∨ k = 365 ∧ ∀ era : Int, isLeapYear (era * 400 + y + 1) = true) ∧
    (d - d / 1460 + d / 36524 - d / 146096) / 365 = y := by
  obtain ⟨c, t, s, k, hd, hc, ht, hs, hk⟩ := exists_parts h
  refine ⟨100 * c + 4 * t + s, k, ?_, by omega, ?_, yearOfEra_eq hc ht hs hk hd⟩
  · rw [yearStart_parts ht hs, hd]
  · rcases hk with hk | ⟨hk, hs, hleap⟩
    · exact .inl hk
    · refine .inr ⟨hk, fun era => ?_⟩
      rw [isLeapYear_iff]
      omega

/-- A date is found by its year since March and its day in that year. -/
theorem exists_ofDays_eq (n : Int) :
    ∃ (era : Int) (y k : Nat), n + 719468 = era * 146097 + yearStart y + k ∧ y < 400 ∧
    (k < 365 ∨ k = 365 ∧ isLeapYear (era * 400 + y + 1) = true) ∧
      ofDays n = ofMarch (era * 400 + y) k := by
  obtain ⟨d, hd⟩ : ∃ d, d = ((n + 719468) % 146097).toNat := ⟨_, rfl⟩
  obtain ⟨y, k, hparts, hy, hk, hyear⟩ := exists_yearOfEra (d := d) (by omega)
  have hday : d - (365 * y + y / 4 - y / 100) = k := by
    rw [hparts, yearStart, Nat.add_sub_cancel_left]
  refine ⟨(n + 719468) / 146097, y, k,
    by omega, hy, hk.imp_right fun ⟨hlast, hleap⟩ => ⟨hlast, hleap _⟩, ?_⟩
  simp only [ofDays, ofMarch, ← hd, hyear, hday]

/-- The day that a date is counted as, in terms of the year and the month counted from March. -/
def dayOfMarch (era : Int) (y m day : Nat) : Int :=
  era * 146097 + yearStart y + ((153 * m + 2) / 5 + day - 1 : Nat) - 719468

theorem toDays_spring {era : Int} {y m : Nat} (hy : y < 400) (hm : m < 10) (day : Nat) :
    toDays ⟨era * 400 + y, m + 3, day⟩ = dayOfMarch era y m day := by
  have hera : (era * 400 + (y : Int)) / 400 = era := by omega
  have hyear : (era * 400 + (y : Int)) % 400 = y := by omega
  have hmonth : ¬m + 3 ≤ 2 := by omega
  simp only [toDays, dayOfMarch, yearStart, if_neg hmonth, hera, hyear, Nat.add_sub_cancel]
  omega

theorem toDays_winter {era : Int} {y m : Nat} (hy : y < 400) (hm : 10 ≤ m) (hm' : m < 12)
    (day : Nat) :
    toDays ⟨era * 400 + y + 1, m - 9, day⟩ = dayOfMarch era y m day := by
  have hera : (era * 400 + (y : Int)) / 400 = era := by omega
  have hyear : (era * 400 + (y : Int)) % 400 = y := by omega
  have hmonth : m - 9 ≤ 2 := by omega
  have hback : m - 9 + 9 = m := by omega
  simp only [toDays, dayOfMarch, yearStart, if_pos hmonth, Int.add_sub_cancel, hera, hyear, hback]
  omega

theorem toDays_ofMarch {era : Int} {y k : Nat} (hy : y < 400) (hk : k < 366) :
    (ofMarch (era * 400 + y) k).toDays = era * 146097 + yearStart y + k - 719468 := by
  obtain ⟨m, hm⟩ : ∃ m, m = (5 * k + 2) / 153 := ⟨_, rfl⟩
  have hcount : (153 * m + 2) / 5 + (k - (153 * m + 2) / 5 + 1) - 1 = k := by omega
  simp only [ofMarch, ← hm]
  split
  · rename_i hspring
    rw [toDays_spring hy hspring, dayOfMarch, hcount]
  · rename_i hwinter
    rw [toDays_winter hy (by omega) (by omega), dayOfMarch, hcount]

theorem toDays_ofDays (n : Int) : (ofDays n).toDays = n := by
  obtain ⟨era, y, k, hn, hy, hk, hdate⟩ := exists_ofDays_eq n
  rw [hdate, toDays_ofMarch hy (by omega)]
  omega

theorem daysInMonth_spring {m : Nat} (hm : m < 10) (y : Int) :
    daysInMonth y (m + 3) = (153 * (m + 1) + 2) / 5 - (153 * m + 2) / 5 := by
  interval_cases m <;> rfl

theorem daysInMonth_february (y : Int) : daysInMonth y 2 = if isLeapYear y then 29 else 28 := rfl

theorem month_ofMarch {y : Int} {k : Nat} (hk : k < 366) :
    1 ≤ (ofMarch y k).month ∧ (ofMarch y k).month ≤ 12 := by
  obtain ⟨m, hm⟩ : ∃ m, m = (5 * k + 2) / 153 := ⟨_, rfl⟩
  simp only [ofMarch, ← hm]
  split
  · show 1 ≤ m + 3 ∧ m + 3 ≤ 12
    omega
  · show 1 ≤ m - 9 ∧ m - 9 ≤ 12
    omega

/-- In a year that starts in March every day falls in a month that is long enough. The last one is
only there when the February at its end has 29 days. -/
theorem day_ofMarch {y : Int} {k : Nat} (hk : k < 365 ∨ k = 365 ∧ isLeapYear (y + 1) = true) :
    1 ≤ (ofMarch y k).day ∧
      (ofMarch y k).day ≤ daysInMonth (ofMarch y k).year (ofMarch y k).month := by
  obtain ⟨m, hm⟩ : ∃ m, m = (5 * k + 2) / 153 := ⟨_, rfl⟩
  simp only [ofMarch, ← hm]
  split
  · rename_i hspring
    refine ⟨Nat.le_add_left 1 _, ?_⟩
    simp only [daysInMonth_spring hspring]
    omega
  · refine ⟨Nat.le_add_left 1 _, ?_⟩
    obtain rfl | rfl : m = 10 ∨ m = 11 := by omega
    · show k - 306 + 1 ≤ 31
      omega
    · simp only [Nat.reduceSub, daysInMonth_february]
      rcases hk with hk | ⟨rfl, hleap⟩
      · split <;> omega
      · rw [if_pos hleap]

theorem year_ofMarch {y : Int} {k : Nat} : (ofMarch y k).year = if k < 306 then y else y + 1 := by
  have hiff : (5 * k + 2) / 153 < 10 ↔ k < 306 := by omega
  simp only [ofMarch, hiff]
  split <;> rfl

/-- The days from the first to the last of the calendar are those of its years. -/
theorem year_ofDays {n : Int} (hleast : -96465292 ≤ n) (hgreatest : n ≤ 95026236) :
    leastYear ≤ (ofDays n).year ∧ (ofDays n).year ≤ greatestYear := by
  obtain ⟨era, y, k, hn, hy, hk, hdate⟩ := exists_ofDays_eq n
  rw [hdate, year_ofMarch]
  simp only [yearStart] at hn
  simp only [leastYear, greatestYear]
  have hfirst : era = -656 → 256 ≤ y ∧ (y = 256 → 306 ≤ k) := by omega
  have hlast : era = 655 → y ≤ 142 ∧ (y = 142 → k < 306) := by omega
  split <;> omega

theorem isValid_ofDays {n : Int} (hleast : -96465292 ≤ n) (hgreatest : n ≤ 95026236) :
    (ofDays n).isValid = true := by
  obtain ⟨hfirst, hlast⟩ := year_ofDays hleast hgreatest
  obtain ⟨era, y, k, hn, hy, hk, hdate⟩ := exists_ofDays_eq n
  rw [hdate] at hfirst hlast ⊢
  have hmonth := month_ofMarch (y := era * 400 + y) (show k < 366 by omega)
  have hday := day_ofMarch hk
  simp only [isValid, hfirst, hlast, hmonth, hday, decide_true, Bool.and_self]

theorem parts_of_isValid {d : Date} (h : d.isValid = true) : d.month ≤ 12 ∧ d.day ≤ 31 := by
  simp only [isValid, Bool.and_eq_true, decide_eq_true_eq] at h
  obtain ⟨⟨⟨_, hmonth⟩, _⟩, hday⟩ := h
  refine ⟨hmonth, Nat.le_trans hday ?_⟩
  rw [daysInMonth]
  split
  · split <;> decide
  · split <;> decide

end AccessControl.Date
