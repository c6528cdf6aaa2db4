import ChainIndex.Time.Basic
import Mathlib.Tactic.IntervalCases
import Mathlib.Tactic.Ring

/-!
# The calendar counts every day once

The day with a number is a day of the calendar, and it has that number (`toDays_ofDays`).

An era of 400 years is counted from March, and `yearStart` is the number of days in it before a year.
Which year a day belongs to is found by leaving out the leap days before it (`leapless`): what is left
are years of 365 days each. This never goes down from one day to the next, so it is enough to look at the
days on which years start and end (`years_checked`).
-/

namespace ChainIndex.Date

/-- The days of an era before one of its years. -/
def yearStart (y : Int) : Int :=
  365 * y + y / 4 - y / 100 + y / 400

/-- The number of a day in its era without the leap days before it. -/
def leapless (e : Int) : Int :=
  e - e / 1460 + e / 36524 - e / 146096

theorem leapless_mono {d e : Int} (h : d ≤ e) : leapless d ≤ leapless e := by
  unfold leapless
  omega

theorem years_checked : ∀ y ∈ List.range 400,
    leapless (yearStart (y + 1) - 1) < 365 * ((y : Int) + 1) ∧
      365 * (y : Int) ≤ leapless (yearStart y) := by
  decide +kernel

/-- **The year of a day in its era** starts no later and ends after it. -/
theorem year_spec {e y : Int} (h0 : 0 ≤ e) (he : e < 146097) (hy : y = leapless e / 365) :
    0 ≤ y ∧ y < 400 ∧ yearStart y ≤ e ∧ e < yearStart (y + 1) := by
  have hbounds : 0 ≤ y ∧ y < 400 := by
    unfold leapless at hy
    omega
  have hzero : yearStart 0 = 0 := rfl
  have hend : yearStart 400 = 146097 := rfl
  refine ⟨hbounds.1, hbounds.2, ?_, ?_⟩
  · by_contra hlater
    have hne : y ≠ 0 := by
      rintro rfl
      omega
    -- then the day is one of the year before
    have hprevious := (years_checked (y - 1).toNat (List.mem_range.2 (by omega))).1
    rw [Int.toNat_of_nonneg (by omega), sub_add_cancel] at hprevious
    have hmono := leapless_mono (show e ≤ yearStart y - 1 by omega)
    omega
  · by_contra hearlier
    have hne : y ≠ 399 := by
      rintro rfl
      exact hearlier (hend ▸ he)
    have hnext := (years_checked (y + 1).toNat (List.mem_range.2 (by omega))).2
    rw [Int.toNat_of_nonneg (by omega)] at hnext
    have hmono := leapless_mono (show yearStart (y + 1) ≤ e by omega)
    omega

/-- Years that are counted from March end with the February of the next one. -/
theorem yearStart_succ (y : Int) :
    yearStart (y + 1) = yearStart y + if isLeap (y + 1) then 366 else 365 := by
  have h4 : (y + 1) / 4 = y / 4 + if (y + 1) % 4 = 0 then 1 else 0 := by split <;> omega
  have h100 : (y + 1) / 100 = y / 100 + if (y + 1) % 100 = 0 then 1 else 0 := by split <;> omega
  have h400 : (y + 1) / 400 = y / 400 + if (y + 1) % 400 = 0 then 1 else 0 := by split <;> omega
  have hlength : (if isLeap (y + 1) then 366 else 365 : Int) =
      365 + (if (y + 1) % 4 = 0 then 1 else 0) - (if (y + 1) % 100 = 0 then 1 else 0) +
        if (y + 1) % 400 = 0 then 1 else 0 := by
    simp only [isLeap, Bool.and_eq_true, Bool.or_eq_true, decide_eq_true_eq]
    split_ifs <;> omega
  rw [hlength, yearStart, yearStart, h4, h100, h400]
  ring

theorem dayOfYear_spec {e y : Int} (h0 : 0 ≤ e) (he : e < 146097) (hy : y = leapless e / 365) :
    0 ≤ e - (365 * y + y / 4 - y / 100) ∧
      e - (365 * y + y / 4 - y / 100) < if isLeap (y + 1) then 366 else 365 := by
  obtain ⟨hlow, hhigh, hstart, hend⟩ := year_spec h0 he hy
  have heq : 365 * y + y / 4 - y / 100 = yearStart y := by
    unfold yearStart
    omega
  rw [yearStart_succ] at hend
  rw [heq]
  omega

theorem isLeap_add_eras (y era : Int) : isLeap (y + era * 400) = isLeap y := by
  unfold isLeap
  rw [show (y + era * 400) % 4 = y % 4 by omega, show (y + era * 400) % 100 = y % 100 by omega,
    show (y + era * 400) % 400 = y % 400 by omega]

/-- The day after `k` others of a month, which is counted from March, in a year of an era. -/
def ofEra (era y m k : Int) : Date :=
  let month := if m < 10 then m + 3 else m - 9
  { year := y + era * 400 + (if month ≤ 2 then 1 else 0)
    month := month.toNat
    day := (k + 1).toNat }

theorem toDays_ofEra {era y m k : Int} (hy : 0 ≤ y ∧ y < 400) (hm : 0 ≤ m ∧ m < 12) (hk : 0 ≤ k) :
    (ofEra era y m k).toDays =
      era * 146097 + (365 * y + y / 4 - y / 100 + ((153 * m + 2) / 5 + k)) - 719468 := by
  have hday : ((k + 1).toNat : Int) = k + 1 := Int.toNat_of_nonneg (by omega)
  by_cases h : m < 10
  · have hmonth : ¬(m + 3).toNat ≤ 2 := by omega
    have hmonth' : ¬m + 3 ≤ 2 := by omega
    simp only [toDays, ofEra, if_pos h, if_neg hmonth, if_neg hmonth']
    rw [show (y + era * 400 + 0) % 400 = y by omega, show (y + era * 400 + 0) / 400 = era by omega,
      show ((m + 3).toNat : Int) - 3 = m by omega, hday]
    ring
  · have hmonth : (m - 9).toNat ≤ 2 := by omega
    have hmonth' : m - 9 ≤ 2 := by omega
    simp only [toDays, ofEra, if_neg h, if_pos hmonth, if_pos hmonth']
    rw [show (y + era * 400 + 1 - 1) % 400 = y by omega,
      show (y + era * 400 + 1 - 1) / 400 = era by omega,
      show ((m - 9).toNat : Int) + 9 = m by omega, hday]
    ring

/-- A day before the next month and before the end of the year is in the calendar. -/
theorem isValid_ofEra {era y m k : Int} (hm : 0 ≤ m ∧ m < 12) (hk : 0 ≤ k)
    (hnext : (153 * m + 2) / 5 + k < (153 * (m + 1) + 2) / 5)
    (hyear : (153 * m + 2) / 5 + k < if isLeap (y + 1) then 366 else 365) :
    (ofEra era y m k).isValid = true := by
  obtain ⟨h0, h12⟩ := hm
  have hleap : isLeap (y + era * 400 + 1) = isLeap (y + 1) := by
    rw [← isLeap_add_eras (y + 1) era, add_right_comm]
  -- only February, the last month, depends on the year
  cases hl : isLeap (y + 1) <;> rw [hl] at hleap hyear <;> interval_cases m <;>
    simp [isValid, ofEra, daysInMonth, hleap] at hyear hnext ⊢ <;> omega

/-- **The day with a number is a day of the calendar and has that number.** -/
theorem toDays_ofDays (n : Int) : (ofDays n).toDays = n ∧ (ofDays n).isValid = true := by
  obtain ⟨e, he⟩ : ∃ e, e = (n + 719468) % 146097 := ⟨_, rfl⟩
  obtain ⟨y, hy⟩ : ∃ y, y = leapless e / 365 := ⟨_, rfl⟩
  obtain ⟨d, hd⟩ : ∃ d, d = e - (365 * y + y / 4 - y / 100) := ⟨_, rfl⟩
  obtain ⟨m, hm⟩ : ∃ m, m = (5 * d + 2) / 153 := ⟨_, rfl⟩
  have hofDays : ofDays n = ofEra ((n + 719468) / 146097) y m (d - (153 * m + 2) / 5) := by
    rw [hm, hd, hy, he]
    rfl
  have hera : 0 ≤ e ∧ e < 146097 := by omega
  obtain ⟨hy0, hy1, -, -⟩ := year_spec hera.1 hera.2 hy
  obtain ⟨hd0, hd1⟩ := dayOfYear_spec hera.1 hera.2 hy
  rw [← hd] at hd0 hd1
  have hd2 : d < 366 := by
    split at hd1 <;> omega
  have hmonth : 0 ≤ m ∧ m < 12 := by omega
  have hday : 0 ≤ d - (153 * m + 2) / 5 := by omega
  rw [hofDays]
  refine ⟨?_, isValid_ofEra hmonth hday ?_ ?_⟩
  · rw [toDays_ofEra ⟨hy0, hy1⟩ hmonth hday]
    omega
  · omega
  · rw [add_sub_cancel]
    exact hd1

end ChainIndex.Date
