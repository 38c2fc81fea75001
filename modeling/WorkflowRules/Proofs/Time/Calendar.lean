import WorkflowRules.Time.Calendar

/-!
# Days and dates

Every day has a date, and the date leads back to the day. The years of an era of 400 years are found by
counting centuries, groups of four years, and years.

* `Time.Date.toDays_ofDays` — the day of the date of a day is that day
* `Time.Date.ofDays_exists` — the date of a day is on the calendar, if its year is
-/

namespace WorkflowRules.Time

/-- The year of a day within an era, counted from 0. -/
def yearOfDay (day : Int) : Int := (day - day / 1460 + day / 36524 - day / 146096) / 365

/-- The days of an era before a year. -/
def daysBefore (year : Int) : Int := 365 * year + year / 4 - year / 100

/-- The month of a day of a year that begins in March, counted from 0. -/
def monthOfDay (day : Int) : Int := (5 * day + 2) / 153

/-- A day is day `s` of the group `q` of four years of the century `c`, and in year `u` of it. -/
theorem exists_century {day : Int} (h₀ : 0 ≤ day) (h₁ : day ≤ 146096) :
    ∃ c q s u : Int, day = 36524 * c + 1461 * q + s ∧ 0 ≤ c ∧ c ≤ 4 ∧ 0 ≤ q ∧ q ≤ 24 ∧
      0 ≤ s ∧ s ≤ 1460 ∧ (q = 24 → s ≤ 1459) ∧ (c = 4 → q = 0 ∧ s = 0) ∧
      u = min 3 (s / 365) ∧
      yearOfDay day = if c = 4 then 399 else 100 * c + 4 * q + u := by
  have hc : day / 36524 = 0 ∨ day / 36524 = 1 ∨ day / 36524 = 2 ∨ day / 36524 = 3 ∨
      day / 36524 = 4 := by omega
  refine ⟨day / 36524, day % 36524 / 1461, day % 36524 % 1461, _, by omega, by omega, by omega,
    by omega, by omega, by omega, by omega, by omega, by omega, rfl, ?_⟩
  unfold yearOfDay
  -- the last day of an era is counted as a fifth century
  rcases hc with h | h | h | h | h <;> rw [h] <;> simp <;> omega

/-- Where a day stands in its year; only a leap year has a day 365. -/
theorem yearOfDay_spec {day : Int} (h₀ : 0 ≤ day) (h₁ : day ≤ 146096) :
    0 ≤ yearOfDay day ∧ yearOfDay day ≤ 399 ∧ 0 ≤ day - daysBefore (yearOfDay day) ∧
      day - daysBefore (yearOfDay day) ≤ 365 ∧
      (day - daysBefore (yearOfDay day) = 365 → (yearOfDay day + 1) % 4 = 0 ∧
        ((yearOfDay day + 1) % 100 ≠ 0 ∨ yearOfDay day = 399)) := by
  obtain ⟨c, q, s, u, hday, hc₀, hc₁, hq₀, hq₁, hs₀, hs₁, hqs, hlast, hu, hyear⟩ :=
    exists_century h₀ h₁
  unfold daysBefore
  rw [hyear]
  split
  · next h =>
    obtain ⟨rfl, rfl⟩ := hlast h
    omega
  · next h =>
    have hquarter : (100 * c + 4 * q + u) / 4 = 25 * c + q := by omega
    have hcentury : (100 * c + 4 * q + u) / 100 = c := by omega
    rw [hquarter, hcentury]
    omega

/-- The date of a day, from its era, its year in the era, and its month in the year. -/
theorem Date.ofDays_eq (days : Int) :
    ∃ era day year place : Int, days + 719468 = era * 146097 + day ∧ 0 ≤ day ∧ day ≤ 146096 ∧
      year = yearOfDay day ∧ place = day - daysBefore year ∧
      Date.ofDays days =
        if monthOfDay place < 10 then
          ⟨year + era * 400, (monthOfDay place + 3).toNat,
            (place - (153 * monthOfDay place + 2) / 5 + 1).toNat⟩
        else
          ⟨year + era * 400 + 1, (monthOfDay place - 9).toNat,
            (place - (153 * monthOfDay place + 2) / 5 + 1).toNat⟩ := by
  refine ⟨(days + 719468) / 146097, days + 719468 - (days + 719468) / 146097 * 146097, _, _,
    by omega, by omega, by omega, rfl, rfl, rfl⟩

/-- The date of a day leads back to the day. -/
theorem Date.toDays_ofDays (days : Int) : (Date.ofDays days).toDays = days := by
  obtain ⟨era, day, year, place, hdays, h₀, h₁, hyear, hplace, hdate⟩ := Date.ofDays_eq days
  obtain ⟨hy₀, hy₁, hp₀, hp₁, -⟩ := yearOfDay_spec h₀ h₁
  rw [← hyear] at hy₀ hy₁ hp₀ hp₁
  rw [← hplace] at hp₀ hp₁
  have hm₀ : 0 ≤ monthOfDay place := by unfold monthOfDay; omega
  have hm₁ : monthOfDay place ≤ 11 := by unfold monthOfDay; omega
  have hd : 0 ≤ place - (153 * monthOfDay place + 2) / 5 := by unfold monthOfDay; omega
  have hera : (year + era * 400) / 400 = era := by omega
  have hrest : year + era * 400 - era * 400 = year := by omega
  have hday : ((place - (153 * monthOfDay place + 2) / 5 + 1).toNat : Int) =
      place - (153 * monthOfDay place + 2) / 5 + 1 := Int.toNat_of_nonneg (by omega)
  -- years begin in March here, so that January and February belong to the year before
  rw [hdate]
  unfold Date.toDays
  unfold daysBefore at hplace
  split
  · next h =>
    have hmonth : ¬ (monthOfDay place + 3).toNat ≤ 2 := by omega
    have hback : ((monthOfDay place + 3).toNat : Int) - 3 = monthOfDay place := by omega
    simp only [if_neg hmonth, hera, hrest, hback, hday]
    omega
  · next h =>
    have hmonth : (monthOfDay place - 9).toNat ≤ 2 := by omega
    have hback : ((monthOfDay place - 9).toNat : Int) + 9 = monthOfDay place := by omega
    have hyear : year + era * 400 + 1 - 1 = year + era * 400 := by omega
    simp only [if_pos hmonth, hyear, hera, hrest, hback, hday]
    omega

theorem isLeapYear_iff (year : Int) :
    isLeapYear year = true ↔ year % 4 = 0 ∧ year % 100 ≠ 0 ∨ year % 400 = 0 := by
  simp [isLeapYear]

/-- The months of a year that begins in March are as long as those of the calendar. -/
theorem day_le_daysInMonth {year place : Int} (h₀ : 0 ≤ place) (h₁ : place ≤ 365)
    (leap : place = 365 → isLeapYear (year + 1) = true) :
    let month := monthOfDay place
    let day := (place - (153 * month + 2) / 5 + 1).toNat
    1 ≤ day ∧ 0 ≤ month ∧ month ≤ 11 ∧
      (month < 10 → day ≤ daysInMonth year (month + 3).toNat) ∧
      (10 ≤ month → day ≤ daysInMonth (year + 1) (month - 9).toNat) := by
  intro month day
  have hm₀ : 0 ≤ month := by unfold month monthOfDay; omega
  have hm₁ : month ≤ 11 := by unfold month monthOfDay; omega
  -- five months from March on have 153 days, so that the day in the month is bounded by division
  have hplace : 153 * month ≤ 5 * place + 2 ∧ 5 * place + 2 ≤ 153 * month + 152 := by
    unfold month monthOfDay; omega
  have hd : (day : Int) = place - (153 * month + 2) / 5 + 1 := Int.toNat_of_nonneg (by omega)
  refine ⟨by omega, hm₀, hm₁, fun h => ?_, fun h => ?_⟩
  · have : month = 0 ∨ month = 1 ∨ month = 2 ∨ month = 3 ∨ month = 4 ∨ month = 5 ∨ month = 6 ∨
        month = 7 ∨ month = 8 ∨ month = 9 := by omega
    unfold daysInMonth
    rcases this with hm | hm | hm | hm | hm | hm | hm | hm | hm | hm <;>
      rw [hm] at hd hplace ⊢ <;> simp <;> omega
  · have : month = 10 ∨ month = 11 := by omega
    unfold daysInMonth
    rcases this with hm | hm <;> rw [hm] at hd hplace ⊢
    · simp
      omega
    · simp only [Int.reduceSub, Int.reduceToNat, if_true]
      by_cases hlast : place = 365
      · rw [if_pos (leap hlast)]
        omega
      · split <;> omega

/-- The date of a day is on the calendar, if its year is. -/
theorem Date.ofDays_exists {days : Int} (h₁ : yearRange.1 ≤ (Date.ofDays days).year)
    (h₂ : (Date.ofDays days).year ≤ yearRange.2) : (Date.ofDays days).exists = true := by
  obtain ⟨era, day, year, place, hdays, hd₀, hd₁, hyear, hplace, hdate⟩ := Date.ofDays_eq days
  obtain ⟨hy₀, hy₁, hp₀, hp₁, hleap⟩ := yearOfDay_spec hd₀ hd₁
  rw [← hyear] at hy₀ hy₁ hp₀ hp₁ hleap
  rw [← hplace] at hp₀ hp₁ hleap
  have leap : place = 365 → isLeapYear (year + era * 400 + 1) = true := by
    intro h
    have := hleap h
    rw [isLeapYear_iff]
    omega
  obtain ⟨hday, hm₀, hm₁, hearly, hlate⟩ := day_le_daysInMonth hp₀ hp₁ leap
  unfold Date.exists
  rw [hdate] at h₁ h₂ ⊢
  split
  · next h =>
    rw [if_pos h] at h₁ h₂
    simp only [Bool.and_eq_true, decide_eq_true_eq]
    exact ⟨⟨⟨⟨⟨h₁, h₂⟩, by omega⟩, by omega⟩, hday⟩, hearly h⟩
  · next h =>
    rw [if_neg h] at h₁ h₂
    simp only [Bool.and_eq_true, decide_eq_true_eq]
    exact ⟨⟨⟨⟨⟨h₁, h₂⟩, by omega⟩, by omega⟩, hday⟩, hlate (by omega)⟩

/-- The days from the first of the year 0 to the last of the year 9999. -/
def isFourDigitDay (days : Int) : Prop := -719528 ≤ days ∧ days ≤ 2932896

theorem Date.ofDays_year {days : Int} (h : isFourDigitDay days) :
    0 ≤ (Date.ofDays days).year ∧ (Date.ofDays days).year ≤ 9999 := by
  obtain ⟨h₁, h₂⟩ := h
  obtain ⟨era, day, year, place, hdays, hd₀, hd₁, hyear, hplace, hdate⟩ := Date.ofDays_eq days
  obtain ⟨hy₀, hy₁, hp₀, hp₁, -⟩ := yearOfDay_spec hd₀ hd₁
  rw [← hyear] at hy₀ hy₁ hp₀ hp₁
  rw [← hplace] at hp₀ hp₁
  unfold daysBefore at hplace
  rw [hdate]
  -- only the first and the last era reach beyond these years
  have hera : -1 ≤ era ∧ era ≤ 24 := by omega
  split
  · next hm =>
    unfold monthOfDay at hm
    have : 0 ≤ year + era * 400 ∧ year + era * 400 ≤ 9999 := by omega
    exact this
  · next hm =>
    unfold monthOfDay at hm
    have : 0 ≤ year + era * 400 + 1 ∧ year + era * 400 + 1 ≤ 9999 := by omega
    exact this

end WorkflowRules.Time
