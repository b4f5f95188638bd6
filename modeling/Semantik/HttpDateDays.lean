import Semantik.Lib.Calendar
import Semantik.RetryAfter

/-!
# The days of the date formula

`imfToUnix` counts days with a closed formula on years that begin in March. From each date of the
calendar to the next it grows by one, so it counts the days.
-/

namespace Semantik

open Calendar

/-- The days before a year that begins in March, from the year zero on. -/
def daysBeforeMarch (y : ℤ) : ℤ := 365 * y + y / 4 - y / 100 + y / 400

/-- The days of a year that begins in March before a month. -/
def daysFromMarch (month : ℕ) : ℕ := (153 * (if 2 < month then month - 3 else month + 9) + 2) / 5

def civilDay (year : ℤ) (month day : ℕ) : ℤ :=
  daysBeforeMarch (year - if month ≤ 2 then 1 else 0) + daysFromMarch month + day - 719469

structure ImfRange (year : ℤ) (month day hour minute second : ℕ) : Prop where
  year : 1970 ≤ year ∧ year ≤ 9999
  month : 1 ≤ month ∧ month ≤ 12
  day : 1 ≤ day ∧ day ≤ 31
  hour : hour < 24
  minute : minute < 60
  second : second < 60

theorem imfRange_iff {year : ℤ} {month day hour minute second : ℕ} :
    ImfRange year month day hour minute second ↔
      ¬ (¬ (1970 ≤ year ∧ year ≤ 9999) ∨ ¬ (1 ≤ month ∧ month ≤ 12) ∨ ¬ (1 ≤ day ∧ day ≤ 31) ∨
        24 ≤ hour ∨ 60 ≤ minute ∨ 60 ≤ second) := by
  constructor
  · rintro ⟨hyear, hmonth, hday, hhour, hminute, hsecond⟩
    omega
  · intro h
    constructor <;> omega

theorem le_daysBeforeMarch {y : ℤ} (h : 1970 ≤ y) : 719527 ≤ daysBeforeMarch y := by
  have hcentury : y / 100 ≤ y / 4 := by omega
  rcases h.eq_or_lt with rfl | h'
  · decide
  · rcases (Int.add_one_le_of_lt h').eq_or_lt with rfl | h''
    · decide
    · unfold daysBeforeMarch
      omega

theorem civilDay_nonneg {year : ℤ} {month day : ℕ} (hyear : 1970 ≤ year) (hmonth : 1 ≤ month)
    (hday : 1 ≤ day) : 0 ≤ civilDay year month day := by
  unfold civilDay
  split_ifs with h
  · have hfrom : 306 ≤ daysFromMarch month := by
      rw [daysFromMarch, if_neg (by omega)]
      omega
    rcases hyear.eq_or_lt with rfl | hlt
    · have hbefore : daysBeforeMarch (1970 - 1) = 719162 := by decide
      omega
    · have hbefore := le_daysBeforeMarch (y := year - 1) (by omega)
      omega
  · have hbefore := le_daysBeforeMarch (y := year - 0) (by omega)
    omega

theorem daysFromMarch_le {month : ℕ} (h : month ≤ 12) : daysFromMarch month ≤ 337 := by
  unfold daysFromMarch
  split_ifs <;> omega

theorem civilDay_lt {year : ℤ} {month day : ℕ} (hyear : 0 ≤ year ∧ year ≤ 9999)
    (hmonth : month ≤ 12) (hday : day ≤ 31) : civilDay year month day < 2 ^ 63 := by
  have hfrom := daysFromMarch_le hmonth
  unfold civilDay daysBeforeMarch
  split_ifs <;> omega

/-- The day count of the source, with its eras of 400 years, for a year that begins in March. -/
theorem eraDay_eq {y : ℤ} (hy : 0 ≤ y ∧ y ≤ 9999) (doy : ℕ) {yoe : ℕ}
    (hyoe : yoe = asU64 (y - (if 0 ≤ y then y else y - 399).tdiv 400 * 400)) :
    (if 0 ≤ y then y else y - 399).tdiv 400 * 146097 +
        ((yoe * 365 + yoe / 4 - yoe / 100 + doy : ℕ) : ℤ) = daysBeforeMarch y + doy := by
  have hera : (if 0 ≤ y then y else y - 399).tdiv 400 = y / 400 := by
    rw [if_pos hy.1, Int.tdiv_eq_ediv_of_nonneg hy.1]
  rw [hera] at hyoe ⊢
  have hcast : (yoe : ℤ) = y - y / 400 * 400 := by
    rw [hyoe]
    exact asU64_of_nonneg (by omega) (by omega)
  unfold daysBeforeMarch
  omega

theorem civilDay_eq (year : ℤ) (month : ℕ) {day : ℕ} (hday : 1 ≤ day) : civilDay year month day =
    daysBeforeMarch (year - if month ≤ 2 then 1 else 0) + (daysFromMarch month + day - 1 : ℕ) -
      719468 := by
  unfold civilDay
  omega

/-- The year that begins in March, of a year in range. -/
theorem ImfRange.marchYear {year : ℤ} {month day hour minute second : ℕ}
    (h : ImfRange year month day hour minute second) :
    0 ≤ year - (if month ≤ 2 then 1 else 0) ∧ year - (if month ≤ 2 then 1 else 0) ≤ 9999 := by
  have hyear := h.year
  split_ifs <;> omega

theorem ImfRange.civilDay_nonneg {year : ℤ} {month day hour minute second : ℕ}
    (h : ImfRange year month day hour minute second) : 0 ≤ civilDay year month day :=
  Semantik.civilDay_nonneg h.year.1 h.month.1 h.day.1

theorem ImfRange.civilDay_lt {year : ℤ} {month day hour minute second : ℕ}
    (h : ImfRange year month day hour minute second) : civilDay year month day < 2 ^ 63 :=
  Semantik.civilDay_lt ⟨by have := h.year; omega, h.year.2⟩ h.month.2 h.day.2

theorem imfToUnix_eq_some {year : ℤ} {month day hour minute second : ℕ}
    (h : ImfRange year month day hour minute second) :
    imfToUnix year month day hour minute second =
      some ((civilDay year month day).toNat * 86400 + hour * 3600 + minute * 60 + second) := by
  have hdays := eraDay_eq h.marchYear (daysFromMarch month + day - 1) rfl
  have hcivil := civilDay_eq year month h.day.1
  have hlt := h.civilDay_lt
  rw [imfToUnix, if_neg (imfRange_iff.1 h)]
  rw [daysFromMarch] at hdays hcivil
  dsimp only
  rw [hdays, ← hcivil, if_neg (not_lt.2 h.civilDay_nonneg), asU64,
    Int.emod_eq_of_lt h.civilDay_nonneg (by omega)]

theorem imfToUnix_eq_none {year : ℤ} {month day hour minute second : ℕ}
    (h : ¬ ImfRange year month day hour minute second) :
    imfToUnix year month day hour minute second = none := by
  rw [imfRange_iff, not_not] at h
  rw [imfToUnix, if_pos h]

/-- The year that ends in this February has a leap day if the calendar year does. -/
theorem daysBeforeMarch_succ (year : ℕ) : daysBeforeMarch year =
    daysBeforeMarch (year - 1) + 337 + daysInMonth year 2 := by
  unfold daysBeforeMarch daysInMonth
  by_cases hleap : IsLeap year
  · rw [if_pos rfl, if_pos hleap]
    unfold IsLeap at hleap
    omega
  · rw [if_pos rfl, if_neg hleap]
    unfold IsLeap at hleap
    omega

/-- The months from March to January, which lie in one year. -/
theorem daysFromMarch_succ (year : ℕ) {month : ℕ} (h : 1 ≤ month) (h' : month < 12) (h2 : month ≠ 2) :
    daysFromMarch (month + 1) = daysFromMarch month + daysInMonth year month := by
  unfold daysInMonth
  interval_cases month <;> first | contradiction | rfl

/-- The day count of a date. -/
def dayCount (d : Date) : ℤ := civilDay d.year d.month d.day

theorem dayCount_next (d : Date) : dayCount d.next = dayCount d + 1 := by
  unfold dayCount
  rcases d.next_cases with ⟨-, hy, hm, hd⟩ | ⟨hlast, hlt, hy, hm, hd⟩ | ⟨hlast, hdec, hy, hm, hd⟩
  · rw [hy, hm, hd, civilDay, civilDay]
    omega
  · rw [hy, hm, hd, hlast]
    by_cases h2 : d.month = 2
    · -- from February to March the year of the formula changes
      have hyear := daysBeforeMarch_succ d.year
      have hfrom : daysFromMarch 2 = 337 ∧ daysFromMarch (2 + 1) = 0 := by decide
      rw [h2, civilDay, civilDay, if_neg (by omega), if_pos (by omega), hfrom.1, hfrom.2, sub_zero]
      omega
    · have hfrom := daysFromMarch_succ d.year d.month_pos hlt h2
      have hsame : d.month + 1 ≤ 2 ↔ d.month ≤ 2 := by
        have := d.month_pos
        omega
      simp only [civilDay, hsame, hfrom]
      omega
  · -- December and January belong to the same year of the formula
    have hfrom : daysFromMarch 12 + 31 = daysFromMarch 1 := by decide
    have hlast' : daysInMonth d.year 12 = 31 := rfl
    rw [hy, hm, hd, hlast, hdec, hlast', civilDay, civilDay, if_pos (by omega), if_neg (by omega),
      ← hfrom]
    push_cast
    rw [add_sub_cancel_right, sub_zero]
    omega

def epoch : Date := ⟨1970, 1, 1, by decide, by decide, by decide, by decide⟩

theorem dayCount_after (n : ℕ) : dayCount (epoch.after n) = n := by
  have hepoch : dayCount epoch = 0 := by decide
  rw [Date.count_after dayCount_next, hepoch, zero_add]

theorem year_after (n : ℕ) : 1970 ≤ (epoch.after n).year := by
  rcases (epoch.after_strictMono.monotone n.zero_le).eq_or_lt with heq | hlt
  · rw [← heq]
    decide
  · rw [Date.after_zero, Date.lt_iff] at hlt
    change 1970 < _ ∨ 1970 = _ ∧ _ at hlt
    omega

/-- `imfToUnix` counts the days that have passed since the epoch. -/
theorem imfToUnix_after {n hour minute second : ℕ} (hyear : (epoch.after n).year ≤ 9999)
    (hhour : hour < 24) (hminute : minute < 60) (hsecond : second < 60) :
    imfToUnix (epoch.after n).year (epoch.after n).month (epoch.after n).day hour minute second =
      some (n * 86400 + hour * 3600 + minute * 60 + second) := by
  have hmin := year_after n
  have hrange : ImfRange (epoch.after n).year (epoch.after n).month (epoch.after n).day hour minute
      second :=
    ⟨by omega, ⟨(epoch.after n).month_pos, (epoch.after n).month_le⟩,
      ⟨(epoch.after n).day_pos, (epoch.after n).day_le_31⟩, hhour, hminute, hsecond⟩
  rw [imfToUnix_eq_some hrange, ← dayCount, dayCount_after, Int.toNat_natCast]

def checkedI64 (n : ℤ) : Option ℤ := if -2 ^ 63 ≤ n ∧ n < 2 ^ 63 then some n else none

def checkedU64 (n : ℤ) : Option ℕ := if 0 ≤ n ∧ n < 2 ^ 64 then some n.toNat else none

def checkedSub (a b : ℕ) : Option ℕ := if b ≤ a then some (a - b) else none

def checkedEra (y : ℤ) : Option ℤ :=
  (if 0 ≤ y then some y else checkedI64 (y - 399)).map (Int.tdiv · 400)

def checkedMonth (month : ℕ) : Option ℕ :=
  if 2 < month then checkedSub month 3 else some (month + 9)

/-- `imfToUnix` with every cast and subtraction checked: the outer `none` is for one that wraps. -/
def imfToUnixChecked (year : ℤ) (month day hour minute second : ℕ) : Option (Option ℕ) :=
  if ¬ (1970 ≤ year ∧ year ≤ 9999) ∨ ¬ (1 ≤ month ∧ month ≤ 12) ∨ ¬ (1 ≤ day ∧ day ≤ 31) ∨
      24 ≤ hour ∨ 60 ≤ minute ∨ 60 ≤ second then
    some none
  else do
    let y ← checkedI64 (year - if month ≤ 2 then 1 else 0)
    let era ← checkedEra y
    let yoe ← (checkedI64 (y - era * 400)).bind checkedU64
    let mp ← checkedMonth month
    let doy ← checkedSub ((153 * mp + 2) / 5 + day) 1
    let days ← checkedSub (yoe * 365 + yoe / 4) (yoe / 100)
    let doe ← checkedI64 (days + doy : ℕ)
    let daysFrom1970 ← checkedI64 (era * 146097 + doe - 719468)
    if daysFrom1970 < 0 then some none
    else (checkedU64 daysFrom1970).map fun days =>
      some (days * 86400 + hour * 3600 + minute * 60 + second)

theorem bind_of_eq {α β : Type} {x : Option α} {a : α} {f : α → Option β} (h : x = some a) :
    x >>= f = f a := by
  rw [h]
  rfl

theorem checkedI64_eq {n : ℤ} (h : -2 ^ 63 ≤ n) (h' : n < 2 ^ 63) : checkedI64 n = some n :=
  if_pos ⟨h, h'⟩

theorem checkedU64_eq {n : ℤ} (h : 0 ≤ n) (h' : n < 2 ^ 64) : checkedU64 n = some (asU64 n) := by
  rw [checkedU64, if_pos ⟨h, h'⟩, asU64, Int.emod_eq_of_lt h h']

theorem checkedSub_eq {a b : ℕ} (h : b ≤ a) : checkedSub a b = some (a - b) := if_pos h

theorem checkedEra_eq {y : ℤ} (h : 0 ≤ y) :
    checkedEra y = some ((if 0 ≤ y then y else y - 399).tdiv 400) := by
  rw [checkedEra, if_pos h, if_pos h, Option.map_some]

theorem checkedMonth_eq (month : ℕ) :
    checkedMonth month = some (if 2 < month then month - 3 else month + 9) := by
  unfold checkedMonth
  split_ifs with h
  · exact checkedSub_eq h
  · rfl

theorem imfToUnixChecked_eq (year : ℤ) (month day hour minute second : ℕ) :
    imfToUnixChecked year month day hour minute second =
      some (imfToUnix year month day hour minute second) := by
  by_cases h : ImfRange year month day hour minute second
  swap
  · rw [imfToUnix_eq_none h]
    rw [imfRange_iff, not_not] at h
    exact if_pos h
  have hy := h.marchYear
  have hday := h.day
  have hdays := eraDay_eq hy (daysFromMarch month + day - 1) rfl
  have hnonneg := h.civilDay_nonneg
  have hlt := h.civilDay_lt
  rw [civilDay_eq year month hday.1] at hnonneg hlt
  rw [imfToUnix_eq_some h, civilDay_eq year month hday.1, imfToUnixChecked, if_neg (imfRange_iff.1 h)]
  generalize (year - if month ≤ 2 then 1 else 0) = y at hy hdays hnonneg hlt ⊢
  have hera : 0 ≤ (if 0 ≤ y then y else y - 399).tdiv 400 * 400 ∧
      (if 0 ≤ y then y else y - 399).tdiv 400 * 400 ≤ y ∧
      y - (if 0 ≤ y then y else y - 399).tdiv 400 * 400 < 400 := by
    rw [if_pos hy.1, Int.tdiv_eq_ediv_of_nonneg hy.1]
    omega
  rw [bind_of_eq (checkedI64_eq (by omega) (by omega)), bind_of_eq (checkedEra_eq hy.1)]
  generalize (if 0 ≤ y then y else y - 399).tdiv 400 = era at hera hdays ⊢
  have hyoe : (checkedI64 (y - era * 400)).bind checkedU64 = some (asU64 (y - era * 400)) := by
    rw [checkedI64_eq (by omega) (by omega), Option.bind_some, checkedU64_eq (by omega) (by omega)]
  have hfrom := daysFromMarch_le h.month.2
  rw [bind_of_eq hyoe, bind_of_eq (checkedMonth_eq month), ← daysFromMarch]
  have hcast := asU64_of_nonneg (n := y - era * 400) (by omega) (by omega)
  generalize asU64 (y - era * 400) = yoe at hcast hdays ⊢
  rw [bind_of_eq (checkedSub_eq (by omega)), bind_of_eq (checkedSub_eq (by omega)),
    bind_of_eq (checkedI64_eq (by omega) (by omega)), hdays]
  rw [bind_of_eq (checkedI64_eq (by omega) (by omega)), if_neg (by omega),
    checkedU64_eq hnonneg (by omega), Option.map_some, asU64, Int.emod_eq_of_lt hnonneg (by omega)]

end Semantik
