import Mathlib.Tactic.IntervalCases
import Mathlib.Data.Int.Basic
import Mathlib.Logic.Function.Iterate

/-!
# The proleptic Gregorian calendar

Dates are counted by `tomorrow`, the day after a date: `after date n` is the date `n` days later.

The proofs number the days. A year of the numbering starts in March, so that the leap day is the
last of its year; `marchStart` and `monthStart` are the days before a year and before a month of it.
-/

namespace Resilience.Calendar

/-- The leap years. -/
def IsLeap (year : ℤ) : Prop := 4 ∣ year ∧ (¬ 100 ∣ year ∨ 400 ∣ year)

instance (year : ℤ) : Decidable (IsLeap year) := inferInstanceAs (Decidable (_ ∧ _))

def daysInMonth (year month : ℤ) : ℤ :=
  if month = 2 then if IsLeap year then 29 else 28
  else if month = 4 ∨ month = 6 ∨ month = 9 ∨ month = 11 then 30
  else 31

@[ext]
structure Date where
  year : ℤ
  month : ℤ
  day : ℤ
  month_mem : 1 ≤ month ∧ month ≤ 12
  day_mem : 1 ≤ day ∧ day ≤ daysInMonth year month

theorem one_le_daysInMonth (year month : ℤ) : 1 ≤ (1 : ℤ) ∧ 1 ≤ daysInMonth year month := by
  unfold daysInMonth
  split_ifs <;> simp

theorem daysInMonth_le (year month : ℤ) : daysInMonth year month ≤ 31 := by
  unfold daysInMonth
  split_ifs <;> decide

theorem january_mem : 1 ≤ (1 : ℤ) ∧ (1 : ℤ) ≤ 12 := by decide

namespace Date

/-- The first day of a year. -/
def newYear (year : ℤ) : Date := ⟨year, 1, 1, january_mem, one_le_daysInMonth year 1⟩

variable {d : Date}

theorem next_day_mem (h : d.day < daysInMonth d.year d.month) :
    1 ≤ d.day + 1 ∧ d.day + 1 ≤ daysInMonth d.year d.month := by
  have := d.day_mem
  omega

theorem next_month_mem (h : d.month < 12) : 1 ≤ d.month + 1 ∧ d.month + 1 ≤ 12 := by
  have := d.month_mem
  omega

def tomorrow (d : Date) : Date :=
  if hd : d.day < daysInMonth d.year d.month then
    ⟨d.year, d.month, d.day + 1, d.month_mem, next_day_mem hd⟩
  else if hm : d.month < 12 then
    ⟨d.year, d.month + 1, 1, next_month_mem hm, one_le_daysInMonth d.year (d.month + 1)⟩
  else newYear (d.year + 1)

/-- The date `n` days later. -/
def after (d : Date) (n : ℕ) : Date := tomorrow^[n] d

def Before (d e : Date) : Prop :=
  d.year < e.year ∨ d.year = e.year ∧ (d.month < e.month ∨ d.month = e.month ∧ d.day < e.day)

end Date

@[ext]
structure TimeOfDay where
  hour : ℕ
  minute : ℕ
  second : ℕ
  hour_lt : hour < 24
  minute_lt : minute < 60
  second_lt : second < 60

namespace TimeOfDay

/-- The seconds since midnight. -/
def seconds (t : TimeOfDay) : ℕ := 3600 * t.hour + 60 * t.minute + t.second

def Before (t u : TimeOfDay) : Prop :=
  t.hour < u.hour ∨ t.hour = u.hour ∧
    (t.minute < u.minute ∨ t.minute = u.minute ∧ t.second < u.second)

theorem hour_lt_of (n : ℕ) : n % 86400 / 3600 < 24 := by omega

theorem sixty_lt_of (n : ℕ) : n % 3600 / 60 < 60 := by omega

/-- The time of the day at which so many seconds have passed. -/
def ofSeconds (n : ℕ) : TimeOfDay :=
  ⟨n % 86400 / 3600, n % 86400 % 3600 / 60, n % 86400 % 60,
    hour_lt_of n, sixty_lt_of (n % 86400), Nat.mod_lt (n % 86400) (Nat.succ_pos 59)⟩

theorem seconds_ofSeconds (n : ℕ) : (ofSeconds n).seconds = n % 86400 := by
  simp only [seconds, ofSeconds]
  omega

theorem before_iff {t u : TimeOfDay} : t.Before u ↔ t.seconds < u.seconds := by
  have ht := t.minute_lt
  have ht' := t.second_lt
  have hu := u.minute_lt
  have hu' := u.second_lt
  unfold Before seconds
  omega

end TimeOfDay

/-! ## Days are numbered -/

/-- The days before the first of March of a year. -/
def marchStart (year : ℤ) : ℤ := 365 * year + year / 4 - year / 100 + year / 400

theorem marchStart_succ (year : ℤ) :
    marchStart (year + 1) = marchStart year + 365 + if IsLeap (year + 1) then 1 else 0 := by
  unfold marchStart IsLeap
  split_ifs <;> omega

theorem marchStart_mono {year year' : ℤ} (h : year ≤ year') :
    marchStart year ≤ marchStart year' := by
  unfold marchStart
  omega

/-- The calendar repeats after an era of 400 years. -/
theorem marchStart_add_era (year era : ℤ) :
    marchStart (year + era * 400) = marchStart year + era * 146097 := by
  unfold marchStart
  omega

/-- The days of a year from March on before a month, which is counted from March. -/
def monthStart (month : ℤ) : ℤ := (153 * month + 2) / 5

namespace Date

/-- The year that has begun in March. -/
def marchYear (d : Date) : ℤ := if d.month ≤ 2 then d.year - 1 else d.year

/-- The month counted from March. -/
def marchMonth (d : Date) : ℤ := if d.month ≤ 2 then d.month + 9 else d.month - 3

def dayNumber (d : Date) : ℤ := marchStart d.marchYear + monthStart d.marchMonth + d.day - 1

/-- A month but the last ends where the next one starts. -/
theorem monthStart_add_day_le_succ (d : Date) (h : d.marchMonth < 11) :
    monthStart d.marchMonth + d.day ≤ monthStart (d.marchMonth + 1) := by
  obtain ⟨year, month, day, ⟨hlow, hhigh⟩, hday⟩ := d
  simp only [marchMonth, monthStart] at h ⊢
  unfold daysInMonth at hday
  interval_cases month <;> simp at hday h ⊢ <;> omega

/-- The year ends with February. -/
theorem monthStart_add_day_le (d : Date) :
    monthStart d.marchMonth + d.day ≤ 365 + if IsLeap (d.marchYear + 1) then 1 else 0 := by
  obtain ⟨year, month, day, ⟨hlow, hhigh⟩, hday⟩ := d
  simp only [marchMonth, marchYear, monthStart]
  unfold daysInMonth at hday
  interval_cases month <;> simp at hday ⊢ <;> split_ifs at hday ⊢ <;> omega

theorem dayNumber_tomorrow (d : Date) : dayNumber d.tomorrow = dayNumber d + 1 := by
  obtain ⟨year, month, day, ⟨hlow, hhigh⟩, hday⟩ := d
  unfold tomorrow
  split_ifs with hd hm
  · simp only [dayNumber, marchYear, marchMonth]
    omega
  · simp only [dayNumber, marchYear, marchMonth, monthStart] at hd hm ⊢
    have hleap := marchStart_succ (year - 1)
    unfold daysInMonth at hd hday
    rw [sub_add_cancel] at hleap
    interval_cases month <;> simp at hd hday ⊢ <;> split_ifs at hd hday hleap <;> omega
  · have hdec : month = 12 := by
      simp only at hm
      omega
    subst hdec
    simp [daysInMonth] at hd hday
    simp [dayNumber, marchYear, marchMonth, monthStart, newYear]
    omega

theorem dayNumber_after (d : Date) (n : ℕ) : dayNumber (d.after n) = dayNumber d + n := by
  induction n with
  | zero => simp [after]
  | succ n ih =>
    rw [after, Function.iterate_succ_apply', ← after, dayNumber_tomorrow, ih]
    push_cast
    omega

theorem monthStart_mono {month month' : ℤ} (h : month ≤ month') :
    monthStart month ≤ monthStart month' := by
  unfold monthStart
  omega

/-- The days of a year are numbered between the starts of it and of the next one. -/
theorem dayNumber_mem (d : Date) :
    marchStart d.marchYear ≤ dayNumber d ∧ dayNumber d < marchStart (d.marchYear + 1) := by
  have hnonneg : 0 ≤ monthStart d.marchMonth := by
    have := d.month_mem
    unfold marchMonth monthStart
    split_ifs <;> omega
  have hday := d.day_mem.1
  have hle := monthStart_add_day_le d
  rw [marchStart_succ, dayNumber]
  omega

theorem Before.dayNumber_lt {d e : Date} (h : d.Before e) : dayNumber d < dayNumber e := by
  have hmarch : d.marchYear < e.marchYear ∨ d.marchYear = e.marchYear ∧
      (d.marchMonth < e.marchMonth ∨ d.marchMonth = e.marchMonth ∧ d.day < e.day) := by
    have hd := d.month_mem
    have he := e.month_mem
    unfold Before at h
    unfold marchYear marchMonth
    split_ifs <;> omega
  rcases hmarch with hyear | ⟨hyear, hmonth | ⟨hmonth, hday⟩⟩
  · have hmono := marchStart_mono (Int.add_one_le_of_lt hyear)
    have hd := (dayNumber_mem d).2
    have he := (dayNumber_mem e).1
    omega
  · have hlast : d.marchMonth < 11 := by
      have he := e.month_mem
      unfold marchMonth at hmonth ⊢
      split_ifs at hmonth ⊢ <;> omega
    have hle := monthStart_add_day_le_succ d hlast
    have hmono := monthStart_mono (Int.add_one_le_of_lt hmonth)
    have hday := e.day_mem.1
    unfold dayNumber
    rw [hyear]
    omega
  · unfold dayNumber
    rw [hyear, hmonth]
    omega

theorem before_trichotomy (d e : Date) : d.Before e ∨ d = e ∨ e.Before d := by
  unfold Before
  by_cases heq : d.year = e.year ∧ d.month = e.month ∧ d.day = e.day
  · exact .inr (.inl (Date.ext heq.1 heq.2.1 heq.2.2))
  · omega

theorem dayNumber_injective : Function.Injective dayNumber := by
  intro d e h
  rcases before_trichotomy d e with hbefore | rfl | hbefore
  · exact absurd h hbefore.dayNumber_lt.ne
  · rfl
  · exact absurd h hbefore.dayNumber_lt.ne'

theorem before_iff {d e : Date} : d.Before e ↔ dayNumber d < dayNumber e := by
  refine ⟨Before.dayNumber_lt, fun h => ?_⟩
  rcases before_trichotomy d e with hbefore | rfl | hbefore
  · exact hbefore
  · exact absurd h (lt_irrefl _)
  · exact absurd hbefore.dayNumber_lt h.not_gt

/-- A date is as many days later as its number says. -/
theorem after_eq {d e : Date} {n : ℕ} (h : dayNumber e = dayNumber d + n) : d.after n = e :=
  dayNumber_injective ((dayNumber_after d n).trans h.symm)

theorem after_injective (d : Date) : Function.Injective d.after := by
  intro n k h
  have hnumber := congrArg dayNumber h
  rw [dayNumber_after, dayNumber_after] at hnumber
  omega

theorem after_before_after (d : Date) {n k : ℕ} : (d.after n).Before (d.after k) ↔ n < k := by
  rw [before_iff, dayNumber_after, dayNumber_after]
  omega

theorem year_le_after (d : Date) (n : ℕ) : d.year ≤ (d.after n).year := by
  by_contra! hlt
  have hbefore : (d.after n).Before d := .inl hlt
  have hnumber := hbefore.dayNumber_lt
  rw [dayNumber_after] at hnumber
  omega

end Date

end Resilience.Calendar
