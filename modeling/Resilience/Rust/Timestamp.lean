import Resilience.Foundations.Calendar
import Resilience.Foundations.Digits
import Resilience.Foundations.Overflow

/-!
# Timestamps of the Rust ledger

`format_epoch_utc` and `civil_from_days` of `rust/src/audit.rs`. Every operation says what the
machine returns when its result leaves the type, and every line of `civil_from_days` is a function.
-/

namespace Resilience.Rust.Timestamp

open Calendar Digits Overflow

/-! ## `audit.rs` -/

section Machine

variable (build : Build)

def add (a b : ℤ) : Option ℤ := build.op i64 (a + b)

def sub (a b : ℤ) : Option ℤ := build.op i64 (a - b)

def mul (a b : ℤ) : Option ℤ := build.op i64 (a * b)

/-- Division cuts off; the divisors below are constants. -/
def div (a b : ℤ) : Option ℤ := build.op i64 (a.tdiv b)

def era (z : ℤ) : Option ℤ :=
  (if 0 ≤ z then some z else sub build z 146096) >>= (div build · 146097)

def doe (z era : ℤ) : Option ℤ := do
  sub build z (← mul build era 146097)

def yoe (doe : ℤ) : Option ℤ := do
  div build (← sub build (← add build (← sub build doe (← div build doe 1460))
    (← div build doe 36524)) (← div build doe 146096)) 365

def doy (doe yoe : ℤ) : Option ℤ := do
  sub build doe (← sub build (← add build (← mul build 365 yoe) (← div build yoe 4))
    (← div build yoe 100))

def mp (doy : ℤ) : Option ℤ := do
  div build (← add build (← mul build 5 doy) 2) 153

def civilDay (doy mp : ℤ) : Option ℤ := do
  build.cast u32 (← add build (← sub build doy
    (← div build (← add build (← mul build 153 mp) 2) 5)) 1)

def civilMonth (mp : ℤ) : Option ℤ :=
  (if mp < 10 then add build mp 3 else sub build mp 9) >>= build.cast u32

/-- The division for `era` and the conversion of `m` apply to the whole conditional. -/
def civilFromDays (z : ℤ) : Option (ℤ × ℤ × ℤ) := do
  let z ← add build z 719468
  let era ← era build z
  let doe ← doe build z era
  let yoe ← yoe build doe
  let y ← add build yoe (← mul build era 400)
  let doy ← doy build doe yoe
  let mp ← mp build doy
  let d ← civilDay build doy mp
  let m ← civilMonth build mp
  let y ← (if m ≤ 2 then add build y 1 else some y : Option ℤ)
  return (y, m, d)

/-- Zeros stand between the sign and the digits. -/
def formatInt (width : ℕ) (n : ℤ) : String :=
  if n < 0 then .ofList ('-' :: padded (width - 1) n.natAbs) else .ofList (padded width n.toNat)

/-- The text that `format!` writes. -/
def timestamp (y mo d hh mm ss : ℤ) : String :=
  formatInt 4 y ++ "-" ++ formatInt 2 mo ++ "-" ++ formatInt 2 d ++ "T" ++
    formatInt 2 hh ++ ":" ++ formatInt 2 mm ++ ":" ++ formatInt 2 ss ++ "Z"

def formatEpochUtc (secs : UInt64) : Option String := do
  let days ← build.cast i64 (secs / 86400).toNat
  let rem := secs % 86400
  let (hh, mm, ss) := (rem / 3600, rem % 3600 / 60, rem % 60)
  let (y, mo, d) ← civilFromDays build days
  return timestamp y mo d hh.toNat mm.toNat ss.toNat

end Machine

/-! ## The exact values -/

/-- The days of an era before a day, without the leap days. -/
def commonDays (doe : ℤ) : ℤ := doe - doe / 1460 + doe / 36524 - doe / 146096

def yearOfEra (doe : ℤ) : ℤ := commonDays doe / 365

theorem commonDays_le_succ (doe : ℤ) : commonDays doe ≤ commonDays (doe + 1) := by
  unfold commonDays
  omega

theorem commonDays_mono {doe doe' : ℤ} (h : doe ≤ doe') : commonDays doe ≤ commonDays doe' := by
  obtain ⟨n, rfl⟩ := Int.le.dest h
  clear h
  induction n with
  | zero => simp
  | succ n ih =>
    rw [Nat.cast_succ, ← add_assoc]
    exact ih.trans (commonDays_le_succ (doe + n))

/-- The first and the last day of each year of an era. -/
theorem commonDays_marchStart : ∀ y : ℕ, y < 400 →
    365 * (y : ℤ) ≤ commonDays (marchStart y) ∧
      commonDays (marchStart (y + 1) - 1) < 365 * (y + 1) := by
  decide +kernel

theorem commonDays_nonneg {doe : ℤ} (hdoe : 0 ≤ doe) : 0 ≤ commonDays doe :=
  commonDays_mono hdoe

theorem yearOfEra_mem {doe : ℤ} (hdoe : 0 ≤ doe) (hdoe' : doe < 146097) :
    0 ≤ yearOfEra doe ∧ yearOfEra doe < 400 := by
  have hleast := commonDays_nonneg hdoe
  have hgreatest : commonDays doe ≤ commonDays 146096 := commonDays_mono (by omega)
  have hlast : commonDays 146096 = 145999 := rfl
  unfold yearOfEra
  omega

theorem marchStart_yearOfEra {doe : ℤ} (hdoe : 0 ≤ doe) (hdoe' : doe < 146097) :
    marchStart (yearOfEra doe) ≤ doe ∧ doe < marchStart (yearOfEra doe + 1) := by
  obtain ⟨hyear, hyear'⟩ := yearOfEra_mem hdoe hdoe'
  have hdays : 365 * yearOfEra doe ≤ commonDays doe ∧
      commonDays doe < 365 * (yearOfEra doe + 1) := by
    unfold yearOfEra
    omega
  constructor
  · by_contra! hlt
    obtain ⟨n, hn⟩ : ∃ n : ℕ, yearOfEra doe = n + 1 := by
      refine ⟨(yearOfEra doe - 1).toNat, ?_⟩
      have hne : yearOfEra doe ≠ 0 := by
        intro hzero
        rw [hzero] at hlt
        exact hlt.not_ge hdoe
      omega
    rw [hn] at hlt hyear' hdays
    have htable := (commonDays_marchStart n (by omega)).2
    have hmono := commonDays_mono (Int.le_sub_one_of_lt hlt)
    omega
  · by_contra! hle
    obtain ⟨n, hn⟩ := Int.eq_ofNat_of_zero_le hyear
    rw [hn] at hle hdays hyear'
    have hlast : n + 1 < 400 := by
      by_contra! hge
      obtain rfl : n = 399 := by omega
      exact hle.not_gt hdoe'
    have htable := (commonDays_marchStart (n + 1) hlast).1
    have hmono := commonDays_mono hle
    push_cast at htable
    omega

def marchMonthOf (doy : ℤ) : ℤ := (5 * doy + 2) / 153

/-- The month counted from January. -/
def monthOf (mp : ℤ) : ℤ := if mp < 10 then mp + 3 else mp - 9

theorem marchMonthOf_mem {doy : ℤ} (hdoy : 0 ≤ doy) (hdoy' : doy < 366) :
    0 ≤ marchMonthOf doy ∧ marchMonthOf doy < 12 := by
  unfold marchMonthOf
  omega

theorem monthStart_marchMonthOf (doy : ℤ) :
    monthStart (marchMonthOf doy) ≤ doy ∧ doy < monthStart (marchMonthOf doy + 1) := by
  unfold monthStart marchMonthOf
  omega

/-- The date of a day of a year that starts in March. -/
theorem exists_date {y doy : ℤ} (hdoy : 0 ≤ doy) (hdoy' : marchStart y + doy < marchStart (y + 1)) :
    ∃ d : Date, d.dayNumber = marchStart y + doy ∧
      d.year = (if monthOf (marchMonthOf doy) ≤ 2 then y + 1 else y) ∧
      d.month = monthOf (marchMonthOf doy) ∧
      d.day = doy - monthStart (marchMonthOf doy) + 1 := by
  rw [marchStart_succ] at hdoy'
  have hlast : doy < 366 := by
    split_ifs at hdoy' <;> omega
  obtain ⟨hmp, hmp'⟩ := marchMonthOf_mem hdoy hlast
  obtain ⟨hstart, hstart'⟩ := monthStart_marchMonthOf doy
  generalize marchMonthOf doy = mp at hmp hmp' hstart hstart' ⊢
  have hmonth : 1 ≤ monthOf mp ∧ monthOf mp ≤ 12 := by
    unfold monthOf
    split_ifs <;> omega
  have hday : 1 ≤ doy - monthStart mp + 1 ∧ doy - monthStart mp + 1 ≤
      daysInMonth (if monthOf mp ≤ 2 then y + 1 else y) (monthOf mp) := by
    unfold monthStart at hstart hstart' ⊢
    unfold daysInMonth monthOf
    interval_cases mp <;> simp <;> split_ifs at hdoy' ⊢ <;> omega
  refine ⟨⟨_, _, _, hmonth, hday⟩, ?_, rfl, rfl, rfl⟩
  have hyear : Date.marchYear ⟨_, _, _, hmonth, hday⟩ = y := by
    simp only [Date.marchYear]
    split_ifs <;> omega
  have hmarch : Date.marchMonth ⟨_, _, _, hmonth, hday⟩ = mp := by
    simp only [Date.marchMonth, monthOf]
    split_ifs <;> omega
  unfold Date.dayNumber
  rw [hyear, hmarch]
  simp only
  omega

/-! ## No operation leaves its type -/

section Exact

variable {build : Build} {a b : ℤ}

theorem holds_i64 {n : ℤ} (h : -4611686018427387904 ≤ n) (h' : n ≤ 4611686018427387904) :
    i64.Holds n := by
  simp only [i64, IntType.Holds]
  omega

theorem add_eq (h : -4611686018427387904 ≤ a + b) (h' : a + b ≤ 4611686018427387904) :
    add build a b = some (a + b) := build.op_eq (holds_i64 h h')

theorem sub_eq (h : -4611686018427387904 ≤ a - b) (h' : a - b ≤ 4611686018427387904) :
    sub build a b = some (a - b) := build.op_eq (holds_i64 h h')

theorem mul_eq (h : -4611686018427387904 ≤ a * b) (h' : a * b ≤ 4611686018427387904) :
    mul build a b = some (a * b) := build.op_eq (holds_i64 h h')

theorem div_eq (ha : 0 ≤ a) (h : -4611686018427387904 ≤ a / b) (h' : a / b ≤ 4611686018427387904) :
    div build a b = some (a / b) := by
  rw [div, Int.tdiv_eq_ediv_of_nonneg ha]
  exact build.op_eq (holds_i64 h h')

theorem cast_u32_eq {n : ℤ} (h : 0 ≤ n) (h' : n ≤ 4294967295) : build.cast u32 n = some n :=
  build.cast_eq ⟨h, h'⟩

theorem era_eq {z : ℤ} (hz : 0 ≤ z) (hz' : z ≤ 1000000000000000) :
    era build z = some (z / 146097) := by
  rw [era, if_pos hz]
  exact div_eq hz (by omega) (by omega)

theorem doe_eq {z : ℤ} (hz : 0 ≤ z) (hz' : z ≤ 1000000000000000) :
    doe build z (z / 146097) = some (z % 146097) := by
  simp (disch := omega) only [doe, mul_eq, sub_eq, Option.bind_eq_bind, Option.bind_some]
  rw [Int.emod_def, mul_comm]

theorem yoe_eq {n : ℤ} (hn : 0 ≤ n) (hn' : n < 146097) : yoe build n = some (yearOfEra n) := by
  have hcommon := commonDays_nonneg hn
  unfold commonDays at hcommon
  simp (disch := omega) only [yoe, div_eq, add_eq, sub_eq, Option.bind_eq_bind, Option.bind_some]
  rfl

theorem doy_eq {n y : ℤ} (hn : 0 ≤ n) (hn' : n < 146097) (hy : 0 ≤ y) (hy' : y < 400) :
    doy build n y = some (n - (365 * y + y / 4 - y / 100)) := by
  simp (disch := omega) only [doy, div_eq, mul_eq, add_eq, sub_eq, Option.bind_eq_bind,
    Option.bind_some]

theorem mp_eq {n : ℤ} (hn : 0 ≤ n) (hn' : n < 366) : mp build n = some (marchMonthOf n) := by
  simp (disch := omega) only [mp, div_eq, mul_eq, add_eq, Option.bind_eq_bind, Option.bind_some]
  rfl

theorem civilDay_eq {n : ℤ} (hn : 0 ≤ n) (hn' : n < 366) :
    civilDay build n (marchMonthOf n) = some (n - monthStart (marchMonthOf n) + 1) := by
  obtain ⟨hmp, hmp'⟩ := marchMonthOf_mem hn hn'
  have hstart := (monthStart_marchMonthOf n).1
  generalize marchMonthOf n = k at hmp hmp' hstart ⊢
  unfold monthStart at hstart ⊢
  simp (disch := omega) only [civilDay, div_eq, mul_eq, add_eq, sub_eq, cast_u32_eq,
    Option.bind_eq_bind, Option.bind_some]

theorem civilMonth_eq {k : ℤ} (hk : 0 ≤ k) (hk' : k < 12) :
    civilMonth build k = some (monthOf k) := by
  unfold civilMonth monthOf
  split_ifs <;>
    simp (disch := omega) only [add_eq, sub_eq, cast_u32_eq, Option.bind_eq_bind, Option.bind_some]

end Exact

/-! ## The dates since 1970 -/

def epoch : Date := .newYear 1970

/-- The date that many seconds after the beginning of 1970. -/
def dateOf (secs : UInt64) : Date := epoch.after (secs.toNat / 86400)

def timeOf (secs : UInt64) : TimeOfDay := .ofSeconds secs.toNat

def timestampOf (date : Date) (time : TimeOfDay) : String :=
  timestamp date.year date.month date.day time.hour time.minute time.second

/-- The days of a year before the end of an era, by the formula of `doy`. -/
theorem marchStart_eq {y : ℤ} (hy : 0 ≤ y) (hy' : y < 400) :
    marchStart y = 365 * y + y / 4 - y / 100 := by
  unfold marchStart
  omega

/-- The lines, one after the other; `z` counts from the first of March of the year 0. -/
theorem civilFromDays_of {n z y doy : ℤ} {build : Build} (hz : n + 719468 = z) (hz0 : 0 ≤ z)
    (hz1 : z ≤ 1000000000000000) (hy : 0 ≤ y) (hy' : y < 400)
    (hyoe : yearOfEra (z % 146097) = y) (hdoy : z % 146097 - marchStart y = doy)
    (hdoy0 : 0 ≤ doy) (hdoy1 : doy < 366) :
    civilFromDays build n =
      some (if monthOf (marchMonthOf doy) ≤ 2 then y + z / 146097 * 400 + 1
        else y + z / 146097 * 400, monthOf (marchMonthOf doy),
        doy - monthStart (marchMonthOf doy) + 1) := by
  have hadd : add build n 719468 = some z := by
    rw [add_eq (by omega) (by omega), hz]
  have hk : 0 ≤ z % 146097 ∧ z % 146097 < 146097 := by omega
  have hyear_of_era : yoe build (z % 146097) = some y := by
    rw [yoe_eq hk.1 hk.2, hyoe]
  have hmul : mul build (z / 146097) 400 = some (z / 146097 * 400) :=
    mul_eq (by omega) (by omega)
  have hyear : add build y (z / 146097 * 400) = some (y + z / 146097 * 400) :=
    add_eq (by omega) (by omega)
  have hyear' : add build (y + z / 146097 * 400) 1 = some (y + z / 146097 * 400 + 1) :=
    add_eq (by omega) (by omega)
  have hdays : Timestamp.doy build (z % 146097) y = some doy := by
    rw [doy_eq hk.1 hk.2 hy hy', ← marchStart_eq hy hy', hdoy]
  obtain ⟨hmp, hmp'⟩ := marchMonthOf_mem hdoy0 hdoy1
  refine Option.bind_eq_some_iff.2 ⟨_, hadd, ?_⟩
  refine Option.bind_eq_some_iff.2 ⟨_, era_eq hz0 hz1, ?_⟩
  refine Option.bind_eq_some_iff.2 ⟨_, doe_eq hz0 hz1, ?_⟩
  refine Option.bind_eq_some_iff.2 ⟨_, hyear_of_era, ?_⟩
  refine Option.bind_eq_some_iff.2 ⟨_, hmul, ?_⟩
  refine Option.bind_eq_some_iff.2 ⟨_, hyear, ?_⟩
  refine Option.bind_eq_some_iff.2 ⟨_, hdays, ?_⟩
  refine Option.bind_eq_some_iff.2 ⟨_, mp_eq hdoy0 hdoy1, ?_⟩
  refine Option.bind_eq_some_iff.2 ⟨_, civilDay_eq hdoy0 hdoy1, ?_⟩
  refine Option.bind_eq_some_iff.2 ⟨_, civilMonth_eq hmp hmp', ?_⟩
  refine Option.bind_eq_some_iff.2 ⟨_, ?_, rfl⟩
  split_ifs
  · exact hyear'
  · rfl

/-- The date of a day since the beginning of 1970. -/
theorem civilFromDays_eq (build : Build) {n : ℕ} (hn : n ≤ 999999999000000) :
    civilFromDays build n =
      some ((epoch.after n).year, (epoch.after n).month, (epoch.after n).day) := by
  obtain ⟨z, hz⟩ : ∃ z : ℤ, n + 719468 = z := ⟨_, rfl⟩
  have hdoe : 0 ≤ z % 146097 ∧ z % 146097 < 146097 := by omega
  obtain ⟨hy, hy'⟩ := yearOfEra_mem hdoe.1 hdoe.2
  obtain ⟨hstart, hstart'⟩ := marchStart_yearOfEra hdoe.1 hdoe.2
  obtain ⟨y, hyoe⟩ : ∃ y : ℤ, yearOfEra (z % 146097) = y := ⟨_, rfl⟩
  obtain ⟨doy, hdoy⟩ : ∃ doy : ℤ, z % 146097 - marchStart y = doy := ⟨_, rfl⟩
  rw [hyoe] at hy hy' hstart hstart'
  have hdoy0 : 0 ≤ doy := by omega
  have hdoy1 : doy < 366 := by
    have hsucc := marchStart_succ y
    split_ifs at hsucc <;> omega
  have hend : marchStart (y + z / 146097 * 400) + doy < marchStart (y + z / 146097 * 400 + 1) := by
    rw [add_right_comm, marchStart_add_era, marchStart_add_era]
    omega
  obtain ⟨d, hnumber, hyear, hmonth, hday⟩ := exists_date hdoy0 hend
  have hdate : epoch.after n = d := by
    have hepoch : epoch.dayNumber = 719468 := rfl
    apply Date.after_eq
    rw [hnumber, hepoch, marchStart_add_era]
    omega
  rw [hdate, hyear, hmonth, hday]
  exact civilFromDays_of hz (by omega) (by omega) hy hy' hyoe hdoy hdoy0 hdoy1

theorem year_le_dateOf (secs : UInt64) : 1970 ≤ (dateOf secs).year := epoch.year_le_after _

theorem civilFromDays_dateOf (build : Build) (secs : UInt64) :
    civilFromDays build (secs.toNat / 86400 : ℕ) =
      some ((dateOf secs).year, (dateOf secs).month, (dateOf secs).day) := by
  apply civilFromDays_eq
  have := secs.toNat_lt
  omega

theorem formatEpochUtc_eq (build : Build) (secs : UInt64) :
    formatEpochUtc build secs = some (timestampOf (dateOf secs) (timeOf secs)) := by
  have hdays : build.cast i64 (secs / 86400).toNat = some ((secs.toNat / 86400 : ℕ) : ℤ) := by
    have := secs.toNat_lt
    rw [UInt64.toNat_div]
    exact build.cast_eq (holds_i64 (by simp; omega) (by simp; omega))
  unfold formatEpochUtc
  rw [hdays]
  simp only [Option.bind_eq_bind, Option.bind_some, civilFromDays_dateOf]
  simp [timestampOf, timeOf, TimeOfDay.ofSeconds]

/-! ## The texts -/

theorem formatInt_of_nonneg (width : ℕ) {n : ℤ} (hn : 0 ≤ n) :
    (formatInt width n).toList = padded width n.toNat := by
  rw [formatInt, if_neg (by omega), String.toList_ofList]

/-- What follows the year. -/
def afterYear (d : Date) (t : TimeOfDay) : List Char :=
  '-' :: (padded 2 d.month.toNat ++ '-' :: (padded 2 d.day.toNat ++ 'T' :: (padded 2 t.hour ++
    ':' :: (padded 2 t.minute ++ ':' :: (padded 2 t.second ++ ['Z'])))))

theorem month_lt (d : Date) : 0 ≤ d.month ∧ d.month.toNat < 10 ^ 2 := by
  have := d.month_mem
  omega

theorem day_lt (d : Date) : 0 ≤ d.day ∧ d.day.toNat < 10 ^ 2 := by
  have hday := d.day_mem
  have hle := daysInMonth_le d.year d.month
  omega

theorem toList_timestampOf {d : Date} (hyear : 0 ≤ d.year) (t : TimeOfDay) :
    (timestampOf d t).toList = padded 4 d.year.toNat ++ afterYear d t := by
  simp [timestampOf, timestamp, afterYear, formatInt_of_nonneg, hyear, (month_lt d).1, (day_lt d).1]

section Order

variable {d e : Date} {t u : TimeOfDay}

theorem hour_lt (t : TimeOfDay) : t.hour < 10 ^ 2 := t.hour_lt.trans (by decide)

theorem minute_lt (t : TimeOfDay) : t.minute < 10 ^ 2 := t.minute_lt.trans (by decide)

theorem second_lt (t : TimeOfDay) : t.second < 10 ^ 2 := t.second_lt.trans (by decide)

theorem length_afterYear (d : Date) (t : TimeOfDay) : (afterYear d t).length = 16 := by
  simp only [afterYear, List.length_cons, List.length_append, length_padded two_pos (month_lt d).2,
    length_padded two_pos (day_lt d).2, length_padded two_pos (hour_lt t),
    length_padded two_pos (minute_lt t), length_padded two_pos (second_lt t)]
  rfl

theorem afterYear_inj (h : afterYear d t = afterYear e u) :
    d.month = e.month ∧ d.day = e.day ∧ t = u := by
  obtain ⟨hmonth, h⟩ := padded_append_inj (month_lt d).2 (month_lt e).2 two_pos (List.cons.inj h).2
  obtain ⟨hday, h⟩ := padded_append_inj (day_lt d).2 (day_lt e).2 two_pos (List.cons.inj h).2
  obtain ⟨hhour, h⟩ := padded_append_inj (hour_lt t) (hour_lt u) two_pos (List.cons.inj h).2
  obtain ⟨hminute, h⟩ := padded_append_inj (minute_lt t) (minute_lt u) two_pos (List.cons.inj h).2
  obtain ⟨hsecond, -⟩ := padded_append_inj (second_lt t) (second_lt u) two_pos (List.cons.inj h).2
  have hmonth_nonneg := And.intro (month_lt d).1 (month_lt e).1
  have hday_nonneg := And.intro (day_lt d).1 (day_lt e).1
  exact ⟨by omega, by omega, TimeOfDay.ext hhour hminute hsecond⟩

/-- Different dates or times have different texts. -/
theorem timestampOf_inj (hd : 0 ≤ d.year) (he : 0 ≤ e.year)
    (h : timestampOf d t = timestampOf e u) : d = e ∧ t = u := by
  have hlist := congrArg String.toList h
  rw [toList_timestampOf hd, toList_timestampOf he] at hlist
  obtain ⟨hyear, hafter⟩ := List.append_inj' hlist (by rw [length_afterYear, length_afterYear])
  obtain ⟨hmonth, hday, htime⟩ := afterYear_inj hafter
  have hyear' := padded_injective 4 hyear
  exact ⟨Date.ext (by omega) hmonth hday, htime⟩

theorem afterYear_lt (h : d.month < e.month ∨ d.month = e.month ∧
    (d.day < e.day ∨ d.day = e.day ∧ t.Before u)) : afterYear d t < afterYear e u := by
  obtain ⟨hmonth, hmonth'⟩ := month_lt d
  obtain ⟨hday, hday'⟩ := day_lt d
  unfold afterYear
  rw [List.cons_lt_cons_self]
  apply padded_append_lt hmonth' (month_lt e).2 two_pos
  refine Or.imp (by omega) (And.imp (by omega) fun h => ?_) h
  rw [List.cons_lt_cons_self]
  apply padded_append_lt hday' (day_lt e).2 two_pos
  refine Or.imp (by omega) (And.imp (by omega) fun h => ?_) h
  rw [List.cons_lt_cons_self]
  apply padded_append_lt (hour_lt t) (hour_lt u) two_pos
  refine Or.imp_right (And.imp_right fun h => ?_) h
  rw [List.cons_lt_cons_self]
  apply padded_append_lt (minute_lt t) (minute_lt u) two_pos
  refine Or.imp_right (And.imp_right fun h => ?_) h
  rw [List.cons_lt_cons_self]
  exact padded_append_lt (second_lt t) (second_lt u) two_pos (.inl h)

/-- Up to the year 9999 the texts are in the order of the times. -/
theorem timestampOf_lt (hd : 0 ≤ d.year) (he : e.year ≤ 9999)
    (h : d.Before e ∨ d = e ∧ t.Before u) : timestampOf d t < timestampOf e u := by
  have hyear : d.year ≤ e.year := by
    rcases h with (hlt | ⟨heq, -⟩) | ⟨rfl, -⟩ <;> omega
  rw [String.lt_iff_toList_lt, toList_timestampOf hd, toList_timestampOf (hd.trans hyear)]
  apply padded_append_lt (by omega) (by omega) four_pos
  rcases h with (hlt | ⟨heq, hlt⟩) | ⟨rfl, hlt⟩
  · exact .inl (by omega)
  · refine .inr ⟨by rw [heq], afterYear_lt ?_⟩
    exact hlt.imp_right (And.imp_right .inl)
  · exact .inr ⟨rfl, afterYear_lt (.inr ⟨rfl, .inr ⟨rfl, hlt⟩⟩)⟩

end Order

/-! ## The instants -/

theorem dateOf_before {secs secs' : UInt64} (h : secs < secs') :
    (dateOf secs).Before (dateOf secs') ∨
      dateOf secs = dateOf secs' ∧ (timeOf secs).Before (timeOf secs') := by
  have hlt : secs.toNat < secs'.toNat := h
  rcases Nat.lt_or_ge (secs.toNat / 86400) (secs'.toNat / 86400) with hdays | hdays
  · exact .inl ((epoch.after_before_after).2 hdays)
  · have hsame : secs.toNat / 86400 = secs'.toNat / 86400 := by omega
    refine .inr ⟨by rw [dateOf, dateOf, hsame], ?_⟩
    rw [TimeOfDay.before_iff, timeOf, timeOf, TimeOfDay.seconds_ofSeconds,
      TimeOfDay.seconds_ofSeconds]
    omega

theorem eq_of_dateOf_eq {secs secs' : UInt64} (hdate : dateOf secs = dateOf secs')
    (htime : timeOf secs = timeOf secs') : secs = secs' := by
  have hdays : secs.toNat / 86400 = secs'.toNat / 86400 := epoch.after_injective hdate
  have hseconds := congrArg TimeOfDay.seconds htime
  rw [timeOf, timeOf, TimeOfDay.seconds_ofSeconds, TimeOfDay.seconds_ofSeconds] at hseconds
  apply UInt64.toNat_inj.1
  omega

/-- **The timestamps are the dates and times.** -/
theorem formatEpochUtc_exact (build : Build) :
    (∀ secs : UInt64, ∃ (d : Date) (t : TimeOfDay),
      epoch.after (secs.toNat / 86400) = d ∧ t.seconds = secs.toNat % 86400 ∧
        civilFromDays build (secs.toNat / 86400 : ℕ) = some (d.year, d.month, d.day) ∧
        formatEpochUtc build secs = some (timestampOf d t)) ∧
    (∀ secs secs' : UInt64, formatEpochUtc build secs = formatEpochUtc build secs' →
      secs = secs') ∧
    ∀ secs secs' : UInt64, secs < secs' → (epoch.after (secs'.toNat / 86400)).year ≤ 9999 →
      ∃ s s', formatEpochUtc build secs = some s ∧ formatEpochUtc build secs' = some s' ∧
        s < s' := by
  have hyear (secs : UInt64) : 0 ≤ (dateOf secs).year := by
    have := year_le_dateOf secs
    omega
  refine ⟨fun secs => ?_, fun secs secs' h => ?_, fun secs secs' hlt hlast => ?_⟩
  · exact ⟨dateOf secs, timeOf secs, rfl, TimeOfDay.seconds_ofSeconds _,
      civilFromDays_dateOf build secs, formatEpochUtc_eq build secs⟩
  · rw [formatEpochUtc_eq, formatEpochUtc_eq, Option.some_inj] at h
    obtain ⟨hdate, htime⟩ := timestampOf_inj (hyear secs) (hyear secs') h
    exact eq_of_dateOf_eq hdate htime
  · exact ⟨_, _, formatEpochUtc_eq build secs, formatEpochUtc_eq build secs',
      timestampOf_lt (hyear secs) hlast (dateOf_before hlt)⟩

example : formatEpochUtc .strict 951782400 = some "2000-02-29T00:00:00Z" := rfl

end Resilience.Rust.Timestamp
