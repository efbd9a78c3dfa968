/-
The proleptic Gregorian calendar: numbers of days since 1970-01-01, and back.

- `ValidDate y m d`: the months have the lengths of `monthLength`.
- `dayNumber y m d`: the days of the years, of the months and of the month before the date (`yearStart_succ` gives the length
  of a year). On valid dates it is injective (`dayNumber_inj`).
- `civil z`: the date of day `z`. Years are counted from March, in eras of 400 of them, so that the leap day comes last:
  `civil_valid`, `dayNumber_civil`, and `civil_dayNumber` on valid dates.
- `Weekday`, `weekdayOn`: the weeks, counted from a Thursday.
-/
import Mathlib.Tactic

namespace Y2q.Calendar

/-! ## Years and months -/

def IsLeap (y : ℤ) : Prop := 4 ∣ y ∧ (¬100 ∣ y ∨ 400 ∣ y)

instance : DecidablePred IsLeap := fun y => by unfold IsLeap; infer_instance

def monthLength (y : ℤ) (m : ℕ) : ℕ :=
  if m = 2 then (if IsLeap y then 29 else 28) else if m ∈ [4, 6, 9, 11] then 30 else 31

structure ValidDate (y : ℤ) (m d : ℕ) : Prop where
  month_pos : 1 ≤ m
  month_le : m ≤ 12
  day_pos : 1 ≤ d
  day_le : d ≤ monthLength y m

/-- the days before a year, up to a constant -/
def yearStart (y : ℤ) : ℤ := 365 * y + (y - 1) / 4 - (y - 1) / 100 + (y - 1) / 400

theorem yearStart_succ (y : ℤ) : yearStart (y + 1) = yearStart y + if IsLeap y then 366 else 365 := by
  simp only [yearStart, IsLeap]
  split_ifs <;> omega

/-- the days of a year before a month -/
def daysBefore (y : ℤ) (m : ℕ) : ℕ := ∑ i ∈ Finset.Ico 1 m, monthLength y i

def dayNumber (y : ℤ) (m d : ℕ) : ℤ := yearStart y - yearStart 1970 + daysBefore y m + d - 1

theorem daysBefore_succ (y : ℤ) {m : ℕ} (h : 1 ≤ m) : daysBefore y (m + 1) = daysBefore y m + monthLength y m :=
  Finset.sum_Ico_succ_top h _

theorem daysBefore_mono (y : ℤ) {m m' : ℕ} (h : m ≤ m') : daysBefore y m ≤ daysBefore y m' :=
  Finset.sum_le_sum_of_subset (Finset.Ico_subset_Ico le_rfl h)

theorem daysBefore_eq (y : ℤ) {m : ℕ} (h1 : 1 ≤ m) (h12 : m ≤ 13) :
    daysBefore y m = if m ≤ 2 then 31 * (m - 1) else (153 * (m - 3) + 2) / 5 + 59 + if IsLeap y then 1 else 0 := by
  by_cases hy : IsLeap y <;> interval_cases m <;> simp [daysBefore, monthLength, Finset.sum_Ico_succ_top, hy]

/-! ## Order -/

theorem yearStart_lt {y y' : ℤ} (h : y < y') : yearStart y + (if IsLeap y then 366 else 365) ≤ yearStart y' := by
  rw [← yearStart_succ, yearStart, yearStart]
  omega

theorem day_lt_year {y : ℤ} {m d : ℕ} (h : ValidDate y m d) : daysBefore y m + d ≤ if IsLeap y then 366 else 365 := by
  have hyear : daysBefore y 13 = if IsLeap y then 366 else 365 := by
    rw [daysBefore_eq y (by norm_num) le_rfl]
    split_ifs <;> simp_all
  calc daysBefore y m + d ≤ daysBefore y m + monthLength y m := Nat.add_le_add_left h.day_le _
    _ = daysBefore y (m + 1) := (daysBefore_succ y h.month_pos).symm
    _ ≤ daysBefore y 13 := daysBefore_mono y (Nat.succ_le_succ h.month_le)
    _ = _ := hyear

theorem year_le {y y' : ℤ} {m d m' d' : ℕ} (h : ValidDate y m d) (h' : ValidDate y' m' d')
    (heq : dayNumber y m d = dayNumber y' m' d') : y' ≤ y := by
  by_contra hlt
  have hstart := yearStart_lt (not_le.1 hlt)
  have hday := day_lt_year h
  have hpos := h'.day_pos
  rw [dayNumber, dayNumber] at heq
  split_ifs at hstart hday <;> omega

theorem month_le {y : ℤ} {m d m' d' : ℕ} (h : ValidDate y m d) (h' : ValidDate y m' d')
    (heq : dayNumber y m d = dayNumber y m' d') : m' ≤ m := by
  by_contra hlt
  have hmono := daysBefore_mono y (Nat.succ_le_of_lt (not_le.1 hlt))
  have hday := h.day_le
  have hpos := h'.day_pos
  rw [daysBefore_succ y h.month_pos] at hmono
  rw [dayNumber, dayNumber] at heq
  omega

theorem dayNumber_inj {y y' : ℤ} {m d m' d' : ℕ} (h : ValidDate y m d) (h' : ValidDate y' m' d')
    (heq : dayNumber y m d = dayNumber y' m' d') : y = y' ∧ m = m' ∧ d = d' := by
  obtain rfl : y = y' := (year_le h' h heq.symm).antisymm (year_le h h' heq)
  obtain rfl : m = m' := (month_le h' h heq.symm).antisymm (month_le h h' heq)
  have hd : (d : ℤ) = d' := by
    rw [dayNumber, dayNumber] at heq
    omega
  exact ⟨rfl, rfl, by exact_mod_cast hd⟩

/-! ## Years from March -/

/-- the year of a month, counted from March -/
def marchYear (y : ℤ) (m : ℕ) : ℤ := if m ≤ 2 then y - 1 else y

theorem yearStart_march (y : ℤ) : 365 * y + y / 4 - y / 100 + y / 400 = yearStart y + if IsLeap y then 1 else 0 := by
  simp only [yearStart, IsLeap]
  split_ifs <;> omega

/-- 719468 days lie between 0000-03-01 and 1970-01-01 -/
theorem dayNumber_march {y : ℤ} {m d : ℕ} (h1 : 1 ≤ m) (h12 : m ≤ 12) :
    dayNumber y m d = 365 * marchYear y m + marchYear y m / 4 - marchYear y m / 100 + marchYear y m / 400 +
      ((153 * ((m + 9) % 12) + 2) / 5 : ℕ) + d - 1 - 719468 := by
  have h1970 : yearStart 1970 = 719527 := by decide
  rw [dayNumber, daysBefore_eq y h1 (by omega), marchYear, h1970]
  split_ifs with h2
  · -- January and February close the March year before
    have hmonth : (153 * ((m + 9) % 12) + 2) / 5 = 306 + 31 * (m - 1) := by interval_cases m <;> rfl
    rw [hmonth, yearStart]
    omega
  all_goals
    have hmonth : (m + 9) % 12 = m - 3 := by omega
    have hyear := yearStart_march y
    simp only [*, if_true, if_false] at hyear
    rw [hmonth, hyear]
    omega

/-- year, month and day of era `era` and day `doe` of it -/
def yearOfEra (doe : ℕ) : ℕ := (doe - doe / 1460 + doe / 36524 - doe / 146096) / 365

def dayOfYear (doe : ℕ) : ℕ := doe - (365 * yearOfEra doe + yearOfEra doe / 4 - yearOfEra doe / 100)

def monthIndex (doe : ℕ) : ℕ := (5 * dayOfYear doe + 2) / 153

/-- the date of day `z` -/
def civil (z : ℤ) : ℤ × ℕ × ℕ :=
  let era := (z + 719468) / 146097
  let doe := ((z + 719468) % 146097).toNat
  let mp := monthIndex doe
  let m := if mp < 10 then mp + 3 else mp - 9
  let y := yearOfEra doe + era * 400
  (if m ≤ 2 then y + 1 else y, m, dayOfYear doe - (153 * mp + 2) / 5 + 1)

/-- centuries, four-year cycles and years of an era; only the last year of a cycle has day 365, and it is not the last of the
first three centuries -/
theorem era_split {doe : ℕ} (h : doe < 146097) : ∃ c q j doy : ℕ, c ≤ 3 ∧ q ≤ 24 ∧ j ≤ 3 ∧ doy ≤ 365 ∧
    (doy = 365 → j = 3 ∧ (q < 24 ∨ c = 3)) ∧ doe = 36524 * c + 1461 * q + 365 * j + doy := by
  obtain ⟨c, r, hc, hr, rfl⟩ : ∃ c r, c ≤ 3 ∧ (r < 36524 ∨ c = 3 ∧ r = 36524) ∧ doe = 36524 * c + r := by
    rcases Nat.lt_or_ge doe (36524 * 4) with h' | h'
    · exact ⟨doe / 36524, doe % 36524, by omega, by omega, by omega⟩
    · exact ⟨3, 36524, le_rfl, by omega, by omega⟩
  have ht : r % 1461 < 1461 := Nat.mod_lt _ (by norm_num)
  have hdm := Nat.div_add_mod r 1461
  generalize r / 1461 = q at *
  generalize r % 1461 = t at *
  rcases Nat.lt_or_ge t 1460 with h' | h'
  · exact ⟨c, q, t / 365, t % 365, by omega, by omega, by omega, by omega, by omega, by omega⟩
  · exact ⟨c, q, 3, 365, by omega, by omega, by omega, by omega, by omega, by omega⟩

theorem yearOfEra_eq {c q j doy : ℕ} (hc : c ≤ 3) (hq : q ≤ 24) (hj : j ≤ 3) (hd : doy ≤ 365)
    (hlast : doy = 365 → j = 3 ∧ (q < 24 ∨ c = 3)) :
    yearOfEra (36524 * c + 1461 * q + 365 * j + doy) = 100 * c + 4 * q + j := by
  generalize hdoe : 36524 * c + 1461 * q + 365 * j + doy = doe
  have h1 : doe / 1460 = 25 * c + q + if 24 * c + q + 365 * j + doy < 1460 then 0 else 1 := by split_ifs <;> omega
  rw [yearOfEra]
  rcases Nat.lt_or_ge doe 146096 with h3 | h3
  · have h2 : doe / 36524 = c := by omega
    rw [h1, h2, Nat.div_eq_of_lt h3]
    split_ifs <;> omega
  · obtain rfl : doe = 146096 := by omega
    omega

theorem civil_eq {era : ℤ} {c q j doy : ℕ} (hc : c ≤ 3) (hq : q ≤ 24) (hj : j ≤ 3) (hd : doy ≤ 365)
    (hlast : doy = 365 → j = 3 ∧ (q < 24 ∨ c = 3)) :
    civil (146097 * era + (36524 * c + 1461 * q + 365 * j + doy : ℕ) - 719468) =
      let m := if (5 * doy + 2) / 153 < 10 then (5 * doy + 2) / 153 + 3 else (5 * doy + 2) / 153 - 9
      let y : ℤ := (100 * c + 4 * q + j : ℕ) + era * 400
      (if m ≤ 2 then y + 1 else y, m, doy - (153 * ((5 * doy + 2) / 153) + 2) / 5 + 1) := by
  have hdoe : 36524 * c + 1461 * q + 365 * j + doy < 146097 := by omega
  have hyear := yearOfEra_eq hc hq hj hd hlast
  generalize hn : 36524 * c + 1461 * q + 365 * j + doy = doe at *
  have hera : (146097 * era + (doe : ℤ) - 719468 + 719468) / 146097 = era := by omega
  have hmod : ((146097 * era + (doe : ℤ) - 719468 + 719468) % 146097).toNat = doe := by omega
  have hday : dayOfYear doe = doy := by
    have h4 : (100 * c + 4 * q + j) / 4 = 25 * c + q := by omega
    have h100 : (100 * c + 4 * q + j) / 100 = c := by omega
    rw [dayOfYear, hyear, h4, h100]
    omega
  simp only [civil, hera, hmod, monthIndex, hday, hyear]

/-- months from March have 31, 30, 31, 30, 31 days, twice, then 31 and what is left -/
theorem march_day {y : ℤ} {doy mp : ℕ} (hmp : mp = (5 * doy + 2) / 153) (hd : doy ≤ 365) (hleap : doy = 365 → IsLeap y) :
    doy - (153 * mp + 2) / 5 + 1 ≤ monthLength y (if mp < 10 then mp + 3 else mp - 9) ∧ (153 * mp + 2) / 5 ≤ doy := by
  have hmp11 : mp ≤ 11 := by omega
  have hr : 153 * mp ≤ 5 * doy + 2 ∧ 5 * doy + 2 < 153 * mp + 153 := by omega
  interval_cases mp
  case «11» =>
    by_cases hy : IsLeap y
    · simp [monthLength, hy]
      omega
    · have := mt hleap hy
      simp [monthLength, hy]
      omega
  all_goals
    simp [monthLength]
    omega

theorem civil_spec (z : ℤ) :
    ValidDate (civil z).1 (civil z).2.1 (civil z).2.2 ∧ dayNumber (civil z).1 (civil z).2.1 (civil z).2.2 = z := by
  obtain ⟨era, doe, hdoe, rfl⟩ : ∃ (era : ℤ) (doe : ℕ), doe < 146097 ∧ z = 146097 * era + doe - 719468 :=
    ⟨(z + 719468) / 146097, ((z + 719468) % 146097).toNat, by omega, by omega⟩
  obtain ⟨c, q, j, doy, hc, hq, hj, hd, hlast, rfl⟩ := era_split hdoe
  rw [civil_eq hc hq hj hd hlast]
  have hmp : (5 * doy + 2) / 153 ≤ 11 := by omega
  generalize hdef : (5 * doy + 2) / 153 = mp at *
  simp only
  generalize hm : (if mp < 10 then mp + 3 else mp - 9) = m
  generalize hy : ((100 * c + 4 * q + j : ℕ) : ℤ) + era * 400 = y
  have hm1 : 1 ≤ m ∧ m ≤ 12 ∧ (m + 9) % 12 = mp := by split_ifs at hm <;> omega
  have hmarch : marchYear (if m ≤ 2 then y + 1 else y) m = y := by
    rw [marchYear]
    split_ifs <;> omega
  have hleap : doy = 365 → IsLeap (if m ≤ 2 then y + 1 else y) := by
    intro h
    have hm2 : m = 2 := by split_ifs at hm <;> omega
    rw [hm2, if_pos le_rfl, IsLeap]
    have := hlast h
    omega
  obtain ⟨hle, hday⟩ := march_day hdef.symm hd hleap
  refine ⟨⟨hm1.1, hm1.2.1, Nat.le_add_left 1 _, hm ▸ hle⟩, ?_⟩
  rw [dayNumber_march hm1.1 hm1.2.1, hmarch, hm1.2.2]
  omega

theorem civil_dayNumber {y : ℤ} {m d : ℕ} (h : ValidDate y m d) : civil (dayNumber y m d) = (y, m, d) := by
  obtain ⟨hvalid, hday⟩ := civil_spec (dayNumber y m d)
  obtain ⟨hy, hm, hd⟩ := dayNumber_inj hvalid h hday
  exact Prod.ext hy (Prod.ext hm hd)

/-! ## Weeks -/

inductive Weekday where
  | sun | mon | tue | wed | thu | fri | sat
  deriving DecidableEq, Repr

def Weekday.next : Weekday → Weekday
  | .sun => .mon
  | .mon => .tue
  | .tue => .wed
  | .wed => .thu
  | .thu => .fri
  | .fri => .sat
  | .sat => .sun

/-- 1970-01-01 was a Thursday -/
def weekdayOn (day : ℕ) : Weekday := Weekday.next^[day] .thu

theorem weekdayOn_add_seven (day : ℕ) : weekdayOn (day + 7) = weekdayOn day := by
  rw [weekdayOn, Function.iterate_add_apply]
  rfl

theorem weekdayOn_mod (day : ℕ) : weekdayOn (day % 7) = weekdayOn day := by
  induction day using Nat.strong_induction_on with
  | _ day ih =>
    rcases Nat.lt_or_ge day 7 with h | h
    · rw [Nat.mod_eq_of_lt h]
    · obtain ⟨k, rfl⟩ := Nat.exists_eq_add_of_le' h
      rw [Nat.add_mod_right, weekdayOn_add_seven]
      exact ih k (by omega)

end Y2q.Calendar
