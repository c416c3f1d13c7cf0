import Mathlib.Logic.Function.Iterate
import Mathlib.Tactic.IntervalCases

/-!
# The Gregorian calendar

Dates one after the other, and the number of a date, by which a date that is computed is compared
with the one that so many days lead to.
-/

namespace Calendar

def IsLeap (y : ℕ) : Prop := y % 4 = 0 ∧ (y % 100 ≠ 0 ∨ y % 400 = 0)

instance : DecidablePred IsLeap := fun _ => inferInstanceAs (Decidable (_ ∧ _))

/-- The number of days of month `m` in year `y`. -/
def monthDays (y m : ℕ) : ℕ :=
  if m = 2 then if IsLeap y then 29 else 28
  else if m = 4 ∨ m = 6 ∨ m = 9 ∨ m = 11 then 30
  else 31

theorem monthDays_pos (y m : ℕ) : 0 < monthDays y m := by
  unfold monthDays
  split_ifs <;> decide

/-- A date of the calendar. -/
@[ext] structure Date where
  year : ℕ
  month : ℕ
  day : ℕ
  one_le_month : 1 ≤ month
  month_le : month ≤ 12
  one_le_day : 1 ≤ day
  day_le : day ≤ monthDays year month

/-- The days of the years before `y`, from year 0 on. -/
def yearStart (y : ℕ) : ℕ := 365 * y + (y + 3) / 4 - (y + 99) / 100 + (y + 399) / 400

/-- The days of the months before `m` in year `y`. -/
def monthStart (y : ℕ) : ℕ → ℕ
  | 0 | 1 => 0
  | m + 2 => monthStart y (m + 1) + monthDays y (m + 1)

theorem monthStart_succ (y : ℕ) {m : ℕ} (hm : 1 ≤ m) :
    monthStart y (m + 1) = monthStart y m + monthDays y m := by
  obtain ⟨k, rfl⟩ : ∃ k, m = k + 1 := ⟨m - 1, by omega⟩
  rfl

theorem monthStart_year (y : ℕ) : monthStart y 13 = if IsLeap y then 366 else 365 := by
  by_cases hleap : IsLeap y <;> simp [monthStart, monthDays, hleap]

/-- A year is its twelve months. -/
theorem yearStart_succ (y : ℕ) : yearStart (y + 1) = yearStart y + monthStart y 13 := by
  have h4 : (y + 1 + 3) / 4 = (y + 3) / 4 + if y % 4 = 0 then 1 else 0 := by split_ifs <;> omega
  have h100 : (y + 1 + 99) / 100 = (y + 99) / 100 + if y % 100 = 0 then 1 else 0 := by
    split_ifs <;> omega
  have h400 : (y + 1 + 399) / 400 = (y + 399) / 400 + if y % 400 = 0 then 1 else 0 := by
    split_ifs <;> omega
  have hle : (y + 99) / 100 ≤ (y + 3) / 4 := by omega
  have hfour : y % 100 = 0 → y % 4 = 0 := by omega
  have hcentury : y % 400 = 0 → y % 100 = 0 := by omega
  rw [monthStart_year, yearStart, yearStart, h4, h100, h400]
  generalize (y + 3) / 4 = a, (y + 99) / 100 = b, (y + 399) / 400 = c at hle ⊢
  unfold IsLeap
  split_ifs <;> simp_all <;> omega

theorem monthStart_le (y : ℕ) {m m' : ℕ} (hm : 1 ≤ m) (h : m ≤ m') :
    monthStart y m ≤ monthStart y m' := by
  induction m', h using Nat.le_induction with
  | base => exact le_rfl
  | succ k hk ih =>
      rw [monthStart_succ y (hm.trans hk)]
      omega

theorem yearStart_le {y y' : ℕ} (h : y ≤ y') : yearStart y ≤ yearStart y' := by
  induction y', h using Nat.le_induction with
  | base => exact le_rfl
  | succ k _ ih =>
      rw [yearStart_succ]
      omega

namespace Date

variable {d d' : Date} {n : ℕ}

/-- The number of days before a date, from the first day of year 0 on. -/
def number (d : Date) : ℕ := yearStart d.year + monthStart d.year d.month + (d.day - 1)

/-- The first day of a year. -/
def newYear (y : ℕ) : Date where
  year := y
  month := 1
  day := 1
  one_le_month := le_rfl
  month_le := by decide
  one_le_day := le_rfl
  day_le := monthDays_pos _ _

/-- The day after. -/
def next (d : Date) : Date :=
  if hday : d.day < monthDays d.year d.month then
    { d with day := d.day + 1, one_le_day := Nat.succ_pos _, day_le := hday }
  else if hmonth : d.month < 12 then
    { year := d.year, month := d.month + 1, day := 1, one_le_month := Nat.succ_pos _,
      month_le := hmonth, one_le_day := le_rfl, day_le := monthDays_pos _ _ }
  else newYear (d.year + 1)

theorem number_next (d : Date) : d.next.number = d.number + 1 := by
  have hone := d.one_le_day
  have hle := d.day_le
  have hmonth := monthStart_succ d.year d.one_le_month
  unfold next
  split_ifs with hday h12
  · simp only [number]
    omega
  · simp only [number]
    omega
  · have hlast : d.month = 12 := le_antisymm d.month_le (not_lt.1 h12)
    have hyear := yearStart_succ d.year
    have hfirst : monthStart (d.year + 1) 1 = 0 := rfl
    rw [hlast] at hmonth hday hle
    simp only [number, newYear, hlast, hfirst, Nat.reduceAdd] at hmonth ⊢
    omega

theorem number_iterate (d : Date) : ∀ n, (next^[n] d).number = d.number + n
  | 0 => rfl
  | n + 1 => by
      rw [Function.iterate_succ_apply', number_next, number_iterate d n]
      rfl

/-- The days of a month come before the next month. -/
theorem lt_monthStart (d : Date) :
    monthStart d.year d.month + (d.day - 1) < monthStart d.year (d.month + 1) := by
  have hone := d.one_le_day
  have hle := d.day_le
  rw [monthStart_succ d.year d.one_le_month]
  omega

theorem number_lt (d : Date) : d.number < yearStart (d.year + 1) := by
  have hmonth := d.lt_monthStart
  have hle : monthStart d.year (d.month + 1) ≤ monthStart d.year 13 :=
    monthStart_le _ (Nat.succ_pos _) (Nat.succ_le_succ d.month_le)
  rw [yearStart_succ, number]
  omega

theorem year_le (h : d.number ≤ d'.number) : d.year ≤ d'.year := by
  by_contra hlt
  have hle : yearStart (d'.year + 1) ≤ yearStart d.year := yearStart_le (by omega)
  have hbefore := d'.number_lt
  have hafter : yearStart d.year ≤ d.number := by
    unfold number
    omega
  omega

theorem month_le_of_number (hyear : d.year = d'.year) (h : d.number ≤ d'.number) :
    d.month ≤ d'.month := by
  by_contra hlt
  have hle : monthStart d.year (d'.month + 1) ≤ monthStart d.year d.month :=
    monthStart_le _ (Nat.succ_pos _) (by omega)
  have hbefore := d'.lt_monthStart
  rw [← hyear] at hbefore
  unfold number at h
  rw [← hyear] at h
  omega

/-- A date is known by its number. -/
theorem number_inj (h : d.number = d'.number) : d = d' := by
  have hyear := le_antisymm (year_le h.le) (year_le h.ge)
  have hmonth := le_antisymm (month_le_of_number hyear h.le) (month_le_of_number hyear.symm h.ge)
  have hd := d.one_le_day
  have hd' := d'.one_le_day
  unfold number at h
  rw [← hyear, ← hmonth] at h
  exact Date.ext hyear hmonth (by omega)

theorem iterate_eq (h : d'.number = d.number + n) : next^[n] d = d' :=
  number_inj ((number_iterate d n).trans h.symm)

end Date

end Calendar
