import Pfs3.Lib.Calendar
import Pfs3.Model.Util

/-!
# Dates as they are shown

A listing shows the date of an entry. It is the date of the calendar that so many days lead to, and
the time of day at which the entry was stamped.
-/

namespace Pfs3

open Calendar

namespace Util

/-! ## Years that start in March -/

/-- A day of a cycle of 400 years lies in a century, a cycle of four years and a year; the last day
of a year of 366 days is the one day that does not lie in its first 365. -/
theorem era_split {doe : ℕ} (h : doe < 146097) : ∃ c b s t, c ≤ 3 ∧ b ≤ 24 ∧ s ≤ 3 ∧ t ≤ 365 ∧
    (t = 365 → s = 3 ∧ (b < 24 ∨ c = 3)) ∧ doe = 36524 * c + 1461 * b + 365 * s + t := by
  obtain ⟨c, r, hc, hr, rfl, hlast⟩ : ∃ c r, c ≤ 3 ∧ r ≤ 36524 ∧ doe = 36524 * c + r ∧
      (r = 36524 → c = 3) := by
    rcases Nat.lt_or_ge doe 146096 with hlt | hge
    · exact ⟨doe / 36524, doe % 36524, by omega, by omega, by omega, by omega⟩
    · exact ⟨3, 36524, le_rfl, le_rfl, by omega, fun _ => rfl⟩
  rcases Nat.lt_or_ge (r % 1461) 1460 with hlt | hge
  · exact ⟨c, r / 1461, r % 1461 / 365, r % 1461 % 365, hc, by omega, by omega, by omega,
      by omega, by omega⟩
  · exact ⟨c, r / 1461, 3, 365, hc, by omega, le_rfl, le_rfl, by omega, by omega⟩

/-- The year of the cycle: the days that leap years have too many are taken out before the division
by 365. -/
theorem yoe_eq {c b s t : ℕ} (hc : c ≤ 3) (hb : b ≤ 24) (hs : s ≤ 3) (ht : t ≤ 365)
    (hlast : t = 365 → s = 3 ∧ (b < 24 ∨ c = 3)) {doe : ℕ}
    (hdoe : doe = 36524 * c + 1461 * b + 365 * s + t) :
    (doe - doe / 1460 + doe / 36524 - doe / 146096) / 365 = 100 * c + 4 * b + s := by
  have hend : doe / 36524 - doe / 146096 = c ∧ doe / 146096 ≤ doe / 36524 := by omega
  have hfour : doe / 1460 = 25 * c + b + if 1460 ≤ 24 * c + b + 365 * s + t then 1 else 0 := by
    split_ifs <;> omega
  rw [hfour]
  split_ifs <;> omega

/-- The days before the first of March. -/
theorem yearStart_march {era c b s : ℕ} (hc : c ≤ 3) (hb : b ≤ 24) (hs : s ≤ 3) :
    yearStart (100 * c + 4 * b + s + era * 400) +
        monthStart (100 * c + 4 * b + s + era * 400) 3 =
      146097 * era + 36524 * c + 1461 * b + 365 * s + 60 := by
  generalize hy : 100 * c + 4 * b + s + era * 400 = y
  have hmarch : monthStart y 3 = if IsLeap y then 60 else 59 := by
    by_cases hleap : IsLeap y <;> simp [monthStart, monthDays, hleap]
  have h4 : (y + 3) / 4 = 100 * era + 25 * c + b + if s = 0 then 0 else 1 := by
    split_ifs <;> omega
  have h100 : (y + 99) / 100 = 4 * era + c + if b = 0 ∧ s = 0 then 0 else 1 := by
    split_ifs <;> omega
  have h400 : (y + 399) / 400 = era + if c = 0 ∧ b = 0 ∧ s = 0 then 0 else 1 := by
    split_ifs <;> omega
  have hleap : IsLeap y ↔ s = 0 ∧ (b ≠ 0 ∨ c = 0) := by
    unfold IsLeap
    omega
  rw [hmarch, yearStart, h4, h100, h400]
  simp only [hleap]
  subst hy
  split_ifs <;> omega

/-- Behind February every five months have 153 days. -/
theorem monthStart_march (y : ℕ) {mp : ℕ} (h : mp ≤ 10) :
    monthStart y (mp + 3) = monthStart y 3 + (153 * mp + 2) / 5 := by
  interval_cases mp <;> simp [monthStart, monthDays]

/-- The months from March to January have the days that the division by 153 gives them. -/
theorem monthDays_march (y : ℕ) {mp : ℕ} (h : mp < 10) :
    monthDays y (mp + 3) = (153 * (mp + 1) + 2) / 5 - (153 * mp + 2) / 5 := by
  interval_cases mp <;> rfl

/-- Month and day of day `t` of a year that starts in March. -/
theorem date_march {y t : ℕ} (ht : t ≤ 365) (hleap : t = 365 → IsLeap (y + 1)) :
    ∃ d : Date, d.number = yearStart y + monthStart y 3 + t ∧
      d.month = (if (5 * t + 2) / 153 < 10 then (5 * t + 2) / 153 + 3 else (5 * t + 2) / 153 - 9) ∧
      d.year = (if d.month ≤ 2 then y + 1 else y) ∧
      d.day = t - (153 * ((5 * t + 2) / 153) + 2) / 5 + 1 := by
  generalize hmp : (5 * t + 2) / 153 = mp
  rcases Nat.lt_or_ge mp 10 with hlt | hge
  · -- March to December
    have hmonth := monthStart_march y hlt.le
    have hdays := monthDays_march y hlt
    have hstart : (153 * mp + 2) / 5 ≤ t := by omega
    have hstop : t < (153 * (mp + 1) + 2) / 5 := by omega
    refine ⟨⟨y, mp + 3, t - (153 * mp + 2) / 5 + 1, by omega, by omega, by omega, by omega⟩,
      ?_, (if_pos hlt).symm, (if_neg (show ¬ mp + 3 ≤ 2 by omega)).symm, rfl⟩
    simp only [Date.number]
    omega
  · -- January and February belong to the next year
    have hyear := yearStart_succ y
    have hend : monthStart y 13 = monthStart y 3 + 306 := monthStart_march y (le_refl 10)
    obtain rfl | rfl : mp = 10 ∨ mp = 11 := by omega
    · have hfirst : monthStart (y + 1) 1 = 0 := rfl
      have hdays : monthDays (y + 1) 1 = 31 := rfl
      refine ⟨⟨y + 1, 1, t - 306 + 1, le_rfl, by decide, by omega, by omega⟩, ?_, rfl, rfl, rfl⟩
      simp only [Date.number, hfirst]
      omega
    · have hsecond : monthStart (y + 1) 2 = 31 := rfl
      have hdays : monthDays (y + 1) 2 = if IsLeap (y + 1) then 29 else 28 := rfl
      refine ⟨⟨y + 1, 2, t - 337 + 1, by decide, by decide, by omega, ?_⟩, ?_, rfl, rfl, rfl⟩
      · -- the day too many is the last one of a leap year's February
        rcases Nat.lt_or_ge t 365 with hlt | hge
        · rw [hdays]
          split_ifs <;> omega
        · rw [hdays, if_pos (hleap (le_antisymm ht hge))]
          omega
      · simp only [Date.number, hsecond]
        omega

def unixEpoch : Date := Date.newYear 1970

theorem number_unixEpoch : unixEpoch.number = 719528 := by decide

/-- Year, month and day of a number of days are the date of the calendar. -/
theorem daysToYmd_number (days : ℕ) : ∃ d : Date, daysToYmd days = (d.year, d.month, d.day) ∧
    d.number = unixEpoch.number + days := by
  obtain ⟨c, b, s, t, hc, hb, hs, ht, hlast, hdoe⟩ :=
    era_split (Nat.mod_lt (days + 719468) (show 0 < 146097 by decide))
  have hyoe := yoe_eq hc hb hs ht hlast hdoe
  generalize hera : (days + 719468) / 146097 = era
  have hrest : days + 719468 - era * 146097 = 36524 * c + 1461 * b + 365 * s + t := by omega
  rw [hdoe] at hyoe
  have hdoy : 36524 * c + 1461 * b + 365 * s + t - (365 * (100 * c + 4 * b + s) +
      (100 * c + 4 * b + s) / 4 - (100 * c + 4 * b + s) / 100) = t := by
    have hfour : (100 * c + 4 * b + s) / 4 = 25 * c + b := by omega
    have hcentury : (100 * c + 4 * b + s) / 100 = c := by omega
    rw [hfour, hcentury]
    omega
  have hleap : t = 365 → IsLeap (100 * c + 4 * b + s + era * 400 + 1) := by
    intro hday
    obtain ⟨rfl, hrest⟩ := hlast hday
    exact ⟨by omega, by omega⟩
  obtain ⟨d, hnumber, hmonth, hyear, hday⟩ := date_march ht hleap
  refine ⟨d, ?_, ?_⟩
  · rw [hyear, hmonth, hday]
    unfold daysToYmd
    simp only [hera, hrest, hyoe, hdoy]
  · rw [hnumber, @yearStart_march era c b s hc hb hs, number_unixEpoch]
    omega

theorem daysToYmd_eq (days : ℕ) : daysToYmd days =
    ((Date.next^[days] unixEpoch).year, (Date.next^[days] unixEpoch).month,
      (Date.next^[days] unixEpoch).day) := by
  obtain ⟨d, hymd, hnumber⟩ := daysToYmd_number days
  rw [Date.iterate_eq hnumber, hymd]

/-! ## The text -/

section Text

variable {w n n' : ℕ}

theorem ofDigitChars_padded : Nat.ofDigitChars 10 (padded w n) 0 = n := by
  rw [padded, Nat.ofDigitChars_append, Nat.ofDigitChars_replicate_zero, mul_zero,
    Nat.ofDigitChars_ten_toDigits]

theorem padded_inj (h : padded w n = padded w n') : n = n' := by
  rw [← @ofDigitChars_padded w n, h, ofDigitChars_padded]

theorem length_padded (hw : 0 < w) (hn : n < 10 ^ w) : (padded w n).length = w := by
  have hlen := (Nat.length_toDigits_le_iff (by decide) hw).mpr hn
  rw [padded, List.length_append, List.length_replicate]
  omega

/-- The first number of a text, and what follows it. -/
theorem padded_append_inj {l l' : Name} (hw : 0 < w) (hn : n < 10 ^ w) (hn' : n' < 10 ^ w)
    (h : padded w n ++ l = padded w n' ++ l') : n = n' ∧ l = l' := by
  have hlen : (padded w n).length = (padded w n').length := by
    rw [length_padded hw hn, length_padded hw hn']
  obtain ⟨hnumber, hrest⟩ := List.append_inj h hlen
  exact ⟨padded_inj hnumber, hrest⟩

end Text

/-- The fields of a text of a date. -/
theorem dateText_inj {y m d hours mins s y' m' d' hours' mins' s' : ℕ} (hy : y < 10000)
    (hy' : y' < 10000) (hm : m < 100) (hm' : m' < 100) (hd : d < 100) (hd' : d' < 100)
    (hhours : hours < 100) (hhours' : hours' < 100) (hmins : mins < 100) (hmins' : mins' < 100)
    (h : dateText y m d hours mins s = dateText y' m' d' hours' mins' s') :
    (y = y' ∧ m = m' ∧ d = d') ∧ hours = hours' ∧ mins = mins' ∧ s = s' := by
  simp only [dateText, List.cons_append, List.append_assoc] at h
  obtain ⟨hyear, h⟩ := padded_append_inj (by decide) hy hy' h
  obtain ⟨hmonth, h⟩ := padded_append_inj (by decide) hm hm' (List.cons.inj h).2
  obtain ⟨hday, h⟩ := padded_append_inj (by decide) hd hd' (List.cons.inj h).2
  obtain ⟨hhour, h⟩ := padded_append_inj (by decide) hhours hhours' (List.cons.inj h).2
  obtain ⟨hmin, h⟩ := padded_append_inj (by decide) hmins hmins' (List.cons.inj h).2
  exact ⟨⟨hyear, hmonth, hday⟩, hhour, hmin, padded_inj (List.cons.inj h).2⟩

/-- The day of a number of seconds. -/
def dateOf (secs : ℕ) : Date := Date.next^[secs / 86400] unixEpoch

theorem amigaDateString_eq {days minutes ticks secs : ℕ}
    (h : AMIGA_EPOCH_OFFSET + days * 86400 + minutes * 60 + ticks / 50 = secs) :
    amigaDateString days minutes ticks = dateText (dateOf secs).year (dateOf secs).month
      (dateOf secs).day (secs % 86400 / 3600) (secs % 3600 / 60) (secs % 60) := by
  have hmins : secs % 86400 % 3600 / 60 = secs % 3600 / 60 := by omega
  have hsecs : secs % 86400 % 60 = secs % 60 := by omega
  simp only [amigaDateString, amigaToSystime, daysToYmd_eq, h]
  rw [hmins, hsecs]
  rfl

/-- An entry is shown with the date and the time at which it was stamped, from 1978 until the days
do not fit 16 bits. -/
theorem stamp_shows_time {secs : ℕ} (hlo : AMIGA_EPOCH_OFFSET ≤ secs)
    (hhi : secs < AMIGA_EPOCH_OFFSET + 65536 * 86400) :
    amigaDateString (currentAmigaDatestamp secs).day (currentAmigaDatestamp secs).minute
        (currentAmigaDatestamp secs).tick =
      dateText (dateOf secs).year (dateOf secs).month (dateOf secs).day (secs % 86400 / 3600)
        (secs % 3600 / 60) (secs % 60) := by
  have hback : AMIGA_EPOCH_OFFSET + (currentAmigaDatestamp secs).day * 86400 +
      (currentAmigaDatestamp secs).minute * 60 + (currentAmigaDatestamp secs).tick / 50 = secs := by
    have hday : (secs - AMIGA_EPOCH_OFFSET) / 86400 < 65536 := by omega
    have hminute : (secs - AMIGA_EPOCH_OFFSET) % 86400 / 60 < 65536 := by omega
    have htick : (secs - AMIGA_EPOCH_OFFSET) % 60 * 50 < 65536 := by omega
    simp only [currentAmigaDatestamp]
    rw [Nat.mod_eq_of_lt hday, Nat.mod_eq_of_lt hminute, Nat.mod_eq_of_lt htick]
    omega
  exact amigaDateString_eq hback

/-- The thousand millionth second. -/
theorem stamp_shows_time_billion : amigaDateString (currentAmigaDatestamp (10 ^ 9)).day
      (currentAmigaDatestamp (10 ^ 9)).minute (currentAmigaDatestamp (10 ^ 9)).tick =
    dateText (dateOf (10 ^ 9)).year (dateOf (10 ^ 9)).month (dateOf (10 ^ 9)).day
      (10 ^ 9 % 86400 / 3600) (10 ^ 9 % 3600 / 60) (10 ^ 9 % 60) :=
  stamp_shows_time (by decide) (by decide)

example : amigaDateString 8652 106 2000 = "2001-09-09 01:46:40".toList := by decide

theorem number_dateOf (secs : ℕ) : (dateOf secs).number = 719528 + secs / 86400 := by
  rw [dateOf, Date.number_iterate, number_unixEpoch]

theorem year_dateOf {secs : ℕ} (h : secs < 2 ^ 36) : (dateOf secs).year < 10000 := by
  by_contra hyear
  have hstart : yearStart 10000 ≤ yearStart (dateOf secs).year := yearStart_le (not_lt.1 hyear)
  have hnumber := number_dateOf secs
  have hfirst : yearStart 10000 = 3652425 := by decide
  unfold Date.number at hnumber
  omega

theorem month_lt (d : Date) : d.month < 100 := by
  have hle := d.month_le
  omega

theorem day_lt (d : Date) : d.day < 100 := by
  have hle := d.day_le
  unfold monthDays at hle
  split_ifs at hle <;> omega

/-- Two stamps are shown alike just when they are of one second. -/
theorem dates_shown_iff {days minutes ticks days' minutes' ticks' : ℕ} (hdays : days < 65536)
    (hdays' : days' < 65536) (hminutes : minutes < 1440) (hminutes' : minutes' < 1440)
    (hticks : ticks < 3000) (hticks' : ticks' < 3000) :
    amigaDateString days minutes ticks = amigaDateString days' minutes' ticks' ↔
      days = days' ∧ minutes = minutes' ∧ ticks / 50 = ticks' / 50 := by
  constructor
  · intro h
    obtain ⟨secs, hsecs⟩ : ∃ secs, AMIGA_EPOCH_OFFSET + days * 86400 + minutes * 60 +
      ticks / 50 = secs := ⟨_, rfl⟩
    obtain ⟨secs', hsecs'⟩ : ∃ secs, AMIGA_EPOCH_OFFSET + days' * 86400 + minutes' * 60 +
      ticks' / 50 = secs := ⟨_, rfl⟩
    rw [amigaDateString_eq hsecs, amigaDateString_eq hsecs'] at h
    have hoff : AMIGA_EPOCH_OFFSET = 252460800 := rfl
    obtain ⟨⟨hyear, hmonth, hday⟩, hhour, hmin, hs⟩ :=
      dateText_inj (year_dateOf (by omega)) (year_dateOf (by omega)) (month_lt _) (month_lt _)
        (day_lt _) (day_lt _) (by omega) (by omega) (by omega) (by omega) h
    have hdate := congrArg Date.number (Date.ext hyear hmonth hday)
    rw [number_dateOf, number_dateOf] at hdate
    omega
  · rintro ⟨rfl, rfl, hsec⟩
    rw [amigaDateString_eq rfl, amigaDateString_eq rfl, hsec]

/-- The last tick of a second and the first of the next one. -/
theorem dates_shown_iff_ticks : amigaDateString 8652 106 2049 = amigaDateString 8652 106 2000 ∧
    amigaDateString 8652 106 2050 ≠ amigaDateString 8652 106 2000 := by
  have hshown := fun t (ht : t < 3000) => @dates_shown_iff 8652 106 t 8652 106 2000 (by decide)
    (by decide) (by decide) (by decide) ht (by decide)
  exact ⟨(hshown 2049 (by decide)).mpr (by decide), fun h => by
    have hsame := (hshown 2050 (by decide)).mp h
    exact absurd hsame.2.2 (by decide)⟩

end Util

end Pfs3
