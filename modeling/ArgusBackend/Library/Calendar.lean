import Mathlib

/-!
# The calendar

Dates of the Gregorian calendar and the numbers of their days, counted from 1 January 1970, and the
functions of the C library for a zone at a fixed offset.

* `dayNumber`, `dateOf` : a date and its day, with `dayNumber_dateOf` and `dateOf_dayNumber`; days
  follow the order of their dates (`dayNumber_lt_of_date`);
* `clipped` : a day of a month, or the last one of a month that is shorter;
* `mktime`, `localtime` : a time and its moment, with `mktime_localtime`.
-/

namespace ArgusBackend

namespace Calendar

/-! ### Dates -/

/-- A date, of any numbers. -/
structure Date where
  year : ℤ
  month : ℤ
  day : ℤ
  deriving DecidableEq, Repr

/-- A leap year. -/
def IsLeap (y : ℤ) : Prop := y % 4 = 0 ∧ y % 100 ≠ 0 ∨ y % 400 = 0

instance (y : ℤ) : Decidable (IsLeap y) := inferInstanceAs (Decidable (_ ∨ _))

/-- The leap days of a year. -/
def leapDays (y : ℤ) : ℤ := if IsLeap y then 1 else 0

/-- The days of a month. -/
def monthLength (y m : ℤ) : ℤ :=
  if m = 2 then 28 + leapDays y else if m = 4 ∨ m = 6 ∨ m = 9 ∨ m = 11 then 30 else 31

/-- A date of the calendar. -/
structure Date.Civil (date : Date) : Prop where
  month : 1 ≤ date.month ∧ date.month ≤ 12
  day : 1 ≤ date.day ∧ date.day ≤ monthLength date.year date.month

instance (date : Date) : Decidable date.Civil :=
  decidable_of_iff ((1 ≤ date.month ∧ date.month ≤ 12) ∧
    (1 ≤ date.day ∧ date.day ≤ monthLength date.year date.month))
    ⟨fun h => ⟨h.1, h.2⟩, fun h => ⟨h.1, h.2⟩⟩

/-- The first day of a year. -/
def yearStart (y : ℤ) : ℤ := 365 * (y - 1970) + (y - 1) / 4 - (y - 1) / 100 + (y - 1) / 400 - 477

/-- The days of the year before a month. -/
def monthStart (y m : ℤ) : ℤ := (367 * m - 362) / 12 - if m ≤ 2 then 0 else 2 - leapDays y

/-- The number of a date, from the first of January 1970 on. -/
def dayNumber (date : Date) : ℤ :=
  yearStart date.year + monthStart date.year date.month + (date.day - 1)

/-- The year of a day. -/
def yearOf (n : ℤ) : ℤ :=
  let y := 1970 + 400 * n / 146097
  if n < yearStart y then y - 1 else if yearStart (y + 1) ≤ n then y + 1 else y

/-- The month of a day of a year. -/
def monthOf (y k : ℤ) : ℤ :=
  (12 * (k + if k < 59 + leapDays y then 0 else 2 - leapDays y) + 373) / 367

/-- The date of a day. -/
def dateOf (n : ℤ) : Date :=
  let y := yearOf n
  let k := n - yearStart y
  let m := monthOf y k
  { year := y, month := m, day := k - monthStart y m + 1 }

/-- The month of a date, counted from the year 0. -/
def Date.monthIndex (date : Date) : ℤ := 12 * date.year + (date.month - 1)

/-- A day of a month, or the last day of a month that is shorter. -/
def clipped (i day : ℤ) : Date where
  year := i / 12
  month := i % 12 + 1
  day := min day (monthLength (i / 12) (i % 12 + 1))

/-- 0 is Sunday. -/
def weekday (n : ℤ) : ℤ := (n + 4) % 7

section Dates

variable {y m n k day : ℤ} {date date' : Date}

lemma leapDays_eq (y : ℤ) : leapDays y = 0 ∨ leapDays y = 1 := by
  unfold leapDays
  split_ifs
  · exact .inr rfl
  · exact .inl rfl

lemma yearStart_succ (y : ℤ) : yearStart (y + 1) = yearStart y + 365 + leapDays y := by
  have hleap : leapDays y = (y / 4 - (y - 1) / 4) - (y / 100 - (y - 1) / 100) +
      (y / 400 - (y - 1) / 400) := by
    unfold leapDays IsLeap
    by_cases h4 : y % 4 = 0 <;> by_cases h100 : y % 100 = 0 <;> by_cases h400 : y % 400 = 0 <;>
      simp only [h4, h100, h400, ne_eq, not_true_eq_false, not_false_eq_true, and_true, and_false,
        or_true, or_false, if_true, if_false] <;> omega
  rw [hleap]
  unfold yearStart
  rw [add_sub_cancel_right]
  omega

/-- A year has 365.2425 days. -/
lemma yearStart_bounds (y : ℤ) : 400 * yearStart y ≤ 146097 * (y - 1970) + 589 ∧
    146097 * (y - 1970) - 506 ≤ 400 * yearStart y := by
  unfold yearStart
  omega

lemma yearOf_spec (n : ℤ) : yearStart (yearOf n) ≤ n ∧ n < yearStart (yearOf n + 1) := by
  unfold yearOf
  dsimp only
  have hdown := yearStart_bounds (1970 + 400 * n / 146097 - 1)
  have hup := yearStart_bounds (1970 + 400 * n / 146097 + 1 + 1)
  split_ifs with h₁ h₂
  · rw [sub_add_cancel]
    omega
  · omega
  · exact ⟨not_lt.mp h₁, not_le.mp h₂⟩

lemma yearStart_strictMono : StrictMono yearStart := by
  refine strictMono_int_of_lt_succ fun y => ?_
  have hleap := leapDays_eq y
  rw [yearStart_succ]
  omega

/-- A year is told by any of its days. -/
lemma yearOf_unique (hle : yearStart y ≤ n) (hlt : n < yearStart (y + 1)) : yearOf n = y := by
  obtain ⟨hle', hlt'⟩ := yearOf_spec n
  have h₁ := yearStart_strictMono.lt_iff_lt.mp (hle.trans_lt hlt')
  have h₂ := yearStart_strictMono.lt_iff_lt.mp (hle'.trans_lt hlt)
  omega

lemma monthOf_spec (hlo : 0 ≤ k) (hhi : k < 365 + leapDays y) :
    (1 ≤ monthOf y k ∧ monthOf y k ≤ 12) ∧ monthStart y (monthOf y k) ≤ k ∧
      k < monthStart y (monthOf y k) + monthLength y (monthOf y k) := by
  have hleap := leapDays_eq y
  have hm : 1 ≤ monthOf y k ∧ monthOf y k ≤ 12 := by
    unfold monthOf
    split_ifs <;> omega
  refine ⟨hm, ?_⟩
  have hdiv : monthOf y k = (12 * (k + if k < 59 + leapDays y then 0 else 2 - leapDays y) + 373) /
    367 := rfl
  generalize monthOf y k = m at hm hdiv ⊢
  obtain ⟨h₁, h₂⟩ := hm
  unfold monthStart monthLength
  interval_cases m <;> split_ifs at hdiv <;> norm_num <;> omega

/-- A month is told by any of its days. -/
lemma monthOf_unique (hm : 1 ≤ m ∧ m ≤ 12) (hlo : monthStart y m ≤ k)
    (hhi : k < monthStart y m + monthLength y m) : monthOf y k = m := by
  have hleap := leapDays_eq y
  obtain ⟨h₁, h₂⟩ := hm
  unfold monthStart at hlo
  unfold monthStart monthLength at hhi
  unfold monthOf
  interval_cases m <;> norm_num at hlo hhi <;> split_ifs <;> omega

lemma monthStart_bounds (hm : 1 ≤ m ∧ m ≤ 12) :
    0 ≤ monthStart y m ∧ monthStart y m + monthLength y m ≤ 365 + leapDays y := by
  have hleap := leapDays_eq y
  obtain ⟨h₁, h₂⟩ := hm
  unfold monthStart monthLength
  interval_cases m <;> norm_num <;> omega

theorem civil_dateOf (n : ℤ) : (dateOf n).Civil := by
  obtain ⟨hlo, hhi⟩ := yearOf_spec n
  rw [yearStart_succ] at hhi
  obtain ⟨hm, hle, hlt⟩ := monthOf_spec (y := yearOf n) (k := n - yearStart (yearOf n))
    (by omega) (by omega)
  exact ⟨hm, by dsimp only [dateOf]; omega⟩

theorem dayNumber_dateOf (n : ℤ) : dayNumber (dateOf n) = n := by
  unfold dayNumber dateOf
  dsimp only
  omega

theorem dateOf_dayNumber (h : date.Civil) : dateOf (dayNumber date) = date := by
  obtain ⟨y, m, d⟩ := date
  obtain ⟨hm, hd⟩ := h
  dsimp only at hm hd
  have hstart := monthStart_bounds (y := y) hm
  have hyear : yearOf (dayNumber ⟨y, m, d⟩) = y := by
    refine yearOf_unique ?_ ?_
    · unfold dayNumber
      dsimp only
      omega
    · rw [yearStart_succ]
      unfold dayNumber
      dsimp only
      omega
  have hk : dayNumber ⟨y, m, d⟩ - yearStart y = monthStart y m + (d - 1) := by
    unfold dayNumber
    dsimp only
    omega
  have hmonth : monthOf y (monthStart y m + (d - 1)) = m := monthOf_unique hm (by omega) (by omega)
  unfold dateOf
  dsimp only
  rw [hyear, hk, hmonth]
  congr 1
  omega

/-- Days may be counted on from a date. -/
lemma dayNumber_add (y m d k : ℤ) :
    dayNumber ⟨y, m, d + k⟩ = dayNumber ⟨y, m, d⟩ + k := by
  unfold dayNumber
  dsimp only
  omega

/-- The same day of the next month.  The months are counted from the year 0. -/
lemma dayNumber_month_succ (i d : ℤ) : dayNumber ⟨(i + 1) / 12, (i + 1) % 12 + 1, d⟩ =
    dayNumber ⟨i / 12, i % 12 + 1, d⟩ + monthLength (i / 12) (i % 12 + 1) := by
  obtain ⟨y, m, hm, rfl⟩ : ∃ y m : ℤ, (1 ≤ m ∧ m ≤ 12) ∧ i = 12 * y + (m - 1) :=
    ⟨i / 12, i % 12 + 1, by omega, by omega⟩
  have hstart := yearStart_succ y
  have hleap := leapDays_eq y
  rw [show (12 * y + (m - 1)) / 12 = y by omega, show (12 * y + (m - 1)) % 12 + 1 = m by omega]
  unfold dayNumber monthStart monthLength
  dsimp only
  by_cases hlast : m = 12
  · rw [show (12 * y + (m - 1) + 1) / 12 = y + 1 by omega,
      show (12 * y + (m - 1) + 1) % 12 + 1 = 1 by omega, hlast]
    norm_num
    omega
  · rw [show (12 * y + (m - 1) + 1) / 12 = y by omega,
      show (12 * y + (m - 1) + 1) % 12 + 1 = m + 1 by omega]
    obtain ⟨h₁, h₂⟩ := hm
    interval_cases m <;> norm_num <;> omega

lemma dayNumber_month_strictMono (d : ℤ) :
    StrictMono fun i : ℤ => dayNumber ⟨i / 12, i % 12 + 1, d⟩ := by
  refine strictMono_int_of_lt_succ fun i => ?_
  have hleap := leapDays_eq (i / 12)
  have hlength : 0 < monthLength (i / 12) (i % 12 + 1) := by
    unfold monthLength
    split_ifs <;> omega
  rw [dayNumber_month_succ]
  omega

/-- A day is between the first days of its month and the next. -/
lemma month_bounds {i : ℤ} (h : date.Civil) (hi : i = 12 * date.year + (date.month - 1)) :
    dayNumber ⟨i / 12, i % 12 + 1, 1⟩ ≤ dayNumber date ∧
      dayNumber date < dayNumber ⟨(i + 1) / 12, (i + 1) % 12 + 1, 1⟩ := by
  obtain ⟨y, m, d⟩ := date
  obtain ⟨hm, hd⟩ := h
  dsimp only at hm hd hi
  rw [dayNumber_month_succ, show i / 12 = y by omega, show i % 12 + 1 = m by omega]
  unfold dayNumber
  dsimp only
  omega

lemma monthLength_bounds (y m : ℤ) : 28 ≤ monthLength y m ∧ monthLength y m ≤ 31 := by
  have hleap := leapDays_eq y
  unfold monthLength
  split_ifs <;> omega

theorem civil_clipped (i : ℤ) (hday : 1 ≤ day) : (clipped i day).Civil := by
  have hlength := monthLength_bounds (i / 12) (i % 12 + 1)
  refine ⟨by dsimp only [clipped]; omega, le_min hday ?_, min_le_right _ _⟩
  omega

@[simp] theorem monthIndex_clipped (i day : ℤ) : (clipped i day).monthIndex = i := by
  unfold clipped Date.monthIndex
  dsimp only
  omega

/-- A date of an earlier month is earlier. -/
theorem dayNumber_lt_of_month (h : date.Civil) (h' : date'.Civil)
    (hlt : date.monthIndex < date'.monthIndex) : dayNumber date < dayNumber date' := by
  obtain ⟨-, hend⟩ := month_bounds h rfl
  obtain ⟨hfirst, -⟩ := month_bounds h' rfl
  exact hend.trans_le (((dayNumber_month_strictMono 1).monotone hlt).trans hfirst)

/-- Dates are ordered by year, month and day. -/
theorem dayNumber_lt_of_date (h : date.Civil) (h' : date'.Civil)
    (hlt : date.year < date'.year ∨ date.year = date'.year ∧
      (date.month < date'.month ∨ date.month = date'.month ∧ date.day < date'.day)) :
    dayNumber date < dayNumber date' := by
  have hmonth := h.month
  have hmonth' := h'.month
  rcases hlt with hyear | ⟨hyear, hlt | ⟨heq, hlt⟩⟩
  · exact dayNumber_lt_of_month h h' (by unfold Date.monthIndex; omega)
  · exact dayNumber_lt_of_month h h' (by unfold Date.monthIndex; omega)
  · unfold dayNumber
    rw [hyear, heq]
    omega

theorem monthIndex_mono : Monotone fun n => (dateOf n).monthIndex := by
  intro n k hle
  by_contra hlt
  have h := dayNumber_lt_of_month (civil_dateOf k) (civil_dateOf n) (not_le.1 hlt)
  rw [dayNumber_dateOf, dayNumber_dateOf] at h
  omega

theorem year_mono : Monotone fun n => (dateOf n).year := by
  intro n k hle
  have h : (dateOf n).monthIndex ≤ (dateOf k).monthIndex := monthIndex_mono hle
  have hn := (civil_dateOf n).month
  have hk := (civil_dateOf k).month
  unfold Date.monthIndex at h
  dsimp only
  omega

end Dates

/-! ### Times -/

/-- The fields of `struct tm` that are read. -/
structure Tm where
  tm_year : ℤ := 0
  tm_mon : ℤ := 0
  tm_mday : ℤ := 0
  tm_hour : ℤ := 0
  tm_min : ℤ := 0
  tm_sec : ℤ := 0
  tm_wday : ℤ := 0
  deriving DecidableEq, Repr

/-- The day of a time, whose month and day need not be of the calendar. -/
def Tm.dayNumber (tm : Tm) : ℤ :=
  Calendar.dayNumber ⟨tm.tm_year + 1900 + tm.tm_mon / 12, tm.tm_mon % 12 + 1, tm.tm_mday⟩

/-- The moment of a time in UTC, of any numbers. -/
def timegm (tm : Tm) : ℤ :=
  86400 * tm.dayNumber + 3600 * tm.tm_hour + 60 * tm.tm_min + tm.tm_sec

/-- The moment of a time in a zone, by the seconds that its clocks are ahead. -/
def mktime (zone : ℤ) (tm : Tm) : ℤ := timegm tm - zone

/-- The time at a moment.  `mktime` puts it into the place of the time it is given. -/
def localtime (zone : ℤ) (moment : ℤ) : Tm :=
  let n := (moment + zone) / 86400
  let s := (moment + zone) % 86400
  let date := dateOf n
  { tm_year := date.year - 1900, tm_mon := date.month - 1, tm_mday := date.day
    tm_hour := s / 3600, tm_min := s % 3600 / 60, tm_sec := s % 60, tm_wday := weekday n }

section Times

variable {zone : ℤ} {tm : Tm} {date : Date}

/-- The day of a time of the calendar. -/
lemma dayNumber_tm (hm : 1 ≤ date.month ∧ date.month ≤ 12) (hyear : tm.tm_year = date.year - 1900)
    (hmon : tm.tm_mon = date.month - 1) (hday : tm.tm_mday = date.day) :
    tm.dayNumber = dayNumber date := by
  unfold Tm.dayNumber
  rw [show tm.tm_year + 1900 + tm.tm_mon / 12 = date.year by omega,
    show tm.tm_mon % 12 + 1 = date.month by omega, hday]

theorem mktime_localtime (zone moment : ℤ) : mktime zone (localtime zone moment) = moment := by
  have hday : (localtime zone moment).dayNumber = (moment + zone) / 86400 := by
    rw [dayNumber_tm (civil_dateOf ((moment + zone) / 86400)).month rfl rfl rfl, dayNumber_dateOf]
  unfold mktime timegm
  rw [hday]
  unfold localtime
  dsimp only
  omega

end Times

end Calendar

end ArgusBackend
