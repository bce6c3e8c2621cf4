import ArgusBackend.Library.Calendar
import ArgusBackend.Library.Entries
import ArgusBackend.Library.Numerals

/-!
# The recurrences of the productivity service

* `parseRecurrenceRule` : the rules that are accepted;
* `dayNumberOf`, `civilFromDays` : its own arithmetic of dates, which is that of the calendar
  (`dayNumberOf_eq`, `civilFromDays_eq`);
* `occurrenceAt`, `series` : the moments of a rule from an anchor on.
-/

namespace ArgusBackend

namespace Productivity

open Numerals Calendar

/-- The frequencies of a rule. -/
inductive RecurrenceFrequency where
  | daily | weekly | monthly | yearly
  deriving DecidableEq, Repr

/-- A rule as the service reads it. -/
structure RecurrenceRule where
  frequency : RecurrenceFrequency := .daily
  interval : ℤ := 1
  monthDay : Option ℤ := none
  deriving DecidableEq, Repr

namespace Recurrence

/-- The longest interval. -/
def kMaxInterval : ℤ := 999

/-- The last day of a month. -/
def kMaxMonthDay : ℤ := 31

/-- A local date and time. -/
structure WallClock where
  date : Date
  hour : ℤ := 0
  minute : ℤ := 0
  second : ℤ := 0
  deriving DecidableEq, Repr

/-! ### Dates -/

/-- The number of a date, counted in eras of 400 years. -/
def dayNumberOf (date : Date) : ℤ :=
  let year := date.year - if date.month ≤ 2 then 1 else 0
  let era := (if year ≥ 0 then year else year - 399).tdiv 400
  let yearOfEra := year - era * 400
  let month := date.month
  let dayOfYear := (153 * (month + if month > 2 then -3 else 9) + 2).tdiv 5 + date.day - 1
  let dayOfEra := yearOfEra * 365 + yearOfEra.tdiv 4 - yearOfEra.tdiv 100 + dayOfYear
  era * 146097 + dayOfEra - 719468

/-- The date of a number. -/
def civilFromDays (days : ℤ) : Date :=
  let days := days + 719468
  let era := (if days ≥ 0 then days else days - 146096).tdiv 146097
  let dayOfEra := days - era * 146097
  let yearOfEra := (dayOfEra - dayOfEra.tdiv 1460 + dayOfEra.tdiv 36524 -
    dayOfEra.tdiv 146096).tdiv 365
  let dayOfYear := dayOfEra - (365 * yearOfEra + yearOfEra.tdiv 4 - yearOfEra.tdiv 100)
  let monthIndex := (5 * dayOfYear + 2).tdiv 153
  let day := dayOfYear - (153 * monthIndex + 2).tdiv 5 + 1
  let month := if monthIndex < 10 then monthIndex + 3 else monthIndex - 9
  let year := yearOfEra + era * 400 + if month ≤ 2 then 1 else 0
  { year, month, day }

/-- The length of a month. -/
def daysInMonth (date : Date) : ℤ :=
  let days : List ℤ := [31, 28, 31, 30, 31, 30, 31, 31, 30, 31, 30, 31]
  let leap := date.year.tmod 4 = 0 ∧ date.year.tmod 100 ≠ 0 ∨ date.year.tmod 400 = 0
  if date.month = 2 ∧ leap then 29 else days.getD (date.month - 1).toNat 0

/-- The local date and time of a moment. -/
def wallOf (zone epoch : ℤ) : WallClock :=
  let tm := localtime zone epoch
  { date := { year := tm.tm_year + 1900, month := tm.tm_mon + 1, day := tm.tm_mday }
    hour := tm.tm_hour, minute := tm.tm_min, second := tm.tm_sec }

/-- The moment of a local date and time; `mktime` says -1 when it fails. -/
def epochOf (zone : ℤ) (wall : WallClock) : Option ℤ :=
  let moment := mktime zone
    { tm_year := wall.date.year - 1900, tm_mon := wall.date.month - 1, tm_mday := wall.date.day
      tm_hour := wall.hour, tm_min := wall.minute, tm_sec := wall.second }
  -- `mktime` says `-1` when it fails, and so it is taken when it is a moment.
  if moment = -1 then none else some moment

/-! ### Rules -/

/-- The frequency of a text. -/
def frequencyOf (value : Bytes) : Option RecurrenceFrequency :=
  if value = ascii "DAILY" then some .daily
  else if value = ascii "WEEKLY" then some .weekly
  else if value = ascii "MONTHLY" then some .monthly
  else if value = ascii "YEARLY" then some .yearly
  else none

/-- The number of a text, within bounds. -/
def boundedOf (value : Bytes) (lowest highest : ℤ) : Option ℤ :=
  match fromChars 10 (-2147483648) 2147483647 value with
  | some (parsed, []) => if parsed < lowest ∨ highest < parsed then none else some parsed
  | _ => none

/-- What was read so far. -/
structure Reading where
  rule : RecurrenceRule := {}
  frequencySeen : Bool := false
  intervalSeen : Bool := false

/-- An entry of a rule; each may come once. -/
def readEntry (s : Reading) (key value : Bytes) : Option Reading :=
  if key = ascii "FREQ" ∧ !s.frequencySeen then
    (frequencyOf value).map fun frequency =>
      { s with rule := { s.rule with frequency }, frequencySeen := true }
  else if key = ascii "INTERVAL" ∧ !s.intervalSeen then
    (boundedOf value 1 kMaxInterval).map fun interval =>
      { s with rule := { s.rule with interval }, intervalSeen := true }
  else if key = ascii "BYMONTHDAY" ∧ s.rule.monthDay = none then
    (boundedOf value 1 kMaxMonthDay).map fun monthDay =>
      { s with rule := { s.rule with monthDay := some monthDay } }
  else none

/-- `;` -/
def kSep : UInt8 := 0x3b

/-- `=` -/
def kEq : UInt8 := 0x3d

/-- `parseRecurrenceRule` -/
def parseRecurrenceRule (text : Bytes) : Option RecurrenceRule :=
  if text = [] ∨ text.getLast? = some kSep then none
  else
    (Entries.read kSep kEq readEntry {} text).bind fun s =>
      if !s.frequencySeen then none
      else if s.rule.monthDay ≠ none ∧ s.rule.frequency ≠ .monthly then none
      else some s.rule

/-! ### Occurrences -/

/-- The occurrence of an index, counted from the anchor on. -/
def occurrenceAt (zone : ℤ) (rule : RecurrenceRule) (anchor index : ℤ) : Option ℤ :=
  let start := wallOf zone anchor
  let steps := index * rule.interval
  let date :=
    match rule.frequency with
    | .daily => civilFromDays (dayNumberOf start.date + steps)
    | .weekly => civilFromDays (dayNumberOf start.date + 7 * steps)
    | .monthly =>
      let day := rule.monthDay.getD start.date.day
      let lateStart := if min day (daysInMonth start.date) < start.date.day then 1 else 0
      let monthIndex := start.date.year * 12 + (start.date.month - 1) + lateStart + steps
      let date : Date := { start.date with
        year := monthIndex.tdiv 12, month := monthIndex.tmod 12 + 1 }
      { date with day := min day (daysInMonth date) }
    | .yearly =>
      let date := { start.date with year := start.date.year + steps }
      { date with day := min start.date.day (daysInMonth date) }
  epochOf zone { start with date }

/-- The moments of a rule, from the first. -/
def series (zone : ℤ) (rule : RecurrenceRule) (anchor : ℤ) : Set ℤ :=
  {t | ∃ index : ℕ, occurrenceAt zone rule anchor index = some t}

section Dates

variable {date : Date} {n : ℤ}

lemma tdiv_floor {k : ℤ} (hk : 0 < k) : (if n ≥ 0 then n else n - (k - 1)).tdiv k = n / k := by
  split_ifs with h
  · exact Int.tdiv_eq_ediv_of_nonneg h
  · have hneg : (n - (k - 1)).tdiv k = -((k - 1 - n) / k) := by
      rw [show n - (k - 1) = -(k - 1 - n) by ring, Int.neg_tdiv,
        Int.tdiv_eq_ediv_of_nonneg (by omega)]
    rw [hneg, neg_eq_iff_eq_neg]
    refine Int.ediv_eq_iff_of_pos hk |>.mpr ?_
    have hlo := Int.mul_ediv_add_emod n k
    have hmod := Int.emod_nonneg n hk.ne'
    have hlt := Int.emod_lt_of_pos n hk
    constructor <;> nlinarith

/-- The year that starts with March, by its place among four hundred. -/
lemma yearOfEra_eq {y k : ℤ} (hy : 0 ≤ y ∧ y ≤ 399)
    (hk : 0 ≤ k ∧ k ≤ 364 + leapDays (y + 1)) {d : ℤ} (hd : d = 365 * y + y / 4 - y / 100 + k) :
    (0 ≤ d ∧ d ≤ 146096) ∧ (d - d / 1460 + d / 36524 - d / 146096) / 365 = y := by
  obtain ⟨c, q, r, hc, hq, hr, rfl⟩ : ∃ c q r : ℤ, (0 ≤ c ∧ c ≤ 3) ∧ (0 ≤ q ∧ q ≤ 24) ∧
      (0 ≤ r ∧ r ≤ 3) ∧ y = 100 * c + 4 * q + r :=
    ⟨y / 100, y % 100 / 4, y % 4, by omega, by omega, by omega, by omega⟩
  -- The leap day is the last day of the fourth year, and not of the last one of a century.
  have hlast : k ≤ 364 ∨ k = 365 ∧ r = 3 ∧ (q ≤ 23 ∨ c = 3) := by
    unfold leapDays IsLeap at hk
    split_ifs at hk with hleap
    · refine or_iff_not_imp_left.mpr fun h => ?_
      omega
    · omega
  have hd' : d = 36524 * c + 1461 * q + (365 * r + k) := by omega
  obtain ⟨hk₀, -⟩ := hk
  clear hd hy
  obtain ⟨hc₀, hc₃⟩ := hc
  obtain ⟨hr₀, hr₃⟩ := hr
  obtain ⟨u, hu⟩ : ∃ u, u = 365 * r + k := ⟨_, rfl⟩
  have hu₀ : 0 ≤ u ∧ u ≤ 1460 ∧ (u = 1460 → q ≤ 23 ∨ c = 3) := by omega
  have hyear : (u - (24 * c + q + u) / 1460) / 365 = r := by
    have hr : 365 * r ≤ u ∧ (u ≤ 365 * r + 364 ∨ u = 1460 ∧ r = 3) := by omega
    have hone : (24 * c + q + u) / 1460 = if 1460 ≤ 24 * c + q + u then 1 else 0 := by
      split_ifs <;> omega
    clear hu hlast hd'
    rw [hone]
    split_ifs <;> omega
  clear hk₀ hlast
  subst hd'
  rw [← hu]
  refine ⟨by omega, ?_⟩
  have hcentury : (36524 * c + 1461 * q + u) / 36524 -
      (36524 * c + 1461 * q + u) / 146096 = c := by
    interval_cases c <;> omega
  have hdays : (36524 * c + 1461 * q + u) / 1460 = 25 * c + q + (24 * c + q + u) / 1460 := by
    omega
  omega

/-- A day of the year that starts with March is in its month. -/
lemma monthIndex_eq {i d : ℤ} (hi : 0 ≤ i ∧ i ≤ 11)
    (hd : 1 ≤ d ∧ d ≤ (153 * (i + 1) + 2) / 5 - (153 * i + 2) / 5) :
    (5 * ((153 * i + 2) / 5 + d - 1) + 2) / 153 = i := by
  obtain ⟨h₀, h₁₁⟩ := hi
  interval_cases i <;> omega

/-- The day of a date, counted in years that start with March. -/
lemma dayNumber_march {y m d Y i : ℤ} (hm : 1 ≤ m ∧ m ≤ 12) (hY : Y = y - if m ≤ 2 then 1 else 0)
    (hi : i = m + if m > 2 then -3 else 9) :
    dayNumber ⟨y, m, d⟩ + 719468 = 146097 * (Y / 400) +
      (365 * (Y % 400) + Y % 400 / 4 - Y % 400 / 100 + ((153 * i + 2) / 5 + d - 1)) := by
  have hstart := yearStart_succ y
  have hyear : 146097 * (Y / 400) + (365 * (Y % 400) + Y % 400 / 4 - Y % 400 / 100) =
      yearStart (Y + 1) + 719162 := by
    unfold yearStart
    rw [add_sub_cancel_right]
    omega
  have hmonth : yearStart (Y + 1) + (153 * i + 2) / 5 - 306 = yearStart y + monthStart y m := by
    by_cases h : m ≤ 2
    · rw [if_pos h] at hY
      rw [if_neg (by omega)] at hi
      rw [show Y + 1 = y by omega, monthStart, if_pos h]
      omega
    · rw [if_neg h] at hY
      rw [if_pos (by omega)] at hi
      rw [show Y = y by omega, monthStart, if_neg h, hstart]
      obtain ⟨h₁, h₂⟩ := hm
      interval_cases m <;> omega
  unfold dayNumber
  dsimp only
  omega

theorem dayNumberOf_eq (hm : 1 ≤ date.month ∧ date.month ≤ 12) :
    dayNumberOf date = dayNumber date := by
  obtain ⟨y, m, d⟩ := date
  dsimp only at hm
  have hmarch := dayNumber_march (y := y) (d := d) hm rfl rfl
  have hfloor (n : ℤ) : (if n ≥ 0 then n else n - 399).tdiv 400 = n / 400 :=
    tdiv_floor (show (0 : ℤ) < 400 by norm_num)
  have hpos : 0 ≤ 153 * (m + if m > 2 then -3 else 9) + 2 := by
    split_ifs <;> omega
  unfold dayNumberOf
  dsimp only
  rw [hfloor]
  generalize y - (if m ≤ 2 then 1 else 0) = Y at hmarch ⊢
  have hera : Y - Y / 400 * 400 = Y % 400 := by omega
  rw [hera, Int.tdiv_eq_ediv_of_nonneg (Int.emod_nonneg Y (by norm_num)),
    Int.tdiv_eq_ediv_of_nonneg (Int.emod_nonneg Y (by norm_num)),
    Int.tdiv_eq_ediv_of_nonneg hpos]
  omega

/-- The last day of the year that starts with March is the one that a leap year has. -/
lemma march_bounds {y m d i : ℤ} (h : Date.Civil ⟨y, m, d⟩) (hi : i = m + if m > 2 then -3 else 9) :
    (0 ≤ i ∧ i ≤ 11) ∧ (1 ≤ d ∧ d ≤ (153 * (i + 1) + 2) / 5 - (153 * i + 2) / 5) ∧
      (153 * i + 2) / 5 + d - 1 ≤ 364 + if m ≤ 2 then leapDays y else 0 := by
  obtain ⟨hm, hd⟩ := h
  dsimp only at hm hd
  have hleap := leapDays_eq y
  obtain ⟨h₁, h₂⟩ := hm
  unfold monthLength at hd
  interval_cases m <;> norm_num at hd hi ⊢ <;> subst hi <;> omega

theorem civilFromDays_dayNumber (h : date.Civil) : civilFromDays (dayNumber date) = date := by
  obtain ⟨y, m, d⟩ := date
  have hm := h.month
  dsimp only at hm
  obtain ⟨i, hi⟩ : ∃ i, i = m + if m > 2 then -3 else 9 := ⟨_, rfl⟩
  obtain ⟨Y, hY⟩ : ∃ Y, Y = y - if m ≤ 2 then 1 else 0 := ⟨_, rfl⟩
  obtain ⟨hi₁₁, hd, hlast⟩ := march_bounds h hi
  have hmarch := dayNumber_march (d := d) hm hY hi
  -- The year begins with March, so that the day a leap year has more is its last.
  have hk : 0 ≤ (153 * i + 2) / 5 + d - 1 ∧
      (153 * i + 2) / 5 + d - 1 ≤ 364 + leapDays (Y % 400 + 1) := by
    refine ⟨by omega, hlast.trans ?_⟩
    split_ifs at hY ⊢ with hfirst
    · have hleap : IsLeap (Y % 400 + 1) ↔ IsLeap y := by
        unfold IsLeap
        rw [show (Y % 400 + 1) % 4 = y % 4 by omega, show (Y % 400 + 1) % 100 = y % 100 by omega,
          show (Y % 400 + 1) % 400 = y % 400 by omega]
      exact (congrArg (364 + ·) (if_congr hleap rfl rfl)).ge
    · have := leapDays_eq (Y % 400 + 1)
      omega
  have hfloor (n : ℤ) : (if n ≥ 0 then n else n - 146096).tdiv 146097 = n / 146097 :=
    tdiv_floor (show (0 : ℤ) < 146097 by norm_num)
  have hyears : 0 ≤ Y % 400 ∧ Y % 400 ≤ 399 := by omega
  -- What is left is arithmetic of the day `D` of its four hundred years.
  generalize hD : 365 * (Y % 400) + Y % 400 / 4 - Y % 400 / 100 + ((153 * i + 2) / 5 + d - 1) = D
    at hmarch
  obtain ⟨hDbounds, hDyear⟩ := yearOfEra_eq hyears hk hD.symm
  unfold civilFromDays
  dsimp only
  rw [hfloor, hmarch, show (146097 * (Y / 400) + D) / 146097 = Y / 400 by omega,
    show 146097 * (Y / 400) + D - Y / 400 * 146097 = D by omega,
    Int.tdiv_eq_ediv_of_nonneg hDbounds.1, Int.tdiv_eq_ediv_of_nonneg hDbounds.1,
    Int.tdiv_eq_ediv_of_nonneg hDbounds.1,
    Int.tdiv_eq_ediv_of_nonneg (show 0 ≤ D - D / 1460 + D / 36524 - D / 146096 by omega), hDyear,
    Int.tdiv_eq_ediv_of_nonneg hyears.1, Int.tdiv_eq_ediv_of_nonneg hyears.1,
    show D - (365 * (Y % 400) + Y % 400 / 4 - Y % 400 / 100) = (153 * i + 2) / 5 + d - 1 by omega,
    Int.tdiv_eq_ediv_of_nonneg (show 0 ≤ 5 * ((153 * i + 2) / 5 + d - 1) + 2 by omega),
    monthIndex_eq hi₁₁ hd, Int.tdiv_eq_ediv_of_nonneg (show 0 ≤ 153 * i + 2 by omega)]
  have hmonth : (if i < 10 then i + 3 else i - 9) = m := by
    split_ifs at hi ⊢ <;> omega
  rw [hmonth, Date.mk.injEq]
  refine ⟨?_, rfl, by omega⟩
  omega

theorem civilFromDays_eq (n : ℤ) : civilFromDays n = dateOf n := by
  rw [← civilFromDays_dayNumber (civil_dateOf n), dayNumber_dateOf]

end Dates

section Weekly

variable {zone anchor index : ℤ} {rule : RecurrenceRule}

/-- The moment of a day, at the time of day of another moment. -/
lemma epochOf_wallOf (n : ℤ) : epochOf zone { wallOf zone anchor with date := dateOf n } =
    if 86400 * n + (anchor + zone) % 86400 - zone = -1 then none
    else some (86400 * n + (anchor + zone) % 86400 - zone) := by
  have hmoment : mktime zone
      { tm_year := (dateOf n).year - 1900, tm_mon := (dateOf n).month - 1
        tm_mday := (dateOf n).day, tm_hour := (wallOf zone anchor).hour
        tm_min := (wallOf zone anchor).minute, tm_sec := (wallOf zone anchor).second } =
        86400 * n + (anchor + zone) % 86400 - zone := by
    unfold mktime timegm
    rw [dayNumber_tm (civil_dateOf n).month rfl rfl rfl, dayNumber_dateOf]
    unfold wallOf localtime
    dsimp only
    omega
  unfold epochOf
  dsimp only
  rw [hmoment]

theorem occurrenceAt_weekly (h : rule.frequency = .weekly) :
    occurrenceAt zone rule anchor index =
      if anchor + 604800 * (index * rule.interval) = -1 then none
      else some (anchor + 604800 * (index * rule.interval)) := by
  have hdate : (wallOf zone anchor).date = dateOf ((anchor + zone) / 86400) := by
    unfold wallOf localtime
    dsimp only
    simp only [sub_add_cancel]
  have hday : dayNumberOf (wallOf zone anchor).date = (anchor + zone) / 86400 := by
    rw [hdate, dayNumberOf_eq (civil_dateOf _).month, dayNumber_dateOf]
  have hmoment : 86400 * ((anchor + zone) / 86400 + 7 * (index * rule.interval)) +
      (anchor + zone) % 86400 - zone = anchor + 604800 * (index * rule.interval) := by
    generalize index * rule.interval = steps
    omega
  unfold occurrenceAt
  rw [h]
  dsimp only
  rw [hday, civilFromDays_eq, epochOf_wallOf, hmoment]

end Weekly

end Recurrence

end Productivity

end ArgusBackend
