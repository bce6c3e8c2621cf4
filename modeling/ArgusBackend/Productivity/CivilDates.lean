import ArgusBackend.Productivity.Recurrence
import Mathlib.Data.Prod.Lex

/-!
# Dates of `int`s

The members of a `CivilDate` are `int`s, while the days are counted with 64 bits.

* `toCivilDate` : the date as `civilFromDays` returns it;
* `dayNumber?` : `dayNumberOf`, where the one expression that is computed as an `int` may overflow;
* `dates_inverse` : the two are inverse and follow the order of dates, but for the first two months
  of the first year.
-/

namespace ArgusBackend

namespace Productivity

namespace Recurrence

open Calendar

/-- The number is an `int`. -/
def FitsInt (n : ℤ) : Prop := -2147483648 ≤ n ∧ n ≤ 2147483647

instance (n : ℤ) : Decidable (FitsInt n) := inferInstanceAs (Decidable (_ ∧ _))

/-- `static_cast<int>` -/
def toInt (n : ℤ) : ℤ := n.bmod 4294967296

/-- What `civilFromDays` returns. -/
def toCivilDate (days : ℤ) : Date :=
  let date := civilFromDays days
  { year := toInt date.year, month := toInt date.month, day := toInt date.day }

/-- What `dayNumberOf` returns.  The year that begins with March is the difference of two `int`s,
and an overflow is undefined. -/
def dayNumber? (date : Date) : Option ℤ :=
  if FitsInt (date.year - if date.month ≤ 2 then 1 else 0) then some (dayNumberOf date) else none

/-- A date of the calendar, in a year that is an `int`. -/
structure Valid (date : Date) : Prop where
  year : FitsInt date.year
  month : 1 ≤ date.month ∧ date.month ≤ 12
  day : 1 ≤ date.day ∧ date.day ≤ daysInMonth date

/-- The year that begins with March is before the first one. -/
def TooEarly (date : Date) : Prop := date.year = -2147483648 ∧ date.month ≤ 2

instance (date : Date) : Decidable (TooEarly date) := inferInstanceAs (Decidable (_ ∧ _))

/-- The order of dates, by year, month and day. -/
def lexKey (date : Date) : ℤ ×ₗ ℤ ×ₗ ℤ := toLex (date.year, toLex (date.month, date.day))

variable {date date' : Date} {n : ℤ}

lemma toInt_eq (h : FitsInt n) : toInt n = n :=
  Int.bmod_eq_of_le (by have := h.1; omega) (by have := h.2; omega)

theorem daysInMonth_eq (hm : 1 ≤ date.month ∧ date.month ≤ 12) :
    daysInMonth date = monthLength date.year date.month := by
  obtain ⟨y, m, d⟩ := date
  have hleap : (y.tmod 4 = 0 ∧ y.tmod 100 ≠ 0 ∨ y.tmod 400 = 0) ↔ IsLeap y := by
    unfold IsLeap
    rw [ne_eq, ← Int.dvd_iff_tmod_eq_zero, ← Int.dvd_iff_tmod_eq_zero, ← Int.dvd_iff_tmod_eq_zero]
    omega
  obtain ⟨h₁, h₂⟩ := hm
  unfold daysInMonth monthLength leapDays
  dsimp only at h₁ h₂ ⊢
  rw [if_congr (and_congr_right' hleap) rfl rfl]
  by_cases h : IsLeap y <;> interval_cases m <;> simp [h]

lemma valid_iff : Valid date ↔ date.Civil ∧ FitsInt date.year := by
  constructor
  · rintro ⟨hyear, hmonth, hday⟩
    exact ⟨⟨hmonth, daysInMonth_eq hmonth ▸ hday⟩, hyear⟩
  · rintro ⟨⟨hmonth, hday⟩, hyear⟩
    exact ⟨hyear, hmonth, (daysInMonth_eq hmonth).symm ▸ hday⟩

/-- The casts change nothing. -/
lemma toCivilDate_eq (hyear : FitsInt (dateOf n).year) : toCivilDate n = dateOf n := by
  obtain ⟨hmonth, hday⟩ := civil_dateOf n
  have hlength := monthLength_bounds (dateOf n).year (dateOf n).month
  unfold toCivilDate
  rw [civilFromDays_eq]
  dsimp only
  rw [toInt_eq hyear, toInt_eq (by unfold FitsInt; omega), toInt_eq (by unfold FitsInt; omega)]

lemma dayNumber?_eq (h : Valid date) :
    dayNumber? date = if TooEarly date then none else some (dayNumber date) := by
  have hfits : FitsInt (date.year - if date.month ≤ 2 then 1 else 0) ↔ ¬TooEarly date := by
    obtain ⟨hlo, hhi⟩ := h.year
    unfold FitsInt TooEarly
    split_ifs <;> omega
  unfold dayNumber?
  rw [if_congr hfits rfl rfl, ite_not, dayNumberOf_eq h.month]

/-- **Days and dates are inverse, in the order of dates**, for all dates but those whose year,
counted from March, is before the first one. -/
theorem dates_inverse (d : ℤ) (date date' : Date) :
    (FitsInt (dateOf d).year → Valid (toCivilDate d) ∧
      (dayNumber? (toCivilDate d) = some d ↔ ¬TooEarly (dateOf d))) ∧
    (Valid date → ((dayNumber? date).map toCivilDate = some date ↔ ¬TooEarly date)) ∧
    (Valid date → Valid date' → lexKey date < lexKey date' →
      ((∃ n n', dayNumber? date = some n ∧ dayNumber? date' = some n' ∧ n < n') ↔
        ¬TooEarly date)) := by
  refine ⟨?_, ?_, ?_⟩
  · intro hyear
    have h : Valid (dateOf d) := valid_iff.2 ⟨civil_dateOf d, hyear⟩
    rw [toCivilDate_eq hyear, dayNumber?_eq h, dayNumber_dateOf]
    refine ⟨h, ?_⟩
    split_ifs with hearly <;> simp [hearly]
  · intro h
    obtain ⟨hcivil, hyear⟩ := valid_iff.1 h
    rw [← dateOf_dayNumber hcivil] at hyear
    rw [dayNumber?_eq h]
    split_ifs with hearly
    · simp [hearly]
    · simp [hearly, toCivilDate_eq hyear, dateOf_dayNumber hcivil]
  · intro h h' hlt
    unfold lexKey at hlt
    rw [Prod.Lex.toLex_lt_toLex, Prod.Lex.toLex_lt_toLex] at hlt
    dsimp only at hlt
    by_cases hearly : TooEarly date
    · simp [dayNumber?_eq h, hearly]
    · -- A later date is not too early either.
      have hearly' : ¬TooEarly date' := by
        obtain ⟨hlo, -⟩ := h.year
        unfold TooEarly at hearly ⊢
        omega
      have hday := dayNumber_lt_of_date (valid_iff.1 h).1 (valid_iff.1 h').1 hlt
      rw [dayNumber?_eq h, dayNumber?_eq h', if_neg hearly, if_neg hearly']
      exact iff_of_true ⟨_, _, rfl, rfl, hday⟩ hearly

/-- The first day of the first year. -/
theorem first_day_undefined :
    ¬∀ d, FitsInt (dateOf d).year → dayNumber? (toCivilDate d) = some d := by
  intro hinverse
  have h : Valid ⟨-2147483648, 1, 1⟩ := ⟨by decide, by decide, by decide⟩
  have hdate := dateOf_dayNumber (valid_iff.1 h).1
  have hyear : FitsInt (dateOf (dayNumber ⟨-2147483648, 1, 1⟩)).year := hdate.symm ▸ h.year
  have hday := hinverse _ hyear
  rw [toCivilDate_eq hyear, hdate] at hday
  exact absurd hday (by decide)

end Recurrence

end Productivity

end ArgusBackend
