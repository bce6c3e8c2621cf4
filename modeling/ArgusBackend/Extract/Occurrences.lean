import ArgusBackend.Extract.RepeatText
import ArgusBackend.Productivity.Recurrence

/-!
# The first reminders of a repeat

* `firstOccurrences` : the moments at which the reminders of a repeat are set;
* `Repeat.kinds`, `due` : the days each of them is about;
* `series_exact` : the first moments are right, and from them on the productivity service reminds at
  the moments of the repeat.
-/

namespace ArgusBackend

namespace Extract

open Calendar

namespace RepeatRule

/-- The days of a week. -/
def kWeekDays : ℕ := 7

/-- The minutes of an hour. -/
def kMinutesInHour : ℤ := 60

/-- The hour of noon. -/
def kNoon : ℤ := 12

/-- The months of a year. -/
def kMonthsInYear : ℤ := 12

/-- How many months ahead a day of the month is looked for. -/
def kMonthsAhead : ℕ := 24

/-- The date of a moment. -/
def civilOf (zone epoch : ℤ) : Date :=
  let tm := localtime zone epoch
  { year := tm.tm_year + 1900, month := tm.tm_mon + 1, day := tm.tm_mday }

/-- Noon of the day some days after a date. -/
def noonOf (zone : ℤ) (civil : Date) (days : ℤ) : Tm :=
  localtime zone <| mktime zone
    { tm_year := civil.year - 1900, tm_mon := civil.month - 1, tm_mday := civil.day + days
      tm_hour := kNoon }

/-- The date some days after another. -/
def shifted (zone : ℤ) (civil : Date) (days : ℤ) : Date :=
  let tm := noonOf zone civil days
  { year := tm.tm_year + 1900, month := tm.tm_mon + 1, day := tm.tm_mday }

/-- The moment of a minute of a date. -/
def instantOf (zone : ℤ) (civil : Date) (minuteOfDay : ℤ) : ℤ :=
  mktime zone
    { tm_year := civil.year - 1900, tm_mon := civil.month - 1, tm_mday := civil.day
      tm_hour := minuteOfDay.tdiv kMinutesInHour, tm_min := minuteOfDay.tmod kMinutesInHour }

/-- The length of a month. -/
def daysIn (civil : Date) : ℤ :=
  let kDays : List ℤ := [31, 28, 31, 30, 31, 30, 31, 31, 30, 31, 30, 31]
  let leap := civil.year.tmod 4 = 0 ∧ civil.year.tmod 100 ≠ 0 ∨ civil.year.tmod 400 = 0
  kDays.getD (civil.month - 1).toNat 0 + if civil.month = 2 ∧ leap then 1 else 0

/-- On any weekday when `weekday` is negative. -/
def nextAt (zone : ℤ) (today : Date) (weekday minuteOfDay now : ℤ) : Option ℤ :=
  (List.range (kWeekDays + 1)).findSome? fun (ahead : ℕ) =>
    let noon := noonOf zone today ahead
    if weekday ≥ 0 ∧ noon.tm_wday ≠ weekday then none
    else
      let instant := instantOf zone (shifted zone today ahead) minuteOfDay
      if instant > now then some instant else none

/-- The loop over the months, for a day of the month. -/
def nextMonthDay (zone : ℤ) (today : Date) (monthDay minuteOfDay now : ℤ) : Option ℤ :=
  (List.range (kMonthsAhead + 1)).findSome? fun (step : ℕ) =>
    let index := today.month - 1 + step
    let civil : Date :=
      { year := today.year + index.tdiv kMonthsInYear
        month := index.tmod kMonthsInYear + 1, day := monthDay }
    if civil.day > daysIn civil then none
    else
      let instant := instantOf zone civil minuteOfDay
      if instant > now then some instant else none

/-- `firstOccurrences`: one moment for each weekday, or one. -/
def firstOccurrences (zone : ℤ) (r : Repeat) (minuteOfDay now : ℤ) : List ℤ :=
  let today := civilOf zone now
  if r.frequency = .weekly ∧ r.weekdays ≠ [] then
    (r.weekdays.filterMap fun (weekday : ℕ) => nextAt zone today weekday minuteOfDay now).mergeSort
  else if r.frequency = .monthly ∧ r.monthDay > 0 then
    (nextMonthDay zone today r.monthDay minuteOfDay now).toList
  else (nextAt zone today (-1) minuteOfDay now).toList

/-- The day of a moment. -/
def dayOf (zone t : ℤ) : ℤ := (t + zone) / 86400

/-- The moment is on a minute of a day. -/
def AtMinute (zone minuteOfDay t : ℤ) : Prop := (t + zone) % 86400 = 60 * minuteOfDay

/-- The moments still to come at a minute of the days of a kind. -/
def due (zone minuteOfDay now : ℤ) (kind : ℤ → Prop) : Set ℤ :=
  {t | now < t ∧ AtMinute zone minuteOfDay t ∧ kind (dayOf zone t)}

end RepeatRule

/-- The days that each of its reminders is about. -/
def Repeat.kinds (r : Repeat) : List (ℤ → Prop) :=
  if r.frequency = .weekly ∧ r.weekdays ≠ [] then
    r.weekdays.map fun (weekday : ℕ) n => Calendar.weekday n = weekday
  else if r.frequency = .monthly ∧ 0 < r.monthDay then
    [fun n => (Calendar.dateOf n).day = r.monthDay]
  else [fun _ => True]

/-- The same frequency at the productivity service. -/
def RepeatFrequency.productivity : RepeatFrequency → Productivity.RecurrenceFrequency
  | .daily => .daily
  | .weekly => .weekly
  | .monthly => .monthly
  | .yearly => .yearly

namespace RepeatRule

/-! ### The first moments -/

section First

variable {zone minuteOfDay now t n : ℤ} {kind : ℤ → Prop}

/-- The moment of a day. -/
def momentOf (zone minuteOfDay n : ℤ) : ℤ := 86400 * n + 60 * minuteOfDay - zone

lemma civilOf_eq (zone epoch : ℤ) : civilOf zone epoch = dateOf (dayOf zone epoch) := by
  unfold civilOf localtime dayOf
  dsimp only
  simp only [sub_add_cancel]

lemma instantOf_eq (hminute : 0 ≤ minuteOfDay) {civil : Date}
    (hm : 1 ≤ civil.month ∧ civil.month ≤ 12) :
    instantOf zone civil minuteOfDay = momentOf zone minuteOfDay (dayNumber civil) := by
  unfold instantOf mktime timegm momentOf kMinutesInHour
  rw [dayNumber_tm hm rfl rfl rfl]
  dsimp only
  rw [Int.tdiv_eq_ediv_of_nonneg hminute, Int.tmod_eq_emod_of_nonneg hminute]
  omega

/-- Noon of a day is on that day. -/
lemma noonOf_eq (zone n k : ℤ) :
    shifted zone (dateOf n) k = dateOf (n + k) ∧
      (noonOf zone (dateOf n) k).tm_wday = weekday (n + k) := by
  have hnoon : mktime zone
      { tm_year := (dateOf n).year - 1900, tm_mon := (dateOf n).month - 1
        tm_mday := (dateOf n).day + k, tm_hour := kNoon } + zone = 86400 * (n + k) + 43200 := by
    obtain ⟨h₁, h₂⟩ := (civil_dateOf n).month
    unfold mktime timegm Tm.dayNumber kNoon
    dsimp only
    rw [show (dateOf n).year - 1900 + 1900 + ((dateOf n).month - 1) / 12 = (dateOf n).year by omega,
      show ((dateOf n).month - 1) % 12 + 1 = (dateOf n).month by omega, dayNumber_add,
      show dayNumber ⟨(dateOf n).year, (dateOf n).month, (dateOf n).day⟩ = n from
        dayNumber_dateOf n]
    omega
  unfold shifted noonOf localtime
  rw [hnoon, show (86400 * (n + k) + 43200) / 86400 = n + k by omega]
  dsimp only
  simp only [sub_add_cancel, and_self]

lemma atMinute_iff :
    AtMinute zone minuteOfDay t ↔ t = momentOf zone minuteOfDay (dayOf zone t) := by
  unfold AtMinute momentOf dayOf
  omega

lemma dayOf_momentOf (hminute : 0 ≤ minuteOfDay ∧ minuteOfDay ≤ 1439) :
    dayOf zone (momentOf zone minuteOfDay n) = n := by
  unfold momentOf dayOf
  omega

/-- What is still to come is of today or of a later day, and every later day is still to come. -/
lemma today_spec (hminute : 0 ≤ minuteOfDay ∧ minuteOfDay ≤ 1439) :
    (now < momentOf zone minuteOfDay n → dayOf zone now ≤ n) ∧
      (dayOf zone now < n → now < momentOf zone minuteOfDay n) := by
  unfold momentOf dayOf
  omega

/-- A search goes up through the moments of a kind, and no such moment is left out. -/
lemma search_least {k : ℕ} {f : ℕ → Option ℤ} {S : Set ℤ}
    (hsound : ∀ i < k, ∀ t, f i = some t → t ∈ S)
    (hcover : ∀ t ∈ S, ∀ i < k, ∀ u, f i = some u → (∀ j < i, f j = none) → u ≤ t)
    (hfound : ∃ i < k, ∃ t, f i = some t) :
    ∃ t, (List.range k).findSome? f = some t ∧ IsLeast S t := by
  obtain ⟨t, ht⟩ : ∃ t, (List.range k).findSome? f = some t := by
    obtain ⟨i, hi, t, hf⟩ := hfound
    refine Option.isSome_iff_exists.mp (List.findSome?_isSome_iff.mpr ?_)
    exact ⟨i, List.mem_range.mpr hi, Option.isSome_iff_exists.mpr ⟨t, hf⟩⟩
  refine ⟨t, ht, ?_⟩
  obtain ⟨before, i, after, hrange, hf, hbefore⟩ := List.findSome?_eq_some_iff.mp ht
  have hlength : i = before.length := by
    have hget : (List.range k)[before.length]? = some i := by simp [hrange]
    obtain ⟨_, heq⟩ := List.getElem?_eq_some_iff.mp hget
    rw [← heq, List.getElem_range]
  have hi : i < k := List.mem_range.mp (hrange ▸ by simp)
  refine ⟨hsound i hi t hf, fun u hu => hcover u hu i hi t hf fun j hj => hbefore j ?_⟩
  have htake : before = List.range i := by
    have h : (List.range k).take i = before := by rw [hrange, hlength, List.take_left]
    rw [← h, List.take_range, Nat.min_eq_left hi.le]
  rw [htake]
  exact List.mem_range.mpr hj

/-- A search takes the moment that it looks at when it is of the kind and still ahead. -/
lemma candidate_eq_some {skip : Prop} [Decidable skip] {instant : ℤ} :
    (if skip then none else if instant > now then some instant else none) = some t ↔
      ¬skip ∧ now < t ∧ t = instant := by
  split_ifs with hskip hlater
  · exact iff_of_false (nomatch ·) fun h => h.1 hskip
  · rw [Option.some.injEq]
    refine ⟨?_, fun h => h.2.2.symm⟩
    rintro rfl
    exact ⟨hskip, hlater, rfl⟩
  · refine iff_of_false (nomatch ·) ?_
    rintro ⟨-, hlt, rfl⟩
    exact hlater hlt

/-- Among eight days there is every weekday, the present one twice. -/
lemma nextAt_spec (hminute : 0 ≤ minuteOfDay ∧ minuteOfDay ≤ 1439) {w : ℤ} (hw : w < 7)
    (hkind : ∀ n, kind n ↔ (0 ≤ w → weekday n = w)) :
    ∃ t, nextAt zone (civilOf zone now) w minuteOfDay now = some t ∧
      IsLeast (due zone minuteOfDay now kind) t := by
  have hbody (k : ℕ) (t : ℤ) : (if w ≥ 0 ∧ (noonOf zone (civilOf zone now) k).tm_wday ≠ w then none
      else if instantOf zone (shifted zone (civilOf zone now) k) minuteOfDay > now then
        some (instantOf zone (shifted zone (civilOf zone now) k) minuteOfDay) else none) = some t ↔
      kind (dayOf zone now + k) ∧ now < t ∧ t = momentOf zone minuteOfDay (dayOf zone now + k) := by
    obtain ⟨hshifted, hweekday⟩ := noonOf_eq zone (dayOf zone now) k
    rw [candidate_eq_some, civilOf_eq, hshifted, hweekday,
      instantOf_eq hminute.1 (civil_dateOf _).month, dayNumber_dateOf, hkind, not_and, not_ne_iff]
  unfold nextAt
  refine search_least (fun k _ t ht => ?_) (fun t ht k _ u hu hbefore => ?_) ?_
  · obtain ⟨hk, hlt, rfl⟩ := (hbody k t).mp ht
    refine ⟨hlt, ?_⟩
    rw [atMinute_iff, dayOf_momentOf hminute]
    exact ⟨rfl, hk⟩
  · obtain ⟨hlt, hat, hk⟩ := ht
    rw [atMinute_iff] at hat
    obtain ⟨hku, hltu, rfl⟩ := (hbody k u).mp hu
    by_contra hlater
    rw [hat] at hlt hlater
    have hday := (today_spec hminute).1 hlt
    obtain ⟨j, hj⟩ := Int.eq_ofNat_of_zero_le (show 0 ≤ dayOf zone t - dayOf zone now by omega)
    obtain hj : dayOf zone t = dayOf zone now + j := by omega
    have hjk : j < k := by
      unfold momentOf at hlater
      omega
    refine absurd ((hbody j _).mpr ⟨hj ▸ hk, hj ▸ hlt, rfl⟩) ?_
    rw [hbefore j hjk]
    exact fun h => nomatch h
  · -- The day of that weekday from tomorrow on.
    obtain ⟨k, hk⟩ := Int.eq_ofNat_of_zero_le
      (Int.emod_nonneg (w - dayOf zone now - 5) (show (7 : ℤ) ≠ 0 by norm_num))
    refine ⟨k + 1, by unfold kWeekDays; omega,
      momentOf zone minuteOfDay (dayOf zone now + (k + 1 : ℕ)),
      (hbody _ _).mpr ⟨(hkind _).mpr fun hpos => ?_, (today_spec hminute).2 (by omega), rfl⟩⟩
    unfold weekday
    omega

lemma daysIn_eq {civil : Date} (hm : 1 ≤ civil.month ∧ civil.month ≤ 12) :
    daysIn civil = monthLength civil.year civil.month := by
  obtain ⟨y, m, d⟩ := civil
  have hleap : (y.tmod 4 = 0 ∧ y.tmod 100 ≠ 0 ∨ y.tmod 400 = 0) ↔ IsLeap y := by
    unfold IsLeap
    rw [ne_eq, ← Int.dvd_iff_tmod_eq_zero, ← Int.dvd_iff_tmod_eq_zero, ← Int.dvd_iff_tmod_eq_zero]
    omega
  obtain ⟨h₁, h₂⟩ := hm
  unfold daysIn monthLength leapDays
  dsimp only at h₁ h₂ ⊢
  rw [if_congr (and_congr_right' hleap) rfl rfl]
  by_cases h : IsLeap y <;> interval_cases m <;> simp [h]

section Months

variable {i : ℤ}

/-- The moments that the search over the months looks at, with the months counted on from the first
one of the year zero. -/
lemma monthCandidate_iff (hminute : 0 ≤ minuteOfDay ∧ minuteOfDay ≤ 1439)
    (hi : i = 12 * (civilOf zone now).year + ((civilOf zone now).month - 1)) (monthDay : ℤ)
    (k : ℕ) (t : ℤ) : (
      let index := (civilOf zone now).month - 1 + k
      let civil : Date :=
        { year := (civilOf zone now).year + index.tdiv kMonthsInYear
          month := index.tmod kMonthsInYear + 1, day := monthDay }
      if civil.day > daysIn civil then none
      else
        let instant := instantOf zone civil minuteOfDay
        if instant > now then some instant else none) = some t ↔
      monthDay ≤ monthLength ((i + k) / 12) ((i + k) % 12 + 1) ∧ now < t ∧
        t = momentOf zone minuteOfDay
          (dayNumber ⟨(i + k) / 12, (i + k) % 12 + 1, monthDay⟩) := by
  have hm : 1 ≤ (civilOf zone now).month ∧ (civilOf zone now).month ≤ 12 := by
    rw [civilOf_eq]
    exact (civil_dateOf _).month
  have hpos : 0 ≤ (civilOf zone now).month - 1 + k := by omega
  dsimp only
  unfold kMonthsInYear
  rw [candidate_eq_some, Int.tdiv_eq_ediv_of_nonneg hpos, Int.tmod_eq_emod_of_nonneg hpos,
    show (civilOf zone now).year + ((civilOf zone now).month - 1 + k) / 12 = (i + k) / 12 by omega,
    show ((civilOf zone now).month - 1 + k) % 12 = (i + k) % 12 by omega,
    daysIn_eq (by dsimp only; omega), instantOf_eq hminute.1 (by dsimp only; omega), gt_iff_lt,
    not_lt]

/-- A day that has not passed is in the present month or in one of those behind it. -/
lemma exists_month (hi : i = 12 * (civilOf zone now).year + ((civilOf zone now).month - 1))
    (hday : dayOf zone now ≤ n) :
    ∃ l : ℕ, (i + l) / 12 = (dateOf n).year ∧ (i + l) % 12 + 1 = (dateOf n).month := by
  obtain ⟨j, hj⟩ : ∃ j, j = 12 * (dateOf n).year + ((dateOf n).month - 1) := ⟨_, rfl⟩
  have hmonth := (civil_dateOf n).month
  obtain ⟨hfirst, -⟩ := month_bounds (civilOf_eq zone now ▸ civil_dateOf (dayOf zone now)) hi
  obtain ⟨-, hend⟩ := month_bounds (civil_dateOf n) hj
  rw [civilOf_eq, dayNumber_dateOf] at hfirst
  rw [dayNumber_dateOf] at hend
  have hij : i ≤ j := by
    by_contra hbefore
    have hle := (dayNumber_month_strictMono 1).monotone (show j + 1 ≤ i by omega)
    omega
  obtain ⟨l, hl⟩ := Int.eq_ofNat_of_zero_le (show 0 ≤ j - i by omega)
  exact ⟨l, by omega, by omega⟩

/-- The search gets as far as the next January. -/
lemma exists_january (hi : i = 12 * (civilOf zone now).year + ((civilOf zone now).month - 1))
    {monthDay : ℤ} (hlo : 1 ≤ monthDay) :
    ∃ k < kMonthsAhead + 1, (i + (k : ℕ)) % 12 + 1 = 1 ∧
      dayOf zone now < dayNumber ⟨(i + k) / 12, (i + k) % 12 + 1, monthDay⟩ := by
  have hcivil := civilOf_eq zone now ▸ civil_dateOf (dayOf zone now)
  have hm := hcivil.month
  obtain ⟨-, hnext⟩ := month_bounds hcivil hi
  rw [civilOf_eq, dayNumber_dateOf] at hnext
  obtain ⟨k, hk⟩ := Int.eq_ofNat_of_zero_le (show 0 ≤ 13 - (civilOf zone now).month by omega)
  have hle := (dayNumber_month_strictMono 1).monotone (show i + 1 ≤ i + k by omega)
  have hadd := dayNumber_add ((i + k) / 12) ((i + k) % 12 + 1) 1 (monthDay - 1)
  rw [add_sub_cancel] at hadd
  exact ⟨k, by unfold kMonthsAhead; omega, by omega, by omega⟩

lemma nextMonthDay_spec (hminute : 0 ≤ minuteOfDay ∧ minuteOfDay ≤ 1439) {monthDay : ℤ}
    (hlo : 1 ≤ monthDay) (hhi : monthDay ≤ kLastMonthDay) :
    ∃ t, nextMonthDay zone (civilOf zone now) monthDay minuteOfDay now = some t ∧
      IsLeast (due zone minuteOfDay now fun n => (dateOf n).day = monthDay) t := by
  obtain ⟨i, hi⟩ : ∃ i, i = 12 * (civilOf zone now).year + ((civilOf zone now).month - 1) :=
    ⟨_, rfl⟩
  have hbody := @monthCandidate_iff zone minuteOfDay now i hminute hi monthDay
  unfold nextMonthDay
  refine search_least (fun k _ t ht => ?_) (fun t ht k _ u hu hbefore => ?_) ?_
  · obtain ⟨hlength, hlt, rfl⟩ := (hbody k t).mp ht
    refine ⟨hlt, ?_⟩
    rw [atMinute_iff, dayOf_momentOf hminute]
    have hcivil : Date.Civil ⟨(i + k) / 12, (i + k) % 12 + 1, monthDay⟩ :=
      ⟨by dsimp only; omega, hlo, hlength⟩
    exact ⟨rfl, congrArg Date.day (dateOf_dayNumber hcivil)⟩
  · -- The month of an earlier moment was looked at before.
    obtain ⟨hlt, hat, hkind⟩ := ht
    rw [atMinute_iff] at hat
    obtain ⟨hku, hltu, rfl⟩ := (hbody k u).mp hu
    by_contra hlater
    rw [hat] at hlt hlater
    obtain ⟨l, hyear, hmonth⟩ := exists_month hi ((today_spec hminute).1 hlt)
    have hn : dayNumber ⟨(i + l) / 12, (i + l) % 12 + 1, monthDay⟩ = dayOf zone t := by
      rw [hyear, hmonth, ← hkind]
      exact dayNumber_dateOf _
    have hlk : l < k := by
      by_contra hle
      have hle' := (dayNumber_month_strictMono monthDay).monotone
        (show i + (k : ℤ) ≤ i + l by omega)
      rw [hn] at hle'
      unfold momentOf at hlater
      omega
    have hlength : monthDay ≤ monthLength ((i + l) / 12) ((i + l) % 12 + 1) := by
      rw [hyear, hmonth, ← hkind]
      exact (civil_dateOf _).day.2
    refine absurd ((hbody l (momentOf zone minuteOfDay (dayOf zone t))).mpr
      ⟨hlength, hlt, congrArg _ hn.symm⟩) ?_
    rw [hbefore l hlk]
    exact fun h => nomatch h
  · -- January has every day.
    obtain ⟨k, hk, hjanuary, hlater⟩ := @exists_january zone now i hi _ hlo
    refine ⟨k, hk, _, (hbody k _).mpr ⟨?_, (today_spec hminute).2 hlater, rfl⟩⟩
    rw [hjanuary]
    exact hhi

end Months

/-- The days of a kind are those of one of the reminders. -/
lemma mem_firstOccurrences (hminute : 0 ≤ minuteOfDay ∧ minuteOfDay ≤ 1439) {r : Repeat}
    (hr : r.WellFormed) :
    (∀ kind ∈ r.kinds, ∃ t ∈ firstOccurrences zone r minuteOfDay now,
      IsLeast (due zone minuteOfDay now kind) t) ∧
      ∀ t ∈ firstOccurrences zone r minuteOfDay now, ∃ kind ∈ r.kinds,
        IsLeast (due zone minuteOfDay now kind) t := by
  unfold firstOccurrences Repeat.kinds
  by_cases hweekly : r.frequency = .weekly ∧ r.weekdays ≠ []
  · have hday (w : ℕ) (hw : w ∈ r.weekdays) :
        ∃ t, nextAt zone (civilOf zone now) w minuteOfDay now = some t ∧
          IsLeast (due zone minuteOfDay now fun n => weekday n = w) t :=
      nextAt_spec hminute (by exact_mod_cast hr.weekdays w hw)
        fun n => ⟨fun h _ => h, fun h => h (Int.natCast_nonneg w)⟩
    simp only [if_pos hweekly, List.mem_mergeSort, List.mem_filterMap, List.mem_map]
    constructor
    · rintro - ⟨w, hw, rfl⟩
      obtain ⟨t, ht, hleast⟩ := hday w hw
      exact ⟨t, ⟨w, hw, ht⟩, hleast⟩
    · rintro t ⟨w, hw, ht⟩
      obtain ⟨t', ht', hleast⟩ := hday w hw
      obtain rfl := Option.some.inj (ht.symm.trans ht')
      exact ⟨_, ⟨w, hw, rfl⟩, hleast⟩
  by_cases hmonthly : r.frequency = .monthly ∧ r.monthDay > 0
  · obtain ⟨t, ht, hleast⟩ := @nextMonthDay_spec zone _ now hminute _ hmonthly.2 hr.monthDay.2
    simp only [if_neg hweekly, if_pos hmonthly, ht, Option.toList_some, List.mem_singleton]
    exact ⟨fun kind hkind => ⟨t, rfl, hkind ▸ hleast⟩, fun u hu => ⟨_, rfl, hu ▸ hleast⟩⟩
  · have hany (n : ℤ) : True ↔ ((0 : ℤ) ≤ -1 → weekday n = -1) :=
      ⟨fun _ h => absurd h (by norm_num), fun _ => trivial⟩
    obtain ⟨t, ht, hleast⟩ := @nextAt_spec zone _ now _ hminute _ (by norm_num) hany
    simp only [if_neg hweekly, if_neg hmonthly, ht, Option.toList_some, List.mem_singleton]
    exact ⟨fun kind hkind => ⟨t, rfl, hkind ▸ hleast⟩, fun u hu => ⟨_, rfl, hu ▸ hleast⟩⟩

end First

/-! ### The productivity service -/

section Rule

open Productivity Recurrence Numerals

variable {zone minuteOfDay now t f : ℤ} {w : ℕ} {r : Repeat} {rule : RecurrenceRule}

theorem parse_productivityRule (hr : r.WellFormed) :
    parseRecurrenceRule (productivityRule r) =
      some { frequency := r.frequency.productivity, interval := r.interval } := by
  obtain ⟨frequency, interval, weekdays, monthDay⟩ := r
  obtain ⟨⟨hlo, hhi⟩, -⟩ := hr
  dsimp only at hlo hhi ⊢
  have hfreq : Recurrence.readEntry {} (ascii "FREQ") (frequencyName frequency) =
      some { rule := { frequency := frequency.productivity }, frequencySeen := true } := by
    cases frequency <;> rfl
  have hinterval (s : Recurrence.Reading) (hseen : s.intervalSeen = false) :
      Recurrence.readEntry s (ascii "INTERVAL") (toText interval) =
        some { s with rule := { s.rule with interval }, intervalSeen := true } := by
    have hkey : ascii "INTERVAL" ≠ ascii "FREQ" := by decide
    have hbounded : boundedOf (toText interval) 1 Recurrence.kMaxInterval = some interval :=
      numberIn_toText hlo hhi (by decide)
    rw [Recurrence.readEntry, if_neg fun h => hkey h.1, if_pos (by simp [hseen]), hbounded]
    rfl
  obtain ⟨q, hq⟩ : ∃ q : Repeat, q = { frequency, interval } := ⟨_, rfl⟩
  have hplain : q.WellFormed := by
    subst hq
    exact ⟨⟨hlo, hhi⟩, List.nodup_nil, by simp, by simp, ⟨le_rfl, by simp [kLastMonthDay]⟩, by simp⟩
  have htext : productivityRule ⟨frequency, interval, weekdays, monthDay⟩ =
      Words.join kSep ((entriesOf q).map (Entries.written kEq)) := by
    rw [← format_eq, hq]
    simp [productivityRule, format]
  have hspec := entriesOf_spec hplain
  have hread : Entries.read kSep kEq Recurrence.readEntry {}
      (Words.join kSep ((entriesOf q).map (Entries.written kEq))) = some
        { rule := { frequency := frequency.productivity, interval }, frequencySeen := true
          intervalSeen := decide (1 < interval) } := by
    rw [Entries.read_join (fun e he => (hspec e he).1) fun e he => (hspec e he).2]
    by_cases h : 1 < interval
    · simp [hq, entriesOf, hfreq, hinterval, h]
    · simp [hq, entriesOf, hfreq, show interval = 1 by omega]
  have hends := format_ends hplain
  rw [format_eq, ← htext] at hends
  rw [parseRecurrenceRule]
  refine (if_neg hends).trans ?_
  rw [htext]
  exact (congrArg (Option.bind · _) hread).trans rfl

end Rule

section Weekly

open Productivity Recurrence

variable {zone minuteOfDay now t f : ℤ} {w : ℕ} {rule : RecurrenceRule}

/-- The least moment of a weekday is in the week that begins now. -/
lemma least_window (h : IsLeast (due zone minuteOfDay now fun n => weekday n = w) f) :
    (now < f ∧ AtMinute zone minuteOfDay f ∧ weekday (dayOf zone f) = w) ∧ f ≤ now + 604800 := by
  obtain ⟨hf, hleast⟩ := h
  refine ⟨hf, not_lt.mp fun hlt => ?_⟩
  obtain ⟨-, hat, hday⟩ := hf
  have hle : f ≤ f - 604800 := by
    refine hleast ⟨by omega, ?_, ?_⟩
    · unfold AtMinute at hat ⊢
      omega
    · unfold weekday dayOf at hday ⊢
      omega
  omega

/-- A week later it is the same weekday and the same minute. -/
lemma weeks_later (hat : AtMinute zone minuteOfDay f) (hday : weekday (dayOf zone f) = w) (k : ℤ) :
    AtMinute zone minuteOfDay (f + 604800 * k) ∧ weekday (dayOf zone (f + 604800 * k)) = w ∧
      dayOf zone (f + 604800 * k) = dayOf zone f + 7 * k := by
  unfold AtMinute weekday dayOf at *
  omega

/-- The moment `-1` is not told from a failure of `mktime`, so no series has it. -/
lemma mem_series (hrule : rule.frequency = .weekly) :
    t ∈ series zone rule f ↔ t ≠ -1 ∧ ∃ k : ℕ, t = f + 604800 * (k * rule.interval) := by
  rw [← exists_and_left]
  refine exists_congr fun k => ?_
  rw [occurrenceAt_weekly hrule]
  split_ifs with hfailure
  · refine iff_of_false id ?_
    rintro ⟨hne, rfl⟩
    exact hne hfailure
  · rw [Option.some.injEq, eq_comm]
    refine ⟨?_, And.right⟩
    rintro rfl
    exact ⟨hfailure, rfl⟩

/-- The series of the weekdays together. -/
lemma weekly_series (hminute : 0 ≤ minuteOfDay ∧ minuteOfDay ≤ 1439)
    (hmoment : t = -1 → 60 ∣ zone ∨ -1 ≤ now) {r : Repeat} (hr : r.WellFormed)
    (hweekly : r.frequency = .weekly) (hdays : r.weekdays ≠ []) (hrule : rule.frequency = .weekly)
    (hinterval : rule.interval = r.interval) {first : ℤ}
    (hfirst : IsLeast {f | f ∈ firstOccurrences zone r minuteOfDay now} first) :
    (∃ f ∈ firstOccurrences zone r minuteOfDay now, t ∈ series zone rule f) ↔
      AtMinute zone minuteOfDay t ∧ (∃ w ∈ r.weekdays, weekday (dayOf zone t) = (w : ℤ)) ∧
        ∃ k : ℕ, dayOf zone first + 7 * (r.interval * k) ≤ dayOf zone t ∧
          dayOf zone t < dayOf zone first + 7 * (r.interval * k) + 7 := by
  obtain ⟨hkinds, hfirsts⟩ := @mem_firstOccurrences zone _ now hminute r hr
  have hpos : 1 ≤ rule.interval := hinterval ▸ hr.interval.1
  rw [Repeat.kinds, if_pos ⟨hweekly, hdays⟩] at hkinds hfirsts
  have hday {f : ℤ} (hf : f ∈ firstOccurrences zone r minuteOfDay now) :
      ∃ w ∈ r.weekdays, IsLeast (due zone minuteOfDay now fun n => weekday n = (w : ℤ)) f := by
    obtain ⟨_, hkind, hleast⟩ := hfirsts f hf
    obtain ⟨w, hw, rfl⟩ := List.mem_map.mp hkind
    exact ⟨w, hw, hleast⟩
  obtain ⟨w₀, -, hleast₀⟩ := hday hfirst.1
  obtain ⟨⟨hlt₀, hat₀, -⟩, hle₀⟩ := least_window hleast₀
  -- The first moments are in one week, which begins with the earliest of them.
  have hweek {f : ℤ} (hle : first ≤ f) (hle' : f ≤ now + 604800)
      (hat : AtMinute zone minuteOfDay f) :
      dayOf zone first ≤ dayOf zone f ∧ dayOf zone f < dayOf zone first + 7 := by
    unfold AtMinute at hat hat₀
    unfold dayOf
    omega
  constructor
  · rintro ⟨f, hf, ht⟩
    obtain ⟨w, hw, hleast⟩ := hday hf
    obtain ⟨⟨hlt, hat, hdayf⟩, hle⟩ := least_window hleast
    obtain ⟨-, k, rfl⟩ := (mem_series hrule).mp ht
    obtain ⟨hat', hday', hdays'⟩ := weeks_later hat hdayf (k * rule.interval)
    obtain ⟨hlo, hhi⟩ := hweek (hfirst.2 hf) hle hat
    refine ⟨hat', ⟨w, hw, hday'⟩, k, ?_⟩
    rw [hdays', hinterval, mul_comm (k : ℤ)]
    omega
  · -- The series of its weekday has it.
    rintro ⟨hat, ⟨w, hw, hdayt⟩, k, hlo, hhi⟩
    obtain ⟨f, hf, hleast⟩ := hkinds _ (List.mem_map_of_mem hw)
    obtain ⟨⟨hlt, hatf, hdayf⟩, hle⟩ := least_window hleast
    obtain ⟨hlof, hhif⟩ := hweek (hfirst.2 hf) hle hatf
    have hweeks : 0 ≤ r.interval * (k : ℤ) := mul_nonneg (by omega) (Int.natCast_nonneg k)
    refine ⟨f, hf, (mem_series hrule).mpr ⟨?_, k, ?_⟩⟩
    · -- It is no whole minute in the zone, or it has passed.
      intro hfailure
      have hpassed := hmoment hfailure
      generalize r.interval * (k : ℤ) = weeks at hlo hweeks
      unfold AtMinute at hat hat₀
      unfold dayOf at hlo
      omega
    rw [hinterval, mul_comm (k : ℤ)]
    generalize r.interval * (k : ℤ) = weeks at hlo hhi ⊢
    unfold AtMinute at hat hatf
    unfold weekday at hdayt hdayf
    unfold dayOf at *
    omega

lemma disjoint_series (hminute : 0 ≤ minuteOfDay ∧ minuteOfDay ≤ 1439) {r : Repeat}
    (hr : r.WellFormed) (hweekly : r.frequency = .weekly) (hdays : r.weekdays ≠ [])
    (hrule : rule.frequency = .weekly) :
    (firstOccurrences zone r minuteOfDay now).Pairwise fun f g =>
      Disjoint (series zone rule f) (series zone rule g) := by
  have hday {w : ℕ} {f t : ℤ} (hw : w ∈ r.weekdays)
      (hf : nextAt zone (civilOf zone now) w minuteOfDay now = some f)
      (ht : t ∈ series zone rule f) : weekday (dayOf zone t) = w := by
    have hkind (n : ℤ) : weekday n = (w : ℤ) ↔ ((0 : ℤ) ≤ w → weekday n = w) :=
      ⟨fun h _ => h, fun h => h (Int.natCast_nonneg w)⟩
    obtain ⟨g, hg, hleast⟩ := @nextAt_spec zone _ now _ hminute w
      (by exact_mod_cast hr.weekdays w hw) hkind
    obtain rfl := Option.some.inj (hf.symm.trans hg)
    obtain ⟨⟨-, hat, hdayf⟩, -⟩ := least_window hleast
    obtain ⟨-, k, rfl⟩ := (mem_series hrule).mp ht
    exact (weeks_later hat hdayf _).2.1
  unfold firstOccurrences
  dsimp only
  rw [if_pos ⟨hweekly, hdays⟩,
    (List.mergeSort_perm _ _).pairwise_iff fun h => Disjoint.symm h, List.pairwise_filterMap]
  refine hr.nodup.imp_of_mem fun hw hw' hne f hf g hg => Set.disjoint_left.mpr fun t ht ht' => ?_
  refine hne ?_
  have heq := (hday hw hf ht).symm.trans (hday hw' hg ht')
  exact_mod_cast heq

end Weekly

/-- The first moments are the next of each kind, and the productivity service takes the rule.  The
series of the weekdays are apart, and together they have the weekdays of every `interval`th week,
where the weeks begin with the day of the earliest first moment.  The moment `-1` is not told from a
failure of `mktime`: it is no whole minute of a zone of whole minutes, and it has passed for a clock
from then on. -/
theorem series_exact (zone minuteOfDay now : ℤ) (r : Repeat) (hr : r.WellFormed)
    (hminute : 0 ≤ minuteOfDay ∧ minuteOfDay ≤ 1439) :
    (firstOccurrences zone r minuteOfDay now ≠ [] ∧
      (∀ kind ∈ r.kinds, ∃ t ∈ firstOccurrences zone r minuteOfDay now,
        IsLeast (due zone minuteOfDay now kind) t) ∧
      ∀ t ∈ firstOccurrences zone r minuteOfDay now, now < t ∧
        ∃ kind ∈ r.kinds, IsLeast (due zone minuteOfDay now kind) t) ∧
    ∃ rule, Productivity.Recurrence.parseRecurrenceRule (productivityRule r) = some rule ∧
      rule.frequency = r.frequency.productivity ∧ rule.interval = r.interval ∧
      (r.frequency = .weekly → r.weekdays ≠ [] →
        (firstOccurrences zone r minuteOfDay now).Pairwise (fun f g =>
          Disjoint (Productivity.Recurrence.series zone rule f)
            (Productivity.Recurrence.series zone rule g)) ∧
        ∀ first, IsLeast {f | f ∈ firstOccurrences zone r minuteOfDay now} first → ∀ t,
          (t = -1 → 60 ∣ zone ∨ -1 ≤ now) →
          ((∃ f ∈ firstOccurrences zone r minuteOfDay now,
            t ∈ Productivity.Recurrence.series zone rule f) ↔
          AtMinute zone minuteOfDay t ∧ (∃ w ∈ r.weekdays, weekday (dayOf zone t) = (w : ℤ)) ∧
            ∃ k : ℕ, dayOf zone first + 7 * (r.interval * k) ≤ dayOf zone t ∧
              dayOf zone t < dayOf zone first + 7 * (r.interval * k) + 7)) := by
  obtain ⟨hkinds, hfirsts⟩ := @mem_firstOccurrences zone _ now hminute r hr
  refine ⟨⟨?_, hkinds, fun t ht => ?_⟩, _, parse_productivityRule hr, rfl, rfl, ?_⟩
  · obtain ⟨kind, hkind⟩ : ∃ kind, kind ∈ r.kinds := by
      refine List.exists_mem_of_ne_nil _ ?_
      unfold Repeat.kinds
      split_ifs with hweekly
      · simpa using hweekly.2
      · exact List.cons_ne_nil _ _
      · exact List.cons_ne_nil _ _
    obtain ⟨t, ht, -⟩ := hkinds kind hkind
    exact List.ne_nil_of_mem ht
  · obtain ⟨kind, hkind, hleast⟩ := hfirsts t ht
    exact ⟨hleast.1.1, kind, hkind, hleast⟩
  · intro hweekly hdays
    have hrule : r.frequency.productivity = .weekly := by rw [hweekly]; rfl
    exact ⟨disjoint_series hminute hr hweekly hdays hrule,
      fun first hfirst t hmoment =>
        weekly_series hminute hmoment hr hweekly hdays hrule rfl hfirst⟩

lemma firstOccurrences_fortnight :
    firstOccurrences 3600 ⟨.weekly, 2, [1, 3], 0⟩ 480 0 = [370800, 543600] := by
  have hmonday : nextAt 3600 (civilOf 3600 0) 1 480 0 = some 370800 := by decide +kernel
  have hwednesday : nextAt 3600 (civilOf 3600 0) 3 480 0 = some 543600 := by decide +kernel
  have hsorted : [(370800 : ℤ), 543600].mergeSort = [370800, 543600] :=
    List.mergeSort_of_pairwise (by decide)
  simp [firstOccurrences, hmonday, hwednesday, hsorted]

/-- Monday and Wednesday of every second week, from a Thursday on: the Wednesday two weeks after the
first one is reminded of once, and the Monday in between is not. -/
theorem series_exact_fortnight :
    firstOccurrences 3600 ⟨.weekly, 2, [1, 3], 0⟩ 480 0 = [370800, 543600] ∧
    ∃ rule, Productivity.Recurrence.parseRecurrenceRule
        (productivityRule ⟨.weekly, 2, [1, 3], 0⟩) = some rule ∧ rule.interval = 2 ∧
      (1753200 ∈ Productivity.Recurrence.series 3600 rule 370800 ∪
        Productivity.Recurrence.series 3600 rule 543600) ∧
      975600 ∉ Productivity.Recurrence.series 3600 rule 370800 ∪
        Productivity.Recurrence.series 3600 rule 543600 ∧
      Disjoint (Productivity.Recurrence.series 3600 rule 370800)
        (Productivity.Recurrence.series 3600 rule 543600) := by
  have hr : Repeat.WellFormed ⟨.weekly, 2, [1, 3], 0⟩ :=
    ⟨by decide, by decide, by decide, fun _ => rfl, by decide, fun h => absurd rfl h⟩
  obtain ⟨-, rule, hparse, -, hinterval, hweekly⟩ :=
    series_exact 3600 480 0 _ hr ⟨by decide, by decide⟩
  obtain ⟨happart, hunion⟩ := hweekly rfl (by decide)
  rw [firstOccurrences_fortnight] at happart hunion
  have hfirst : IsLeast {f : ℤ | f ∈ [370800, 543600]} 370800 := ⟨by simp, by simp [lowerBounds]⟩
  have hmem := hunion 370800 hfirst
  simp only [List.mem_cons, List.not_mem_nil, or_false, exists_eq_or_imp, exists_eq_left,
    ← Set.mem_union] at hmem
  refine ⟨firstOccurrences_fortnight, rule, hparse, hinterval, ?_, ?_, by simpa using happart⟩
  · rw [hmem _ (by norm_num)]
    exact ⟨by norm_num [AtMinute], by decide, 1, by decide⟩
  · rw [hmem _ (by norm_num)]
    rintro ⟨-, -, k, hlo, hhi⟩
    unfold dayOf at hlo hhi
    omega

end RepeatRule

end Extract

end ArgusBackend
