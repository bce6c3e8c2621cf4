import ArgusBackend.Library.Timelines
import ArgusBackend.Productivity.CivilDates

/-!
# Searching a series

`firstOccurrenceAfter` and `occurrenceIndex` go through the occurrences of a rule, one after the
other, from an estimate on.

* `searchStart`, `firstOccurrenceAfter`, `occurrenceIndex` : the search;
* `Searched` : the occurrences are even steps on a scale of days, months or years, and the estimate
  is made on this scale (`exists_pace`);
* `Unfolds` : the series is a timeline, on which the search finds what comes next
  (`exists_timeline`);
* `search_exact` : the search finds the next occurrence, and the index of every occurrence.
-/

namespace ArgusBackend

namespace Productivity

namespace Recurrence

open Calendar Numerals

/-- How many indices are looked at. -/
def kMaxSearch : ℕ := 1000000

/-- The index to begin with. -/
def searchStart (zone : ℤ) (rule : RecurrenceRule) (anchor moment : ℤ) : ℤ :=
  let start := wallOf zone anchor
  let now := wallOf zone moment
  let daysApart := dayNumberOf now.date - dayNumberOf start.date
  let monthsApart := (now.date.year - start.date.year) * 12 + (now.date.month - start.date.month)
  let yearsApart := now.date.year - start.date.year
  let estimate :=
    match rule.frequency with
    | .daily => daysApart.tdiv rule.interval
    | .weekly => daysApart.tdiv (7 * rule.interval)
    | .monthly => monthsApart.tdiv rule.interval
    | .yearly => yearsApart.tdiv rule.interval
  max (estimate - 1) 0

/-- The loop of `firstOccurrenceAfter`, with the searches that are left. -/
def firstFrom (zone : ℤ) (rule : RecurrenceRule) (anchor moment : ℤ) : ℕ → ℤ → Option ℤ
  | 0, _ => none
  | searches + 1, index =>
    (occurrenceAt zone rule anchor index).bind fun candidate =>
      if candidate > moment then some candidate
      else firstFrom zone rule anchor moment searches (index + 1)

/-- The first occurrence after a moment. -/
def firstOccurrenceAfter (zone : ℤ) (rule : RecurrenceRule) (anchor moment : ℤ) : Option ℤ :=
  firstFrom zone rule anchor moment kMaxSearch (searchStart zone rule anchor moment)

/-- The loop of `occurrenceIndex`, with the searches that are left. -/
def indexFrom (zone : ℤ) (rule : RecurrenceRule) (anchor moment : ℤ) : ℕ → ℤ → Option ℤ
  | 0, _ => none
  | searches + 1, index =>
    (occurrenceAt zone rule anchor index).bind fun candidate =>
      if candidate > moment then none
      else if candidate = moment then some index
      else indexFrom zone rule anchor moment searches (index + 1)

/-- The index of a moment in the series. -/
def occurrenceIndex (zone : ℤ) (rule : RecurrenceRule) (anchor moment : ℤ) : Option ℤ :=
  if moment < anchor then none
  else indexFrom zone rule anchor moment kMaxSearch (searchStart zone rule anchor moment)

/-! ### Rules -/

/-- A rule as the parser gives it. -/
structure Accepted (rule : RecurrenceRule) : Prop where
  interval : 1 ≤ rule.interval ∧ rule.interval ≤ kMaxInterval
  monthDay : ∀ day ∈ rule.monthDay, 1 ≤ day ∧ day ≤ kMaxMonthDay
  monthly : rule.monthDay ≠ none → rule.frequency = .monthly

section Rules

variable {value text : Bytes} {lowest highest n : ℤ} {rule : RecurrenceRule}

lemma boundedOf_bounds (h : boundedOf value lowest highest = some n) :
    lowest ≤ n ∧ n ≤ highest := by
  unfold boundedOf at h
  split at h
  · split_ifs at h with hout
    obtain rfl := Option.some.inj h
    exact not_or.1 hout |>.imp not_lt.1 not_lt.1
  · cases h

theorem accepted_of_parse (h : parseRecurrenceRule text = some rule) : Accepted rule := by
  unfold parseRecurrenceRule at h
  split_ifs at h with hends
  obtain ⟨s, hread, hrule⟩ := Option.bind_eq_some_iff.1 h
  have hread : (1 ≤ s.rule.interval ∧ s.rule.interval ≤ kMaxInterval) ∧
      ∀ day ∈ s.rule.monthDay, 1 ≤ day ∧ day ≤ kMaxMonthDay := by
    refine Entries.read_invariant (J := fun s => (1 ≤ s.rule.interval ∧
      s.rule.interval ≤ kMaxInterval) ∧ ∀ day ∈ s.rule.monthDay, 1 ≤ day ∧ day ≤ kMaxMonthDay)
      hread ⟨by decide, fun day hday => by cases hday⟩ ?_
    rintro s key value s' ⟨hinterval, hday⟩ hstep
    unfold readEntry at hstep
    split_ifs at hstep
    · obtain ⟨_, -, rfl⟩ := Option.map_eq_some_iff.1 hstep
      exact ⟨hinterval, hday⟩
    · obtain ⟨n, hn, rfl⟩ := Option.map_eq_some_iff.1 hstep
      exact ⟨boundedOf_bounds hn, hday⟩
    · obtain ⟨n, hn, rfl⟩ := Option.map_eq_some_iff.1 hstep
      exact ⟨hinterval, fun _ hmem => Option.some.inj hmem ▸ boundedOf_bounds hn⟩
  split_ifs at hrule with hseen hmonthly
  obtain rfl := Option.some.inj hrule
  exact ⟨hread.1, hread.2, fun hday => not_not.1 fun hne => hmonthly ⟨hday, hne⟩⟩

end Rules

/-! ### Occurrences on a scale -/

/-- The offset of a zone in seconds, for which zone files have 32 bits. -/
def IsOffset (zone : ℤ) : Prop := FitsInt zone

/-- The local day of a moment. -/
def localDay (zone t : ℤ) : ℤ := (t + zone) / 86400

/-- The local date of a moment. -/
def localDate (zone t : ℤ) : Date := dateOf (localDay zone t)

/-- The moment of a day, at the time of day of the anchor. -/
def momentOn (zone anchor n : ℤ) : ℤ := 86400 * n + (anchor + zone) % 86400 - zone

/-- A series on a day of the month starts a month later when this day is over. -/
def lateStart (rule : RecurrenceRule) (date : Date) : ℤ :=
  if min (rule.monthDay.getD date.day) (daysInMonth date) < date.day then 1 else 0

section Days

variable {zone anchor t n m : ℤ} {date : Date} {rule : RecurrenceRule}

lemma wallOf_date (zone t : ℤ) : (wallOf zone t).date = localDate zone t := by
  unfold wallOf localtime localDate localDay
  dsimp only
  simp only [sub_add_cancel]

lemma civil_localDate (zone t : ℤ) : (localDate zone t).Civil := civil_dateOf _

@[simp] lemma dayNumber_localDate : dayNumber (localDate zone t) = localDay zone t :=
  dayNumber_dateOf _

lemma localDay_mono (zone : ℤ) : Monotone (localDay zone) := by
  intro t u hle
  unfold localDay
  omega

@[simp] lemma localDay_momentOn : localDay zone (momentOn zone anchor n) = n := by
  unfold localDay momentOn
  omega

lemma localDate_momentOn (h : date.Civil) :
    localDate zone (momentOn zone anchor (dayNumber date)) = date := by
  rw [localDate, localDay_momentOn, dateOf_dayNumber h]

@[simp] lemma momentOn_localDay : momentOn zone anchor (localDay zone anchor) = anchor := by
  unfold localDay momentOn
  omega

lemma le_momentOn : anchor ≤ momentOn zone anchor n ↔ localDay zone anchor ≤ n := by
  unfold localDay momentOn
  omega

/-- The date of a time, exchanged for one that is not before the anchor. -/
lemma epochOf_date (h : date.Civil) (hanchor : 0 ≤ anchor)
    (hday : localDay zone anchor ≤ dayNumber date) :
    epochOf zone { wallOf zone anchor with date } =
      some (momentOn zone anchor (dayNumber date)) := by
  have hle := le_momentOn.2 hday
  have hepoch := @epochOf_wallOf zone anchor (dayNumber date)
  rw [dateOf_dayNumber h, ← momentOn, if_neg (by omega)] at hepoch
  exact hepoch

lemma dayNumberOf_wallOf (zone t : ℤ) : dayNumberOf (wallOf zone t).date = localDay zone t := by
  rw [wallOf_date, dayNumberOf_eq (civil_localDate zone t).month, dayNumber_localDate]

/-- The anchor is not before the year 0. -/
lemma year_anchor (hzone : IsOffset zone) (hanchor : 0 ≤ anchor) :
    0 ≤ (localDate zone anchor).year := by
  have hday : dayNumber ⟨0, 1, 1⟩ ≤ localDay zone anchor := by
    have hfirst : dayNumber ⟨0, 1, 1⟩ = -719528 := by decide
    have := hzone.1
    unfold localDay
    omega
  have hyear : (dateOf (dayNumber ⟨0, 1, 1⟩)).year ≤ _ := year_mono hday
  rw [dateOf_dayNumber (by decide)] at hyear
  exact hyear

/-- A day of a month is not before the dates of earlier months and the earlier days of its own. -/
lemma dayNumber_le_clipped {i day : ℤ} (h : date.Civil) (hday : 1 ≤ day)
    (hi : date.monthIndex < i ∨ date.monthIndex = i ∧ date.day ≤ day) :
    dayNumber date ≤ dayNumber (clipped i day) := by
  rcases hi with hlt | ⟨rfl, hle⟩
  · refine (dayNumber_lt_of_month h (civil_clipped i hday) ?_).le
    rwa [monthIndex_clipped]
  · obtain ⟨hm, hd⟩ := h
    have hclipped : clipped date.monthIndex day =
        { date with day := min day (monthLength date.year date.month) } := by
      unfold clipped Date.monthIndex
      rw [show (12 * date.year + (date.month - 1)) / 12 = date.year by omega,
        show (12 * date.year + (date.month - 1)) % 12 + 1 = date.month by omega]
    rw [hclipped]
    unfold dayNumber
    dsimp only
    omega

lemma clipped_eq {i : ℤ} (day d : ℤ) (hi : 0 ≤ i) :
    Date.mk (i.tdiv 12) (i.tmod 12 + 1) (min day (daysInMonth ⟨i.tdiv 12, i.tmod 12 + 1, d⟩)) =
      clipped i day := by
  rw [Int.tdiv_eq_ediv_of_nonneg hi, Int.tmod_eq_emod_of_nonneg hi,
    daysInMonth_eq (by dsimp only; omega)]
  rfl

end Days

section Rules

variable {rule : RecurrenceRule}

lemma Accepted.pos (h : Accepted rule) : 0 < rule.interval := by
  have := h.interval.1
  omega

lemma Accepted.steps (h : Accepted rule) (k : ℕ) : 0 ≤ k * rule.interval :=
  mul_nonneg (Int.natCast_nonneg k) h.pos.le

lemma Accepted.day (h : Accepted rule) {date : Date} (hdate : date.Civil) :
    1 ≤ rule.monthDay.getD date.day := by
  cases hday : rule.monthDay with
  | none => exact hdate.day.1
  | some day => exact (h.monthDay day hday).1

lemma lateStart_bounds (rule : RecurrenceRule) (date : Date) :
    0 ≤ lateStart rule date ∧ lateStart rule date ≤ 1 := by
  unfold lateStart
  split_ifs <;> omega

/-- Late or not, no day of the series is before the date it starts from. -/
lemma lateStart_spec (date : Date) {steps : ℤ} (hsteps : 0 ≤ steps) :
    date.monthIndex < date.monthIndex + lateStart rule date + steps ∨
      date.monthIndex = date.monthIndex + lateStart rule date + steps ∧
        date.day ≤ rule.monthDay.getD date.day := by
  unfold lateStart
  split_ifs with hlate <;> omega

end Rules

/-! ### The scales -/

/-- The occurrences are even steps on a scale, on which the estimate is made. -/
structure Searched (zone : ℤ) (rule : RecurrenceRule) (anchor : ℤ) (P : Pace ℤ) (origin : ℤ) :
    Prop where
  occurrence : ∀ k : ℕ, occurrenceAt zone rule anchor k = some (P.nth k)
  first : origin ≤ P.first ∧ P.first ≤ origin + 1
  start : ∀ moment,
    searchStart zone rule anchor moment = max ((P.scale moment - origin).tdiv P.step - 1) 0
  anchor_le : anchor ≤ P.nth 0

section Scales

variable {zone anchor : ℤ} {rule : RecurrenceRule}

/-- So many days apart. -/
def dayPace (zone anchor : ℤ) {step : ℤ} (hstep : 0 < step) : Pace ℤ where
  nth k := momentOn zone anchor (localDay zone anchor + k * step)
  scale := localDay zone
  mono := localDay_mono zone
  first := localDay zone anchor
  step := step
  pos := hstep
  scale_nth _ := localDay_momentOn

/-- So many months apart, on a day of the month. -/
def monthPace (zone anchor first : ℤ) {step day : ℤ} (hstep : 0 < step) (hday : 1 ≤ day) :
    Pace ℤ where
  nth k := momentOn zone anchor (dayNumber (clipped (first + k * step) day))
  scale t := (localDate zone t).monthIndex
  mono := monthIndex_mono.comp (localDay_mono zone)
  first := first
  step := step
  pos := hstep
  scale_nth k := by rw [localDate_momentOn (civil_clipped _ hday), monthIndex_clipped]

/-- So many years apart, in the month of the anchor. -/
def yearPace (zone anchor : ℤ) {step : ℤ} (hstep : 0 < step) : Pace ℤ where
  nth k := momentOn zone anchor (dayNumber
    (clipped ((localDate zone anchor).monthIndex + 12 * (k * step)) (localDate zone anchor).day))
  scale t := (localDate zone t).year
  mono := year_mono.comp (localDay_mono zone)
  first := (localDate zone anchor).year
  step := step
  pos := hstep
  scale_nth k := by
    have hcivil := civil_localDate zone anchor
    have hmonth := hcivil.month
    rw [localDate_momentOn (civil_clipped _ hcivil.day.1)]
    unfold clipped Date.monthIndex
    dsimp only
    omega

/-- An occurrence some days behind the anchor. -/
lemma occurrence_days (hanchor : 0 ≤ anchor) {steps : ℤ} (hsteps : 0 ≤ steps) :
    epochOf zone { wallOf zone anchor with
      date := civilFromDays (dayNumberOf (wallOf zone anchor).date + steps) } =
        some (momentOn zone anchor (localDay zone anchor + steps)) := by
  rw [dayNumberOf_wallOf, civilFromDays_eq, epochOf_date (civil_dateOf _) hanchor,
    dayNumber_dateOf]
  rw [dayNumber_dateOf]
  omega

theorem searched_daily (h : Accepted rule) (hanchor : 0 ≤ anchor)
    (hrule : rule.frequency = .daily) :
    Searched zone rule anchor (dayPace zone anchor h.pos) (localDay zone anchor) where
  occurrence k := by
    unfold occurrenceAt
    rw [hrule]
    exact occurrence_days hanchor (h.steps k)
  first := ⟨le_rfl, by simp [dayPace]⟩
  start moment := by
    unfold searchStart
    rw [hrule]
    dsimp only [dayPace]
    rw [dayNumberOf_wallOf, dayNumberOf_wallOf]
  anchor_le := by simp [dayPace]

theorem searched_weekly (h : Accepted rule) (hanchor : 0 ≤ anchor)
    (hrule : rule.frequency = .weekly) :
    Searched zone rule anchor (dayPace zone anchor (mul_pos (by norm_num : (0 : ℤ) < 7) h.pos))
      (localDay zone anchor) where
  occurrence k := by
    have hsteps := h.steps k
    unfold occurrenceAt
    rw [hrule]
    refine (occurrence_days hanchor (by omega)).trans ?_
    dsimp only [dayPace]
    rw [mul_left_comm]
  first := ⟨le_rfl, by simp [dayPace]⟩
  start moment := by
    unfold searchStart
    rw [hrule]
    dsimp only [dayPace]
    rw [dayNumberOf_wallOf, dayNumberOf_wallOf]
  anchor_le := by simp [dayPace]

theorem searched_monthly (h : Accepted rule) (hzone : IsOffset zone) (hanchor : 0 ≤ anchor)
    (hrule : rule.frequency = .monthly) :
    Searched zone rule anchor (monthPace zone anchor
      ((localDate zone anchor).monthIndex + lateStart rule (localDate zone anchor)) h.pos
      (h.day (civil_localDate zone anchor))) (localDate zone anchor).monthIndex := by
  have hcivil := civil_localDate zone anchor
  have hday := h.day hcivil
  have hlate := lateStart_bounds rule (localDate zone anchor)
  have hle {steps : ℤ} (hsteps : 0 ≤ steps) :=
    dayNumber_le_clipped hcivil hday (lateStart_spec _ hsteps)
  rw [dayNumber_localDate] at hle
  refine ⟨fun k => ?_, ?_, fun moment => ?_, ?_⟩
  · have hsteps := h.steps k
    have hyear := year_anchor hzone hanchor
    have hmonth := hcivil.month
    obtain ⟨i, hi⟩ : ∃ i, i = (localDate zone anchor).monthIndex +
      lateStart rule (localDate zone anchor) + k * rule.interval := ⟨_, rfl⟩
    have hindex : (localDate zone anchor).year * 12 + ((localDate zone anchor).month - 1) +
        lateStart rule (localDate zone anchor) + k * rule.interval = i := by
      rw [hi, Date.monthIndex, mul_comm]
    have hdate := clipped_eq (rule.monthDay.getD (localDate zone anchor).day)
      (localDate zone anchor).day (show 0 ≤ i by omega)
    unfold occurrenceAt
    rw [hrule]
    dsimp only [monthPace]
    rw [wallOf_date, ← lateStart, hindex, ← hi, hdate]
    exact epochOf_date (civil_clipped i hday) hanchor (hi ▸ hle hsteps)
  · dsimp only [monthPace]
    omega
  · have hapart : ((localDate zone moment).year - (localDate zone anchor).year) * 12 +
        ((localDate zone moment).month - (localDate zone anchor).month) =
          (localDate zone moment).monthIndex - (localDate zone anchor).monthIndex := by
      unfold Date.monthIndex
      ring
    unfold searchStart
    rw [hrule]
    dsimp only [monthPace]
    rw [wallOf_date, wallOf_date, hapart]
  · refine le_momentOn.2 ?_
    rw [Nat.cast_zero, zero_mul]
    exact hle le_rfl

theorem searched_yearly (h : Accepted rule) (hanchor : 0 ≤ anchor)
    (hrule : rule.frequency = .yearly) :
    Searched zone rule anchor (yearPace zone anchor h.pos) (localDate zone anchor).year := by
  have hcivil := civil_localDate zone anchor
  have hmonth := hcivil.month
  have hle {steps : ℤ} (hsteps : 0 ≤ steps) : localDay zone anchor ≤ dayNumber
      (clipped ((localDate zone anchor).monthIndex + 12 * steps) (localDate zone anchor).day) := by
    rw [← dayNumber_localDate]
    refine dayNumber_le_clipped hcivil hcivil.day.1 ?_
    omega
  refine ⟨fun k => ?_, ?_, fun moment => ?_, ?_⟩
  · have hsteps := h.steps k
    obtain ⟨i, hi⟩ : ∃ i, i = (localDate zone anchor).monthIndex + 12 * (k * rule.interval) :=
      ⟨_, rfl⟩
    have hdate : Date.mk ((localDate zone anchor).year + k * rule.interval)
        (localDate zone anchor).month (min (localDate zone anchor).day
          (daysInMonth ⟨(localDate zone anchor).year + k * rule.interval,
            (localDate zone anchor).month, (localDate zone anchor).day⟩)) =
        clipped i (localDate zone anchor).day := by
      have hyear : i / 12 = (localDate zone anchor).year + k * rule.interval := by
        unfold Date.monthIndex at hi
        omega
      have hindex : i % 12 + 1 = (localDate zone anchor).month := by
        unfold Date.monthIndex at hi
        omega
      rw [daysInMonth_eq (by exact hmonth), clipped, hyear, hindex]
    unfold occurrenceAt
    rw [hrule]
    dsimp only [yearPace]
    rw [wallOf_date, hdate, ← hi]
    exact epochOf_date (civil_clipped i hcivil.day.1) hanchor (hi ▸ hle hsteps)
  · dsimp only [yearPace]
    omega
  · unfold searchStart
    rw [hrule]
    dsimp only [yearPace]
    rw [wallOf_date, wallOf_date]
  · refine le_momentOn.2 ?_
    rw [Nat.cast_zero, zero_mul]
    exact hle le_rfl

theorem exists_searched (h : Accepted rule) (hzone : IsOffset zone) (hanchor : 0 ≤ anchor) :
    ∃ P origin, Searched zone rule anchor P origin := by
  cases hrule : rule.frequency with
  | daily => exact ⟨_, _, searched_daily h hanchor hrule⟩
  | weekly => exact ⟨_, _, searched_weekly h hanchor hrule⟩
  | monthly => exact ⟨_, _, searched_monthly h hzone hanchor hrule⟩
  | yearly => exact ⟨_, _, searched_yearly h hanchor hrule⟩

end Scales

/-! ### The search -/

/-- The series is a timeline, and the search finds what there is on it. -/
structure Unfolds (zone : ℤ) (rule : RecurrenceRule) (anchor : ℤ) (T : Timeline ℤ) : Prop where
  occurrence : ∀ k : ℕ, occurrenceAt zone rule anchor k = some (T.nth k)
  next : ∀ moment, firstOccurrenceAfter zone rule anchor moment = some (T.next moment)
  index : ∀ moment i, occurrenceIndex zone rule anchor moment = some i ↔
    ∃ k : ℕ, i = k ∧ T.nth k = moment
  anchor_le : anchor ≤ T.nth 0

section Search

variable {zone anchor moment index candidate i : ℤ} {rule : RecurrenceRule} {text : Bytes}
  {T : Timeline ℤ} {n searches : ℕ}

lemma firstFrom_succ (h : occurrenceAt zone rule anchor index = some candidate) :
    firstFrom zone rule anchor moment (searches + 1) index =
      if candidate > moment then some candidate
      else firstFrom zone rule anchor moment searches (index + 1) := by
  simp only [firstFrom, h, Option.bind_some]

lemma indexFrom_succ (h : occurrenceAt zone rule anchor index = some candidate) :
    indexFrom zone rule anchor moment (searches + 1) index =
      if candidate > moment then none
      else if candidate = moment then some index
      else indexFrom zone rule anchor moment searches (index + 1) := by
  simp only [indexFrom, h, Option.bind_some]

lemma firstFrom_eq (hT : ∀ k : ℕ, occurrenceAt zone rule anchor k = some (T.nth k))
    (hover : ∀ k < n, T.nth k ≤ moment) (hahead : ∃ k < n + searches, moment < T.nth k) :
    firstFrom zone rule anchor moment searches n = some (T.next moment) := by
  induction searches generalizing n with
  | zero =>
    obtain ⟨k, hk, hlt⟩ := hahead
    exact absurd (hover k hk) (not_le.2 hlt)
  | succ searches ih =>
    rw [firstFrom_succ (hT n)]
    split_ifs with hlater
    · rw [Timeline.next_eq_nth hlater hover]
    · have hsucc : (n : ℤ) + 1 = (n + 1 : ℕ) := by push_cast; rfl
      rw [hsucc]
      refine ih (fun k hk => ?_) ?_
      · rcases Nat.lt_succ_iff_lt_or_eq.1 hk with hk | rfl
        · exact hover k hk
        · exact not_lt.1 hlater
      · obtain ⟨k, hk, hlt⟩ := hahead
        exact ⟨k, by omega, hlt⟩

lemma indexFrom_eq (hT : ∀ k : ℕ, occurrenceAt zone rule anchor k = some (T.nth k))
    (hover : ∀ k < n, T.nth k < moment) (hahead : ∃ k < n + searches, moment < T.nth k) :
    indexFrom zone rule anchor moment searches n = some i ↔ ∃ k : ℕ, i = k ∧ T.nth k = moment := by
  induction searches generalizing n with
  | zero =>
    obtain ⟨k, hk, hlt⟩ := hahead
    exact absurd (hover k hk) (not_lt.2 hlt.le)
  | succ searches ih =>
    rw [indexFrom_succ (hT n)]
    split_ifs with hlater heq
    · -- What is before this occurrence is over, and the others are later.
      refine iff_of_false nofun ?_
      rintro ⟨k, -, rfl⟩
      exact absurd (hover k (T.strictMono.lt_iff_lt.1 hlater)) (lt_irrefl _)
    · constructor
      · intro hi
        exact ⟨n, (Option.some.inj hi).symm, heq⟩
      · rintro ⟨k, rfl, hk⟩
        rw [T.strictMono.injective (heq.trans hk.symm)]
    · have hsucc : (n : ℤ) + 1 = (n + 1 : ℕ) := by push_cast; rfl
      rw [hsucc]
      refine ih (fun k hk => ?_) ?_
      · rcases Nat.lt_succ_iff_lt_or_eq.1 hk with hk | rfl
        · exact hover k hk
        · exact lt_of_le_of_ne (not_lt.1 hlater) heq
      · obtain ⟨k, hk, hlt⟩ := hahead
        exact ⟨k, by omega, hlt⟩

/-- **Every series that the parser accepts unfolds on a timeline.** -/
theorem exists_unfolds (h : Accepted rule) (hzone : IsOffset zone) (hanchor : 0 ≤ anchor) :
    ∃ T, Unfolds zone rule anchor T := by
  obtain ⟨P, origin, hP⟩ := exists_searched h hzone hanchor
  have hnth : ∀ k : ℕ, occurrenceAt zone rule anchor k = some (P.timeline.nth k) := hP.occurrence
  refine ⟨P.timeline, hnth, fun moment => ?_, fun moment i => ?_, hP.anchor_le⟩
  · obtain ⟨n, hn, hover, hahead⟩ := P.search_start hP.first moment
    rw [firstOccurrenceAfter, hP.start, hn]
    exact firstFrom_eq hnth (fun k hk => (hover k hk).le)
      ⟨n + 2, by unfold kMaxSearch; omega, hahead⟩
  · obtain ⟨n, hn, hover, hahead⟩ := P.search_start hP.first moment
    rw [occurrenceIndex]
    split_ifs with hbefore
    · -- The series does not begin before its anchor.
      refine iff_of_false nofun ?_
      rintro ⟨k, -, hk⟩
      have hle := P.timeline.strictMono.monotone (Nat.zero_le k)
      have hanchor := hP.anchor_le
      exact absurd (hanchor.trans hle) (not_le.2 (hk.trans_lt hbefore))
    · rw [hP.start, hn]
      exact indexFrom_eq hnth hover ⟨n + 2, by unfold kMaxSearch; omega, hahead⟩

lemma Unfolds.moments_eq (h : Unfolds zone rule anchor T) :
    T.moments = series zone rule anchor := by
  ext t
  refine exists_congr fun k => ?_
  rw [h.occurrence, Option.some.injEq]

lemma parse_daily : parseRecurrenceRule (ascii "FREQ=DAILY") = some {} := by
  rw [parseRecurrenceRule, if_neg (by decide), Entries.read_none (by decide) (by decide)]
  rfl

/-- **The search is exact.**  What it finds is the first moment of the series behind the given one,
and the index of a moment is the one at which the series has it. -/
theorem search_exact (hzone : IsOffset zone) (hrule : parseRecurrenceRule text = some rule)
    (hanchor : 0 ≤ anchor) (moment : ℤ) :
    (∃ t, firstOccurrenceAfter zone rule anchor moment = some t ∧
      IsLeast {t | t ∈ series zone rule anchor ∧ moment < t} t) ∧
    ∀ i, occurrenceIndex zone rule anchor moment = some i ↔
      0 ≤ i ∧ occurrenceAt zone rule anchor i = some moment := by
  obtain ⟨T, h⟩ := exists_unfolds (accepted_of_parse hrule) hzone hanchor
  refine ⟨⟨_, h.next moment, ?_⟩, fun i => ?_⟩
  · rw [← h.moments_eq]
    exact Timeline.isLeast_next moment
  · rw [h.index]
    constructor
    · rintro ⟨k, rfl, hk⟩
      exact ⟨Int.natCast_nonneg k, by rw [h.occurrence, hk]⟩
    · rintro ⟨hi, hk⟩
      obtain ⟨k, rfl⟩ := Int.eq_ofNat_of_zero_le hi
      rw [h.occurrence] at hk
      exact ⟨k, rfl, Option.some.inj hk⟩

/-- The fifth of every month, from the eleventh of January on. -/
theorem search_exact_late : ∃ rule,
    parseRecurrenceRule (ascii "FREQ=MONTHLY;BYMONTHDAY=5") = some rule ∧
      ∃ t, firstOccurrenceAfter 0 rule 864000 0 = some t ∧
        IsLeast {t | t ∈ series 0 rule 864000 ∧ 0 < t} t := by
  have hcut : Words.cut kSep (ascii "FREQ=MONTHLY;BYMONTHDAY=5") =
      some (ascii "FREQ=MONTHLY", ascii "BYMONTHDAY=5") := by decide
  have hrule : parseRecurrenceRule (ascii "FREQ=MONTHLY;BYMONTHDAY=5") =
      some { frequency := .monthly, monthDay := some 5 } := by
    have hfreq : Entries.entry kEq readEntry {} (ascii "FREQ=MONTHLY") =
        some { rule := { frequency := .monthly }, frequencySeen := true } := rfl
    rw [parseRecurrenceRule, if_neg (by decide), Entries.read_some hcut, hfreq, Option.bind_some,
      Entries.read_none (by decide) (by decide)]
    rfl
  exact ⟨_, hrule, (search_exact ⟨by decide, by decide⟩ hrule (by decide) 0).1⟩

end Search

end Recurrence

end Productivity

end ArgusBackend
