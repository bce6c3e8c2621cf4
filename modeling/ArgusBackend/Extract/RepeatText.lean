import ArgusBackend.Library.Entries
import ArgusBackend.Library.Numerals

/-!
# Repeats and their text form

* `Repeat`, `Repeat.WellFormed` : how something repeats;
* `format`, `parse` : the text form that is stored;
* `productivityRule` : the rule that is given to the productivity service;
* `parse_format`, `wellFormed_of_parse` : the text form is exact.
-/

namespace ArgusBackend

namespace Extract

open Numerals

/-- The frequencies of a repeat. -/
inductive RepeatFrequency where
  | daily | weekly | monthly | yearly
  deriving DecidableEq, Repr

/-- A repeat as it was said. -/
structure Repeat where
  frequency : RepeatFrequency := .daily
  interval : ℤ := 1
  weekdays : List ℕ := []
  monthDay : ℤ := 0
  deriving DecidableEq, Repr

namespace RepeatRule

/-- The longest interval. -/
def kMaxInterval : ℤ := 999

/-- The last day of a month. -/
def kLastMonthDay : ℤ := 31

/-- The names of the weekdays, from Sunday. -/
def kByDay : List Bytes := ["SU", "MO", "TU", "WE", "TH", "FR", "SA"].map ascii

/-- The text of a frequency. -/
def frequencyName : RepeatFrequency → Bytes
  | .daily => ascii "DAILY"
  | .weekly => ascii "WEEKLY"
  | .monthly => ascii "MONTHLY"
  | .yearly => ascii "YEARLY"

/-- The frequency of a text. -/
def frequencyNamed (name : Bytes) : Option RepeatFrequency :=
  [RepeatFrequency.daily, .weekly, .monthly, .yearly].find? fun f => frequencyName f = name

/-- `;` -/
def kSep : UInt8 := 0x3b

/-- `=` -/
def kEq : UInt8 := 0x3d

/-- `,` -/
def kComma : UInt8 := 0x2c

/-! ### Writing -/

/-- The loop over the weekdays, with commas between them. -/
def byDayText (weekdays : List ℕ) : Bytes :=
  Words.join kComma (weekdays.map fun day => kByDay.getD day [])

/-- The text form of a repeat. -/
def format (r : Repeat) : Bytes :=
  ascii "FREQ=" ++ frequencyName r.frequency ++
    (if 1 < r.interval then ascii ";INTERVAL=" ++ toText r.interval else []) ++
    (if r.weekdays ≠ [] then ascii ";BYDAY=" ++ byDayText r.weekdays else []) ++
    if 0 < r.monthDay then ascii ";BYMONTHDAY=" ++ toText r.monthDay else []

/-- The rule that the productivity service is given. -/
def productivityRule (r : Repeat) : Bytes :=
  ascii "FREQ=" ++ frequencyName r.frequency ++
    if 1 < r.interval then ascii ";INTERVAL=" ++ toText r.interval else []

/-! ### Reading -/

/-- A number from 1 to `high`. -/
def numberIn (text : Bytes) (high : ℤ) : Option ℤ :=
  match fromChars 10 (-2147483648) 2147483647 text with
  | some (value, []) => if value < 1 ∨ high < value then none else some value
  | _ => none

/-- The loop over the parts between commas, with the days so far. -/
def weekdaysFrom (days : List ℕ) (text : Bytes) : Option (List ℕ) :=
  let add (part : Bytes) : Option (List ℕ) :=
    if part ∈ kByDay then
      let day := kByDay.idxOf part
      if day ∈ days then none else some (days ++ [day])
    else none
  match _hcut : Words.cut kComma text with
  | none => add text
  | some (part, rest) => (add part).bind fun days => weekdaysFrom days rest
termination_by text.length
decreasing_by exact Words.length_of_cut _hcut

/-- `std::ranges::sort` of the days. -/
def weekdaysIn (text : Bytes) : Option (List ℕ) :=
  (weekdaysFrom [] text).map fun days => days.mergeSort

/-- What was read so far. -/
structure Reading where
  repeat_ : Repeat := {}
  frequencySeen : Bool := false
  intervalSeen : Bool := false
  daysSeen : Bool := false
  monthDaySeen : Bool := false

/-- An entry of a text form; each may come once. -/
def readEntry (s : Reading) (key value : Bytes) : Option Reading :=
  if key = ascii "FREQ" ∧ !s.frequencySeen then
    (frequencyNamed value).map fun frequency =>
      { s with repeat_ := { s.repeat_ with frequency }, frequencySeen := true }
  else if key = ascii "INTERVAL" ∧ !s.intervalSeen then
    (numberIn value kMaxInterval).map fun interval =>
      { s with repeat_ := { s.repeat_ with interval }, intervalSeen := true }
  else if key = ascii "BYDAY" ∧ !s.daysSeen then
    (weekdaysIn value).map fun weekdays =>
      { s with repeat_ := { s.repeat_ with weekdays }, daysSeen := true }
  else if key = ascii "BYMONTHDAY" ∧ !s.monthDaySeen then
    (numberIn value kLastMonthDay).map fun monthDay =>
      { s with repeat_ := { s.repeat_ with monthDay }, monthDaySeen := true }
  else none

/-- The repeat of a text form. -/
def parse (text : Bytes) : Option Repeat :=
  if text = [] ∨ text.getLast? = some kSep then none
  else
    (Entries.read kSep kEq readEntry {} text).bind fun s =>
      if !s.frequencySeen then none
      else if s.daysSeen ∧ s.repeat_.frequency ≠ .weekly then none
      else if s.monthDaySeen ∧ s.repeat_.frequency ≠ .monthly then none
      else some s.repeat_

end RepeatRule

/-- Weekdays only where it is weekly, and a day of the month only where it is monthly. -/
structure Repeat.WellFormed (r : Repeat) : Prop where
  interval : 1 ≤ r.interval ∧ r.interval ≤ RepeatRule.kMaxInterval
  nodup : r.weekdays.Nodup
  weekdays : ∀ day ∈ r.weekdays, day < 7
  weekly : r.weekdays ≠ [] → r.frequency = .weekly
  monthDay : 0 ≤ r.monthDay ∧ r.monthDay ≤ RepeatRule.kLastMonthDay
  monthly : r.monthDay ≠ 0 → r.frequency = .monthly

/-- Also the weekdays are in order. -/
structure Repeat.Ordered (r : Repeat) : Prop extends r.WellFormed where
  sorted : r.weekdays.Pairwise (· < ·)

namespace RepeatRule

section TextForm

variable {r : Repeat} {k high : ℤ} {days acc : List ℕ} {text : Bytes} {day : ℕ}

/-! ### What was written is read -/

lemma numberIn_toText (hlo : 1 ≤ k) (hhi : k ≤ high) (hbound : high ≤ 2147483647) :
    numberIn (toText k) high = some k := by
  rw [numberIn, fromChars_toText (by omega) (by omega) (by omega)]
  exact if_neg (by omega)

lemma name_spec (hday : day < 7) : kByDay.getD day [] ∈ kByDay ∧
    kByDay.idxOf (kByDay.getD day []) = day ∧ kComma ∉ kByDay.getD day [] ∧
      kSep ∉ kByDay.getD day [] := by
  revert day
  decide +kernel

lemma weekdaysFrom_text (hdays : ∀ day ∈ days, day < 7) (hnodup : (acc ++ days).Nodup)
    (hne : days ≠ []) : weekdaysFrom acc (byDayText days) = some (acc ++ days) := by
  induction days generalizing acc with
  | nil => exact absurd rfl hne
  | cons day days ih =>
    rw [List.forall_mem_cons] at hdays
    obtain ⟨hmem, hidx, hcomma, -⟩ := name_spec hdays.1
    have hnew : day ∉ acc := fun h =>
      (List.nodup_append.mp hnodup).2.2 day h day List.mem_cons_self rfl
    have hadd : (if kByDay.getD day [] ∈ kByDay then
        if kByDay.idxOf (kByDay.getD day []) ∈ acc then none
        else some (acc ++ [kByDay.idxOf (kByDay.getD day [])])
        else none) = some (acc ++ [day]) := by
      rw [if_pos hmem, hidx, if_neg hnew]
    by_cases hnil : days = []
    · subst hnil
      have hcut : Words.cut kComma (byDayText [day]) = none := Words.cut_eq_none.mpr hcomma
      rw [weekdaysFrom]
      split
      next => exact hadd
      next h => simp [hcut] at h
    · have htext : byDayText (day :: days) = kByDay.getD day [] ++ kComma :: byDayText days :=
        Words.join_cons (by simpa using hnil)
      have hcut : Words.cut kComma (byDayText (day :: days)) =
          some (kByDay.getD day [], byDayText days) := Words.cut_eq_some.mpr ⟨htext, hcomma⟩
      rw [weekdaysFrom]
      split
      next h => simp [hcut] at h
      next h =>
        rw [hcut] at h
        obtain ⟨rfl, rfl⟩ := Prod.mk.inj (Option.some.inj h)
        dsimp only
        rw [hadd, Option.bind_some, ih hdays.2 (by simpa using hnodup) hnil, List.append_assoc,
          List.singleton_append]

lemma weekdaysIn_text (hdays : ∀ day ∈ days, day < 7) (hsorted : days.Pairwise (· < ·))
    (hne : days ≠ []) : weekdaysIn (byDayText days) = some days := by
  have hnodup : days.Nodup := hsorted.imp fun h => Nat.ne_of_lt h
  rw [weekdaysIn, weekdaysFrom_text hdays (by simpa using hnodup) hne, List.nil_append,
    Option.map_some, List.mergeSort_of_pairwise (hsorted.imp fun h => by simpa using h.le)]

/-- The entries of a text form. -/
def entriesOf (r : Repeat) : List (Bytes × Bytes) :=
  [(ascii "FREQ", frequencyName r.frequency)] ++
    (if 1 < r.interval then [(ascii "INTERVAL", toText r.interval)] else []) ++
    (if r.weekdays ≠ [] then [(ascii "BYDAY", byDayText r.weekdays)] else []) ++
    if 0 < r.monthDay then [(ascii "BYMONTHDAY", toText r.monthDay)] else []

lemma format_eq (r : Repeat) :
    format r = Words.join kSep ((entriesOf r).map (Entries.written kEq)) := by
  have hfreq : ∀ text, ascii "FREQ=" ++ text = Entries.written kEq (ascii "FREQ", text) :=
    fun _ => rfl
  have hinterval : ∀ text, ascii ";INTERVAL=" ++ text =
    kSep :: Entries.written kEq (ascii "INTERVAL", text) := fun _ => rfl
  have hdays : ∀ text, ascii ";BYDAY=" ++ text =
    kSep :: Entries.written kEq (ascii "BYDAY", text) := fun _ => rfl
  have hmonthDay : ∀ text, ascii ";BYMONTHDAY=" ++ text =
    kSep :: Entries.written kEq (ascii "BYMONTHDAY", text) := fun _ => rfl
  unfold format entriesOf
  rw [hfreq, hinterval, hdays, hmonthDay]
  split_ifs <;> simp [Words.join]

lemma not_mem_join {sep blank : UInt8} {ws : List Bytes} (hne : sep ≠ blank)
    (hws : ∀ w ∈ ws, sep ∉ w) : sep ∉ Words.join blank ws := by
  induction ws with
  | nil => exact List.not_mem_nil
  | cons w ws ih =>
    rw [List.forall_mem_cons] at hws
    by_cases hnil : ws = []
    · subst hnil
      exact hws.1
    · rw [Words.join_cons hnil, List.mem_append, List.mem_cons]
      rintro (h | h | h)
      · exact hws.1 h
      · exact hne h
      · exact ih hws.2 h

lemma getLast_join {sep : UInt8} {ws : List Bytes} (hws : ∀ w ∈ ws, w ≠ [] ∧ sep ∉ w) :
    (Words.join sep ws).getLast? ≠ some sep := by
  rcases List.eq_nil_or_concat ws with rfl | ⟨ws, w, rfl⟩
  · simp [Words.join]
  rw [List.concat_eq_append] at hws ⊢
  obtain ⟨hne, hmem⟩ := hws w (by simp)
  have hlast : w.getLast? ≠ some sep := fun h => hmem (List.mem_of_getLast? h)
  by_cases hnil : ws = []
  · subst hnil
    exact hlast
  · rwa [Words.join_concat hnil, List.getLast?_append_of_ne_nil _ (List.cons_ne_nil _ _),
      List.getLast?_cons_of_ne_nil hne]

lemma entriesOf_spec (hr : r.WellFormed) : ∀ e ∈ entriesOf r,
    kSep ∉ Entries.written kEq e ∧ kEq ∉ e.1 := by
  have hwritten {key value : Bytes} (hkey : kSep ∉ key ∧ kEq ∉ key) (hvalue : kSep ∉ value) :
      kSep ∉ Entries.written kEq (key, value) ∧ kEq ∉ key := by
    refine ⟨?_, hkey.2⟩
    rw [Entries.written, List.mem_append, List.mem_cons]
    rintro (h | h | h)
    · exact hkey.1 h
    · cases h
    · exact hvalue h
  intro e he
  simp only [entriesOf, List.mem_append, List.mem_singleton] at he
  rcases he with ((rfl | he) | he) | he
  · refine hwritten (by decide) ?_
    cases r.frequency <;> decide
  · obtain ⟨-, rfl⟩ : 1 < r.interval ∧ e = (ascii "INTERVAL", toText r.interval) := by
      split_ifs at he with h
      · exact ⟨h, List.mem_singleton.mp he⟩
      · cases he
    exact hwritten (by decide) (not_mem_toText rfl (by have := hr.interval; omega))
  · obtain ⟨-, rfl⟩ : r.weekdays ≠ [] ∧ e = (ascii "BYDAY", byDayText r.weekdays) := by
      split_ifs at he with h
      · exact ⟨h, List.mem_singleton.mp he⟩
      · cases he
    refine hwritten (by decide) (not_mem_join (by decide) fun w hw => ?_)
    obtain ⟨day, hday, rfl⟩ := List.mem_map.mp hw
    exact (name_spec (hr.weekdays day hday)).2.2.2
  · obtain ⟨-, rfl⟩ : 0 < r.monthDay ∧ e = (ascii "BYMONTHDAY", toText r.monthDay) := by
      split_ifs at he with h
      · exact ⟨h, List.mem_singleton.mp he⟩
      · cases he
    exact hwritten (by decide) (not_mem_toText rfl hr.monthDay.1)

section Steps

variable {s : Reading}

lemma readEntry_freq (h : s.frequencySeen = false) (f : RepeatFrequency) :
    readEntry s (ascii "FREQ") (frequencyName f) =
      some { s with repeat_ := { s.repeat_ with frequency := f }, frequencySeen := true } := by
  have hnamed : frequencyNamed (frequencyName f) = some f := by cases f <;> decide
  rw [readEntry, if_pos (by simp [h]), hnamed]
  rfl

lemma readEntry_interval (h : s.intervalSeen = false) (hlo : 1 ≤ k) (hhi : k ≤ kMaxInterval) :
    readEntry s (ascii "INTERVAL") (toText k) =
      some { s with repeat_ := { s.repeat_ with interval := k }, intervalSeen := true } := by
  have hkey : ascii "INTERVAL" ≠ ascii "FREQ" := by decide
  rw [readEntry, if_neg fun h => hkey h.1, if_pos (by simp [h]),
    numberIn_toText hlo hhi (by decide)]
  rfl

lemma readEntry_days (h : s.daysSeen = false) (hdays : ∀ day ∈ days, day < 7)
    (hsorted : days.Pairwise (· < ·)) (hne : days ≠ []) :
    readEntry s (ascii "BYDAY") (byDayText days) =
      some { s with repeat_ := { s.repeat_ with weekdays := days }, daysSeen := true } := by
  have hkey : ascii "BYDAY" ≠ ascii "FREQ" := by decide
  have hkey' : ascii "BYDAY" ≠ ascii "INTERVAL" := by decide
  rw [readEntry, if_neg fun h => hkey h.1, if_neg fun h => hkey' h.1, if_pos (by simp [h]),
    weekdaysIn_text hdays hsorted hne]
  rfl

lemma readEntry_monthDay (h : s.monthDaySeen = false) (hlo : 1 ≤ k) (hhi : k ≤ kLastMonthDay) :
    readEntry s (ascii "BYMONTHDAY") (toText k) =
      some { s with repeat_ := { s.repeat_ with monthDay := k }, monthDaySeen := true } := by
  have hkey : ascii "BYMONTHDAY" ≠ ascii "FREQ" := by decide
  have hkey' : ascii "BYMONTHDAY" ≠ ascii "INTERVAL" := by decide
  have hkey'' : ascii "BYMONTHDAY" ≠ ascii "BYDAY" := by decide
  rw [readEntry, if_neg fun h => hkey h.1, if_neg fun h => hkey' h.1, if_neg fun h => hkey'' h.1,
    if_pos (by simp [h]), numberIn_toText hlo hhi (by decide)]
  rfl

/-- An entry that is only written for some repeats. -/
lemma readEntry_optional {c : Prop} [Decidable c] {key value : Bytes} {s' : Reading}
    (hread : c → readEntry s key value = some s') (hskip : ¬c → s' = s) :
    (if c then [(key, value)] else []).foldlM (fun s e => readEntry s e.1 e.2) s = some s' := by
  split_ifs with h
  · rw [List.foldlM_cons, hread h]
    rfl
  · rw [hskip h]
    rfl

end Steps

/-- What the entries say, one after the other. -/
lemma read_entries (hr : r.Ordered) :
    (entriesOf r).foldlM (fun s e => readEntry s e.1 e.2) {} = some
      { repeat_ := r, frequencySeen := true, intervalSeen := decide (1 < r.interval)
        daysSeen := decide (r.weekdays ≠ []), monthDaySeen := decide (0 < r.monthDay) } := by
  obtain ⟨frequency, interval, weekdays, monthDay⟩ := r
  obtain ⟨⟨hinterval, -, hdays, -, hmonthDay, -⟩, hsorted⟩ := hr
  dsimp only at hinterval hdays hmonthDay hsorted
  unfold entriesOf
  dsimp only
  have hstepFreq : [(ascii "FREQ", frequencyName frequency)].foldlM
      (fun s e => readEntry s e.1 e.2) {} = some
        ({ repeat_ := { frequency }, frequencySeen := true } : Reading) := by
    rw [List.foldlM_cons, readEntry_freq rfl]
    rfl
  have hstepInterval : ∀ s : Reading, s.intervalSeen = false → s.repeat_.interval = 1 →
      (if 1 < interval then [(ascii "INTERVAL", toText interval)] else []).foldlM
        (fun s e => readEntry s e.1 e.2) s = some { s with
          repeat_ := { s.repeat_ with interval }, intervalSeen := decide (1 < interval) } := by
    intro s hseen hone
    refine readEntry_optional (fun h => ?_) fun h => ?_
    · rw [readEntry_interval hseen hinterval.1 hinterval.2, decide_eq_true h]
    · have heq : interval = 1 := by omega
      rw [decide_eq_false h, heq, ← hone, ← hseen]
  have hstepDays : ∀ s : Reading, s.daysSeen = false → s.repeat_.weekdays = [] →
      (if weekdays ≠ [] then [(ascii "BYDAY", byDayText weekdays)] else []).foldlM
        (fun s e => readEntry s e.1 e.2) s = some { s with
          repeat_ := { s.repeat_ with weekdays }, daysSeen := decide (weekdays ≠ []) } := by
    intro s hseen hnil
    refine readEntry_optional (fun h => ?_) fun h => ?_
    · rw [readEntry_days hseen hdays hsorted h, decide_eq_true h]
    · rw [decide_eq_false h, not_not.mp h, ← hnil, ← hseen]
  have hstepMonthDay : ∀ s : Reading, s.monthDaySeen = false → s.repeat_.monthDay = 0 →
      (if 0 < monthDay then [(ascii "BYMONTHDAY", toText monthDay)] else []).foldlM
        (fun s e => readEntry s e.1 e.2) s = some { s with
          repeat_ := { s.repeat_ with monthDay }, monthDaySeen := decide (0 < monthDay) } := by
    intro s hseen hzero
    refine readEntry_optional (fun h => ?_) fun h => ?_
    · rw [readEntry_monthDay hseen h hmonthDay.2, decide_eq_true h]
    · have heq : monthDay = 0 := by omega
      rw [decide_eq_false h, heq, ← hzero, ← hseen]
  rw [List.foldlM_append, List.foldlM_append, List.foldlM_append, hstepFreq]
  simp only [Option.bind_eq_bind, Option.bind_some]
  rw [hstepInterval _ rfl rfl, Option.bind_some, hstepDays _ rfl rfl, Option.bind_some,
    hstepMonthDay _ rfl rfl]

lemma format_ends (hr : r.WellFormed) :
    ¬(format r = [] ∨ (format r).getLast? = some kSep) := by
  have hwords : ∀ w ∈ (entriesOf r).map (Entries.written kEq), w ≠ [] ∧ kSep ∉ w := by
    intro w hw
    obtain ⟨e, he, rfl⟩ := List.mem_map.mp hw
    exact ⟨by simp [Entries.written], (entriesOf_spec hr e he).1⟩
  rintro (h | h)
  · simp [format, ascii] at h
  · rw [format_eq] at h
    exact getLast_join hwords h

theorem parse_format (hr : r.Ordered) : parse (format r) = some r := by
  have hspec := entriesOf_spec hr.toWellFormed
  have hread : Entries.read kSep kEq readEntry {} (format r) = some
      { repeat_ := r, frequencySeen := true, intervalSeen := decide (1 < r.interval)
        daysSeen := decide (r.weekdays ≠ []), monthDaySeen := decide (0 < r.monthDay) } := by
    rw [format_eq, Entries.read_join (fun e he => (hspec e he).1) fun e he => (hspec e he).2]
    exact read_entries hr
  have hweekly := hr.weekly
  have hmonthly : 0 < r.monthDay → r.frequency = .monthly := fun h => hr.monthly (by omega)
  rw [parse, if_neg (format_ends hr.toWellFormed), hread, Option.bind_some, if_neg (by simp),
    if_neg (by simpa using hweekly), if_neg (by simpa using hmonthly)]

/-! ### What is read is well formed -/

/-- The reading so far. -/
structure Reading.Fits (s : Reading) : Prop where
  interval : 1 ≤ s.repeat_.interval ∧ s.repeat_.interval ≤ kMaxInterval
  weekdays : ∀ day ∈ s.repeat_.weekdays, day < 7
  sorted : s.repeat_.weekdays.Pairwise (· < ·)
  days : s.repeat_.weekdays ≠ [] → s.daysSeen = true
  monthDay : 0 ≤ s.repeat_.monthDay ∧ s.repeat_.monthDay ≤ kLastMonthDay
  monthDays : s.repeat_.monthDay ≠ 0 → s.monthDaySeen = true

lemma numberIn_bounds (h : numberIn text high = some k) : 1 ≤ k ∧ k ≤ high := by
  unfold numberIn at h
  split at h
  next value =>
    obtain ⟨hout, h⟩ := Option.ite_none_left_eq_some.mp h
    obtain rfl := Option.some.inj h
    omega
  next => cases h

lemma weekdaysFrom_spec (h : weekdaysFrom acc text = some days) (hacc : ∀ day ∈ acc, day < 7)
    (hnodup : acc.Nodup) : (∀ day ∈ days, day < 7) ∧ days.Nodup := by
  induction text using (measure List.length).wf.induction generalizing acc with
  | _ text ih =>
    have hadd {part : Bytes} {days : List ℕ} (h : (if part ∈ kByDay then
        if kByDay.idxOf part ∈ acc then none else some (acc ++ [kByDay.idxOf part]) else none) =
          some days) : (∀ day ∈ days, day < 7) ∧ days.Nodup := by
      obtain ⟨hmem, h⟩ := Option.ite_none_right_eq_some.mp h
      obtain ⟨hnew, h⟩ := Option.ite_none_left_eq_some.mp h
      obtain rfl := Option.some.inj h
      have hlt : kByDay.idxOf part < 7 := List.idxOf_lt_length_of_mem hmem
      refine ⟨fun day hday => ?_, ?_⟩
      · rcases List.mem_append.mp hday with hday | hday
        · exact hacc day hday
        · rwa [List.mem_singleton.mp hday]
      · refine List.nodup_append.mpr ⟨hnodup, List.nodup_singleton _, ?_⟩
        rintro x hx y hy rfl
        exact hnew (List.mem_singleton.mp hy ▸ hx)
    rw [weekdaysFrom] at h
    split at h
    next => exact hadd h
    next part rest hcut =>
      obtain ⟨days', hfirst, hrest⟩ := Option.bind_eq_some_iff.mp h
      obtain ⟨hlt, hnodup'⟩ := hadd hfirst
      exact ih rest (Words.length_of_cut hcut) hrest hlt hnodup'

lemma mergeSort_spec (hdays : ∀ day ∈ days, day < 7) (hnodup : days.Nodup) :
    (∀ day ∈ days.mergeSort, day < 7) ∧ days.mergeSort.Pairwise (· < ·) := by
  refine ⟨fun day hday => hdays day (List.mem_mergeSort.mp hday), ?_⟩
  have hle : days.mergeSort.Pairwise (· ≤ ·) := by
    have h : days.mergeSort.Pairwise fun a b => decide (a ≤ b) = true :=
      List.pairwise_mergeSort (fun a b c => by simpa using Nat.le_trans)
        (fun a b => by simpa using Nat.le_total a b) days
    exact h.imp fun h => by simpa using h
  have hne : days.mergeSort.Pairwise (· ≠ ·) := (List.mergeSort_perm days _).nodup_iff.mpr hnodup
  exact (hle.and hne).imp fun h => Nat.lt_of_le_of_ne h.1 h.2

lemma weekdaysIn_spec (h : weekdaysIn text = some days) :
    (∀ day ∈ days, day < 7) ∧ days.Pairwise (· < ·) := by
  obtain ⟨found, hfound, rfl⟩ := Option.map_eq_some_iff.mp h
  obtain ⟨hlt, hnodup⟩ := weekdaysFrom_spec hfound (by simp) List.nodup_nil
  exact mergeSort_spec hlt hnodup

lemma Reading.Fits.readEntry {s s' : Reading} {key value : Bytes} (h : s.Fits)
    (hread : RepeatRule.readEntry s key value = some s') : s'.Fits := by
  unfold RepeatRule.readEntry at hread
  split_ifs at hread
  · obtain ⟨frequency, -, rfl⟩ := Option.map_eq_some_iff.mp hread
    exact ⟨h.interval, h.weekdays, h.sorted, h.days, h.monthDay, h.monthDays⟩
  · obtain ⟨interval, hnumber, rfl⟩ := Option.map_eq_some_iff.mp hread
    exact ⟨numberIn_bounds hnumber, h.weekdays, h.sorted, h.days, h.monthDay, h.monthDays⟩
  · obtain ⟨weekdays, hdays, rfl⟩ := Option.map_eq_some_iff.mp hread
    obtain ⟨hlt, hsorted⟩ := weekdaysIn_spec hdays
    exact ⟨h.interval, hlt, hsorted, fun _ => rfl, h.monthDay, h.monthDays⟩
  · obtain ⟨monthDay, hnumber, rfl⟩ := Option.map_eq_some_iff.mp hread
    have hbounds := numberIn_bounds hnumber
    exact ⟨h.interval, h.weekdays, h.sorted, h.days, ⟨by dsimp only; omega, hbounds.2⟩,
      fun _ => rfl⟩

theorem ordered_of_parse (h : parse text = some r) : r.Ordered := by
  unfold parse at h
  obtain ⟨-, h⟩ := Option.ite_none_left_eq_some.mp h
  obtain ⟨s, hread, h⟩ := Option.bind_eq_some_iff.mp h
  obtain ⟨-, h⟩ := Option.ite_none_left_eq_some.mp h
  obtain ⟨hdays, h⟩ := Option.ite_none_left_eq_some.mp h
  obtain ⟨hmonthDay, h⟩ := Option.ite_none_left_eq_some.mp h
  obtain rfl := Option.some.inj h
  have hstart : ({} : Reading).Fits :=
    ⟨by decide, by simp, by simp, by simp, by decide, by simp⟩
  have hfits := Entries.read_invariant hread hstart fun s key value s' hs => hs.readEntry
  refine ⟨⟨hfits.interval, hfits.sorted.imp fun h => Nat.ne_of_lt h, hfits.weekdays, fun hne => ?_,
    hfits.monthDay, fun hne => ?_⟩, hfits.sorted⟩
  · by_contra hother
    exact hdays ⟨hfits.days hne, hother⟩
  · by_contra hother
    exact hmonthDay ⟨hfits.monthDays hne, hother⟩

end TextForm

end RepeatRule

end Extract

end ArgusBackend
