import ArgusBackend.Library.Words
import Mathlib.Data.Fintype.Prod
import Mathlib.Data.Fin.Basic
import Mathlib.Data.Nat.Bitwise
import Mathlib.Tactic.Ring

/-!
# Schedules

A schedule is a text of windows with commas between them, each an optional day or range of days and
two clocks.

* `parseWindows`, `validWindows`, `inWindows` : the code;
* `IsWindow` : the grammar of a window;
* `Covers` : the minutes of the week of a window;
* `schedule_means` : the three agree on the texts, and the clock with the windows.
-/

namespace ArgusBackend

namespace Guard

namespace Schedule

/-- A text as its characters. -/
abbrev Text := List Char

/-- The names of the days. -/
def kDays : List Text :=
  ["sun".toList, "mon".toList, "tue".toList, "wed".toList, "thu".toList, "fri".toList, "sat".toList]

/-- A blank or a tab. -/
def isBlank (c : Char) : Bool := c = ' ' || c = '\t'

/-- A text without blanks at its ends. -/
def trim (text : Text) : Text := Words.strip isBlank text

/-- The name of a day. -/
def dayName (day : Fin 7) : Text := kDays.get day

/-- The day of a name. -/
def dayIndex (name : Text) : Option (Fin 7) := (List.finRange 7).find? fun i => dayName i = name

/-- The bit of a day. -/
def dayBit (day : Fin 7) : UInt8 := 1 <<< UInt8.ofNat day

/-- The loop over the days of a range, from `day` on. -/
def rangeFrom (mask : UInt8) (day last : Fin 7) : UInt8 :=
  if day = last then mask ||| dayBit day else rangeFrom (mask ||| dayBit day) (day + 1) last
termination_by (last - day).val
decreasing_by
  have hdays : ∀ day last : Fin 7, day ≠ last → (last - (day + 1)).val < (last - day).val := by
    decide
  exact hdays day last ‹_›

/-- A day or a range of days, as a mask. -/
def parseDays (text : Text) : Option UInt8 :=
  match Words.cut '-' text with
  | none => (dayIndex text).map dayBit
  | some (first, last) =>
    match dayIndex first, dayIndex last with
    | some first, some last => some (rangeFrom 0 first last)
    | _, _ => none

/-- The value of a digit. -/
def digit (c : Char) : ℤ := (c.toNat : ℤ) - 48

/-- A time of the day, in minutes. -/
def parseClock : Text → Option ℤ
  | [h, h', colon, m, m'] =>
    if colon ≠ ':' then none
    else if !(h.isDigit && h'.isDigit && m.isDigit && m'.isDigit) then none
    else
      let hours := digit h * 10 + digit h'
      let minutes := digit m * 10 + digit m'
      if hours > 24 ∨ minutes > 59 ∨ (hours = 24 ∧ minutes ≠ 0) then none
      else some (hours * 60 + minutes)
  | _ => none

/-- A window: its days and its two times. -/
structure GuardWindow where
  days : UInt8 := 0x7F
  startMinute : ℤ
  endMinute : ℤ
  deriving DecidableEq

/-- What is left of a window after its days. -/
def parseClocks (days : UInt8) (text : Text) : Option GuardWindow :=
  match Words.cut '-' text with
  | none => none
  | some (first, last) =>
    match parseClock (trim first), parseClock (trim last) with
    | some startMinute, some endMinute =>
      if startMinute = endMinute then none else some { days, startMinute, endMinute }
    | _, _ => none

/-- A window with or without days. -/
def parseWindow (text : Text) : Option GuardWindow :=
  let text := trim text
  match Words.cut ' ' text with
  | none => parseClocks 0x7F text
  | some (first, rest) =>
    match parseDays (trim first) with
    | none => none
    | some days => parseClocks days (trim rest)

/-- A day is in a mask. -/
def dayIn (mask : UInt8) (day : ℤ) : Bool :=
  mask &&& (1 <<< UInt8.ofNat ((day.tmod 7 + 7).tmod 7).toNat) ≠ 0

/-- The windows between commas; what is no window is left out. -/
def parseWindows (rest : Text) : List GuardWindow :=
  if rest = [] then []
  else
    match _h : Words.cut ',' rest with
    | none => (parseWindow rest).toList
    | some (part, rest') => (parseWindow part).toList ++ parseWindows rest'
termination_by rest.length
decreasing_by exact Words.length_of_cut _h

/-- The loop of `validWindows`. -/
def validParts (rest : Text) : Bool :=
  match _h : Words.cut ',' rest with
  | none => (parseWindow rest).isSome
  | some (part, rest') => (parseWindow part).isSome && validParts rest'
termination_by rest.length
decreasing_by exact Words.length_of_cut _h

/-- Every part of a text is a window, or it is blank. -/
def validWindows (spec : Text) : Bool := trim spec = [] || validParts spec

/-- The fields of `std::tm` that are read. -/
structure Local where
  tm_wday : ℤ
  tm_hour : ℤ
  tm_min : ℤ
  deriving DecidableEq

/-- A minute is in a window, which may go over midnight. -/
def inWindow (day minute : ℤ) (window : GuardWindow) : Bool :=
  if window.startMinute < window.endMinute then
    dayIn window.days day && window.startMinute ≤ minute && minute < window.endMinute
  else
    (dayIn window.days day && window.startMinute ≤ minute) ||
      (dayIn window.days (day - 1) && minute < window.endMinute)

/-- A local time is in one of the windows. -/
def inWindows (windows : List GuardWindow) (l : Local) : Bool :=
  windows.any (inWindow l.tm_wday (l.tm_hour * 60 + l.tm_min))

/-! ### The grammar -/

/-- A day or a range of days, which goes on through the end of the week. -/
def IsDays (text : Text) (days : Fin 7 → Prop) : Prop :=
  (∃ day, text = dayName day ∧ days = (· = day)) ∨
    ∃ first last, text = dayName first ++ '-' :: dayName last ∧
      days = fun day => (day - first).val ≤ (last - first).val

/-- A number in two digits. -/
def two (n : ℕ) : Text := [Nat.digitChar (n / 10), Nat.digitChar (n % 10)]

/-- A clock from `00:00` to `24:00`. -/
def IsClock (text : Text) (minute : ℤ) : Prop :=
  ∃ hours minutes : ℕ, minutes < 60 ∧ hours * 60 + minutes ≤ 1440 ∧
    text = two hours ++ ':' :: two minutes ∧ minute = (hours * 60 + minutes : ℕ)

/-- Only blanks and tabs. -/
def Blanks (text : Text) : Prop := ∀ c ∈ text, isBlank c = true

/-- Only tabs. -/
def Tabs (text : Text) : Prop := ∀ c ∈ text, c = '\t'

/-- The days of a mask. -/
def daysOf (mask : UInt8) (day : Fin 7) : Prop := mask &&& dayBit day ≠ 0

/-- A window with its days.  A space stands after the days, and blanks may stand between all parts
of a window; without days, there are no spaces inside. -/
def IsWindow (part : Text) (window : GuardWindow) : Prop :=
  ∃ left right start stop, Blanks left ∧ Blanks right ∧ IsClock start window.startMinute ∧
    IsClock stop window.endMinute ∧ window.startMinute ≠ window.endMinute ∧
    ((window.days = 0x7F ∧ ∃ gap gap', Tabs gap ∧ Tabs gap' ∧
        part = left ++ (start ++ gap ++ '-' :: gap' ++ stop) ++ right) ∨
      ∃ days tabs blanks gap gap', IsDays days (daysOf window.days) ∧ window.days < 128 ∧
        Tabs tabs ∧ Blanks blanks ∧ Blanks gap ∧ Blanks gap' ∧
        part = left ++ (days ++ tabs ++ ' ' :: blanks ++ start ++ gap ++ '-' :: gap' ++ stop) ++
          right)

/-! ### Days -/

theorem daysOf_iff {mask : UInt8} {day : Fin 7} :
    daysOf mask day ↔ mask.toNat.testBit day = true := by
  have hbit : (dayBit day).toNat = 2 ^ day.val := by
    revert day
    decide
  rw [daysOf, ← UInt8.toNat_inj.ne, UInt8.toNat_and, hbit, Nat.and_two_pow]
  cases mask.toNat.testBit day <;> simp

theorem daysOf_or {mask : UInt8} {day d : Fin 7} :
    daysOf (mask ||| dayBit day) d ↔ daysOf mask d ∨ d = day := by
  have hbit : ∀ day d : Fin 7, (dayBit day).toNat.testBit d = true ↔ d = day := by decide
  rw [daysOf_iff, UInt8.toNat_or, Nat.testBit_or, Bool.or_eq_true, hbit, daysOf_iff]

theorem daysOf_zero {d : Fin 7} : ¬daysOf 0 d := by
  simp [daysOf]

theorem or_dayBit_lt {mask : UInt8} {day : Fin 7} (h : mask < 128) : mask ||| dayBit day < 128 := by
  have hbit : ∀ day : Fin 7, (dayBit day).toNat < 2 ^ 7 := by decide
  rw [UInt8.lt_iff_toNat_lt, UInt8.toNat_or]
  exact Nat.or_lt_two_pow h (hbit day)

/-- A mask is known by its days. -/
theorem mask_ext {mask mask' : UInt8} (h : mask < 128) (h' : mask' < 128)
    (hdays : daysOf mask = daysOf mask') : mask = mask' := by
  apply UInt8.toNat_inj.1
  apply Nat.eq_of_testBit_eq
  intro i
  by_cases hi : i < 7
  · have hday := congrFun hdays ⟨i, hi⟩
    rw [eq_iff_iff, daysOf_iff, daysOf_iff] at hday
    exact Bool.eq_iff_iff.2 hday
  · have hpow : 2 ^ 7 ≤ 2 ^ i := Nat.pow_le_pow_right (by decide) (by omega)
    rw [UInt8.lt_iff_toNat_lt] at h h'
    rw [Nat.testBit_lt_two_pow (lt_of_lt_of_le h hpow),
      Nat.testBit_lt_two_pow (lt_of_lt_of_le h' hpow)]

theorem rangeFrom_spec (mask : UInt8) (day last d : Fin 7) :
    daysOf (rangeFrom mask day last) d ↔
      daysOf mask d ∨ (d - day).val ≤ (last - day).val := by
  fun_induction rangeFrom mask day last with
  | case1 mask =>
    have hsame : ∀ d last : Fin 7, (d - last).val ≤ (last - last).val ↔ d = last := by
      decide +kernel
    rw [daysOf_or, hsame]
  | case2 mask day hne ih =>
    have hnext : ∀ d day last : Fin 7, day ≠ last → ((d - day).val ≤ (last - day).val ↔
        d = day ∨ (d - (day + 1)).val ≤ (last - (day + 1)).val) := by decide +kernel
    rw [ih, daysOf_or, or_assoc, hnext d day last hne]

theorem rangeFrom_lt {mask : UInt8} (h : mask < 128) (day last : Fin 7) :
    rangeFrom mask day last < 128 := by
  fun_induction rangeFrom mask day last with
  | case1 mask => exact or_dayBit_lt h
  | case2 mask day hne ih => exact ih (or_dayBit_lt h)

theorem dayIndex_eq {name : Text} {day : Fin 7} : dayIndex name = some day ↔ name = dayName day := by
  constructor
  · intro h
    have hname := List.find?_some h
    exact (of_decide_eq_true hname).symm
  · rintro rfl
    revert day
    decide

theorem parseDays_eq {text : Text} {mask : UInt8} :
    parseDays text = some mask ↔ IsDays text (daysOf mask) ∧ mask < 128 := by
  have hone (day : Fin 7) : daysOf (dayBit day) = (· = day) := by
    funext d
    have h : daysOf (0 ||| dayBit day) d ↔ daysOf 0 d ∨ d = day := daysOf_or
    simpa [daysOf_zero] using h
  have hone_lt (day : Fin 7) : dayBit day < 128 := by
    revert day
    decide
  have hrange (first last : Fin 7) : daysOf (rangeFrom 0 first last) =
      fun day => (day - first).val ≤ (last - first).val := by
    funext d
    rw [eq_iff_iff, rangeFrom_spec]
    exact or_iff_right daysOf_zero
  have hdash : ∀ day : Fin 7, '-' ∉ dayName day := by decide
  constructor
  · intro h
    unfold parseDays at h
    split at h
    next hcut =>
      obtain ⟨day, hday, rfl⟩ := Option.map_eq_some_iff.1 h
      exact ⟨.inl ⟨day, dayIndex_eq.1 hday, hone day⟩, hone_lt day⟩
    next first last hcut =>
      obtain ⟨rfl, -⟩ := Words.cut_eq_some.1 hcut
      split at h
      next first last hfirst hlast =>
        obtain rfl := Option.some.inj h
        exact ⟨.inr ⟨first, last, by rw [dayIndex_eq.1 hfirst, dayIndex_eq.1 hlast],
          hrange first last⟩, rangeFrom_lt (by decide) first last⟩
      next => cases h
  · rintro ⟨⟨day, rfl, hdays⟩ | ⟨first, last, rfl, hdays⟩, hlt⟩
    · rw [parseDays, Words.cut_eq_none.2 (hdash day)]
      simp only
      rw [dayIndex_eq.2 rfl, Option.map_some,
        mask_ext (hone_lt day) hlt ((hone day).trans hdays.symm)]
    · rw [parseDays, Words.cut_eq_some.2 ⟨rfl, hdash first⟩]
      simp only
      rw [dayIndex_eq.2 rfl, dayIndex_eq.2 rfl]
      simp only
      rw [mask_ext (rangeFrom_lt (by decide) first last) hlt ((hrange first last).trans hdays.symm)]

/-! ### Clocks -/

theorem digitChar_digit {c : Char} (h : c.isDigit = true) :
    ∃ n : ℕ, n < 10 ∧ digit c = n ∧ c = Nat.digitChar n := by
  have hrange : 48 ≤ c.toNat ∧ c.toNat ≤ 57 := by
    simp only [Char.isDigit, Bool.and_eq_true, decide_eq_true_eq] at h
    exact ⟨h.1, h.2⟩
  refine ⟨c.toNat - 48, by omega, by simp only [digit]; omega, ?_⟩
  apply Char.toNat_inj.1
  rw [Nat.toNat_digitChar_of_lt_ten (by omega)]
  omega

theorem digit_digitChar {n : ℕ} (h : n < 10) :
    (Nat.digitChar n).isDigit = true ∧ digit (Nat.digitChar n) = n := by
  have hall : ∀ n : Fin 10, (Nat.digitChar n).isDigit = true ∧ digit (Nat.digitChar n) = n.val := by
    decide
  exact hall ⟨n, h⟩

theorem parseClock_eq {text : Text} {minute : ℤ} :
    parseClock text = some minute ↔ IsClock text minute := by
  constructor
  · intro h
    unfold parseClock at h
    split at h
    next h₁ h₂ colon m₁ m₂ =>
      split_ifs at h with hcolon hdigits
      dsimp only at h
      split_ifs at h with hrange
      obtain rfl := Option.some.inj h
      simp only [Bool.not_eq_true, Bool.not_eq_false', Bool.and_eq_true] at hdigits
      obtain ⟨⟨⟨hd₁, hd₂⟩, hd₃⟩, hd₄⟩ := hdigits
      obtain ⟨a, ha, heqa, rfl⟩ := digitChar_digit hd₁
      obtain ⟨b, hb, heqb, rfl⟩ := digitChar_digit hd₂
      obtain ⟨c, hc, heqc, rfl⟩ := digitChar_digit hd₃
      obtain ⟨d, hd, heqd, rfl⟩ := digitChar_digit hd₄
      rw [not_not] at hcolon
      subst hcolon
      rw [heqa, heqb, heqc, heqd] at hrange ⊢
      have hdiv : (a * 10 + b) / 10 = a ∧ (a * 10 + b) % 10 = b := by omega
      have hdiv' : (c * 10 + d) / 10 = c ∧ (c * 10 + d) % 10 = d := by omega
      refine ⟨a * 10 + b, c * 10 + d, by omega, by omega, ?_, by push_cast; ring⟩
      rw [two, two, hdiv.1, hdiv.2, hdiv'.1, hdiv'.2]
      rfl
    next => cases h
  · rintro ⟨hours, minutes, hminutes, hday, rfl, rfl⟩
    obtain ⟨hd₁, heq₁⟩ := digit_digitChar (show hours / 10 < 10 by omega)
    obtain ⟨hd₂, heq₂⟩ := digit_digitChar (show hours % 10 < 10 by omega)
    obtain ⟨hd₃, heq₃⟩ := digit_digitChar (show minutes / 10 < 10 by omega)
    obtain ⟨hd₄, heq₄⟩ := digit_digitChar (show minutes % 10 < 10 by omega)
    simp only [two, List.cons_append, List.nil_append, parseClock, hd₁, hd₂, hd₃, hd₄, heq₁, heq₂,
      heq₃, heq₄]
    rw [if_neg (by simp), if_neg (by simp), if_neg (by omega)]
    congr 1
    omega

/-! ### Windows -/

theorem trim_append {left right text : Text} (hleft : Blanks left) (hright : Blanks right)
    (hne : text ≠ []) (hhead : isBlank (text.head hne) = false)
    (hlast : isBlank (text.getLast hne) = false) : trim (left ++ text ++ right) = text :=
  Words.strip_append hleft hright hne hhead hlast

/-- A text that starts and ends with letters. -/
def Solid (text : Text) : Prop :=
  ∃ hne : text ≠ [], isBlank (text.head hne) = false ∧ isBlank (text.getLast hne) = false

theorem Solid.append {a b : Text} (ha : Solid a) (hb : Solid b) (mid : Text) :
    Solid (a ++ mid ++ b) := by
  obtain ⟨hne, hhead, -⟩ := ha
  obtain ⟨hne', -, hlast⟩ := hb
  refine ⟨by simp [hne], ?_, ?_⟩
  · rwa [List.head_append_of_ne_nil (by simp [hne]), List.head_append_of_ne_nil hne]
  · rwa [List.getLast_append_of_ne_nil _ hne']

theorem Solid.trim {text : Text} (h : Solid text) {left right : Text} (hleft : Blanks left)
    (hright : Blanks right) : trim (left ++ text ++ right) = text :=
  trim_append hleft hright h.1 h.2.1 h.2.2

theorem IsClock.chars {text : Text} {minute : ℤ} (h : IsClock text minute) :
    ∀ c ∈ text, isBlank c = false ∧ c ≠ '-' := by
  have hdigit : ∀ n : Fin 10, isBlank (Nat.digitChar n) = false ∧ Nat.digitChar n ≠ '-' := by decide
  obtain ⟨hours, minutes, hminutes, hday, rfl, -⟩ := h
  have hchar {n : ℕ} (hn : n < 10) := hdigit ⟨n, hn⟩
  simp only [two, List.cons_append, List.nil_append, List.forall_mem_cons]
  exact ⟨hchar (by omega), hchar (by omega), by decide, hchar (by omega), hchar (by omega), by simp⟩

theorem solid_of_chars {text : Text} (hne : text ≠ []) (h : ∀ c ∈ text, isBlank c = false) :
    Solid text :=
  ⟨hne, h _ (List.head_mem hne), h _ (List.getLast_mem hne)⟩

theorem IsClock.solid {text : Text} {minute : ℤ} (h : IsClock text minute) : Solid text := by
  refine solid_of_chars ?_ fun c hc => (h.chars c hc).1
  obtain ⟨hours, minutes, -, -, rfl, -⟩ := h
  simp [two]

theorem IsDays.chars {text : Text} {days : Fin 7 → Prop} (h : IsDays text days) :
    text ≠ [] ∧ ∀ c ∈ text, isBlank c = false := by
  have hname : ∀ day : Fin 7, dayName day ≠ [] ∧ ∀ c ∈ dayName day, isBlank c = false := by
    have hall : ∀ day : Fin 7, dayName day ≠ [] ∧
        (dayName day).all (fun c => !isBlank c) = true := by decide
    exact fun day => ⟨(hall day).1, fun c hc => by
      simpa using List.all_eq_true.1 (hall day).2 c hc⟩
  rcases h with ⟨day, rfl, -⟩ | ⟨first, last, rfl, -⟩
  · exact hname day
  · refine ⟨by simp, fun c hc => ?_⟩
    rcases List.mem_append.1 hc with hc | hc
    · exact (hname first).2 c hc
    · rcases List.mem_cons.1 hc with rfl | hc
      · decide
      · exact (hname last).2 c hc

theorem Tabs.blanks {text : Text} (h : Tabs text) : Blanks text := fun c hc => h c hc ▸ rfl

theorem Blanks.tabs {text : Text} (h : Blanks text) (hspace : ' ' ∉ text) : Tabs text := by
  intro c hc
  have hblank := h c hc
  simp only [isBlank, Bool.or_eq_true, decide_eq_true_eq] at hblank
  exact hblank.resolve_left fun heq => hspace (heq ▸ hc)

theorem Blanks.not_mem {text : Text} (h : Blanks text) {c : Char} (hc : isBlank c = false) :
    c ∉ text := fun hmem => by
  have := h c hmem
  simp [hc] at this

theorem trim_spec (text : Text) : ∃ left right, Blanks left ∧ Blanks right ∧
    text = left ++ trim text ++ right := Words.strip_spec text

theorem parseClocks_eq {days : UInt8} {text : Text} {window : GuardWindow} :
    parseClocks days text = some window ↔ ∃ left right start stop gap gap', Blanks left ∧
      Blanks right ∧ Blanks gap ∧ Blanks gap' ∧ IsClock start window.startMinute ∧
      IsClock stop window.endMinute ∧ window.startMinute ≠ window.endMinute ∧ window.days = days ∧
      text = left ++ start ++ gap ++ '-' :: (gap' ++ stop ++ right) := by
  constructor
  · intro h
    unfold parseClocks at h
    split at h
    next => cases h
    next first last hcut =>
      obtain ⟨rfl, -⟩ := Words.cut_eq_some.1 hcut
      split at h
      next startMinute endMinute hstart hstop =>
        split_ifs at h with hne
        obtain rfl := Option.some.inj h
        obtain ⟨left, gap, hleft, hgap, hfirst⟩ := trim_spec first
        obtain ⟨gap', right, hgap', hright, hlast⟩ := trim_spec last
        refine ⟨left, right, trim first, trim last, gap, gap', hleft, hright, hgap, hgap',
          parseClock_eq.1 hstart, parseClock_eq.1 hstop, hne, rfl, ?_⟩
        rw [← hfirst, ← hlast]
      next => cases h
  · rintro ⟨left, right, start, stop, gap, gap', hleft, hright, hgap, hgap', hstart, hstop, hne,
      rfl, rfl⟩
    have hdash : '-' ∉ left ++ start ++ gap := by
      simp only [List.mem_append, not_or]
      exact ⟨⟨hleft.not_mem rfl, fun hmem => (hstart.chars _ hmem).2 rfl⟩, hgap.not_mem rfl⟩
    rw [parseClocks, Words.cut_eq_some.2 ⟨rfl, hdash⟩]
    simp only
    rw [hstart.solid.trim hleft hgap, hstop.solid.trim hgap' hright, parseClock_eq.2 hstart,
      parseClock_eq.2 hstop]
    simp only
    rw [if_neg hne]

theorem Blanks.append {a b : Text} (ha : Blanks a) (hb : Blanks b) : Blanks (a ++ b) := by
  intro c hc
  rcases List.mem_append.1 hc with hc | hc
  · exact ha c hc
  · exact hb c hc

/-- The parser takes the windows of the grammar. -/
theorem parseWindow_eq {part : Text} {window : GuardWindow} :
    parseWindow part = some window ↔ IsWindow part window := by
  have hnil : Blanks [] := fun c hc => (nomatch hc)
  constructor
  · intro h
    obtain ⟨l, r, hl, hr, hpart⟩ := trim_spec part
    unfold parseWindow at h
    dsimp only at h
    split at h
    next hcut =>
      obtain ⟨left, right, start, stop, gap, gap', hleft, hright, hgap, hgap', hstart, hstop, hne,
        hdays, htext⟩ := parseClocks_eq.1 h
      have hspace := Words.cut_eq_none.1 hcut
      rw [htext] at hspace
      simp only [List.mem_append, List.mem_cons, not_or] at hspace
      refine ⟨l ++ left, right ++ r, start, stop, hl.append hleft, hright.append hr, hstart, hstop,
        hne, .inl ⟨hdays, gap, gap', hgap.tabs hspace.1.2, hgap'.tabs hspace.2.2.1.1, ?_⟩⟩
      rw [hpart, htext]
      simp only [List.append_assoc, List.cons_append]
    next first rest hcut =>
      obtain ⟨htext, hspace⟩ := Words.cut_eq_some.1 hcut
      split at h
      next => cases h
      next mask hmask =>
        obtain ⟨left, right, start, stop, gap, gap', hleft, hright, hgap, hgap', hstart, hstop, hne,
          rfl, hclocks⟩ := parseClocks_eq.1 h
        obtain ⟨hdays, hlt⟩ := parseDays_eq.1 hmask
        obtain ⟨l', tabs, hl', htabs, hfirst⟩ := trim_spec first
        obtain ⟨blanks, r', hblanks, hr', hrest⟩ := trim_spec rest
        rw [hfirst] at hspace
        simp only [List.mem_append, not_or] at hspace
        refine ⟨l ++ l', right ++ r' ++ r, start, stop, hl.append hl',
          (hright.append hr').append hr, hstart, hstop, hne, .inr ⟨trim first, tabs,
          blanks ++ left, gap, gap', hdays, hlt, htabs.tabs hspace.2, hblanks.append hleft, hgap,
          hgap', ?_⟩⟩
        have hjoin : first ++ ' ' :: rest = (l' ++ trim first ++ tabs) ++ ' ' :: (blanks ++
            (left ++ start ++ gap ++ '-' :: (gap' ++ stop ++ right)) ++ r') := by
          rw [← hfirst, ← hclocks, ← hrest]
        rw [hpart, htext, hjoin]
        simp only [List.append_assoc, List.cons_append]
  · rintro ⟨left, right, start, stop, hleft, hright, hstart, hstop, hne, hform⟩
    rcases hform with ⟨hdays, gap, gap', hgap, hgap', rfl⟩ |
      ⟨days, tabs, blanks, gap, gap', hdays, hlt, htabs, hblanks, hgap, hgap', rfl⟩
    · have hsolid : Solid (start ++ gap ++ '-' :: gap' ++ stop) := by
        have h := hstart.solid.append hstop.solid (gap ++ '-' :: gap')
        rwa [← List.append_assoc] at h
      have hspace : ' ' ∉ start ++ gap ++ '-' :: gap' ++ stop := by
        have htab {text : Text} (h : Tabs text) : ' ' ∉ text := fun hmem => by
          have := h _ hmem
          cases this
        simp only [List.mem_append, List.mem_cons, not_or]
        exact ⟨⟨⟨fun hmem => by simpa [isBlank] using (hstart.chars _ hmem).1, htab hgap⟩,
          by decide, htab hgap'⟩, fun hmem => by simpa [isBlank] using (hstop.chars _ hmem).1⟩
      rw [parseWindow, hsolid.trim hleft hright, Words.cut_eq_none.2 hspace]
      refine parseClocks_eq.2 ⟨[], [], start, stop, gap, gap', hnil, hnil, hgap.blanks,
        hgap'.blanks, hstart, hstop, hne, hdays, ?_⟩
      simp
    · have hsolid : Solid (days ++ (tabs ++ ' ' :: (blanks ++ (start ++ (gap ++ '-' :: gap')))) ++
          stop) := (solid_of_chars hdays.chars.1 hdays.chars.2).append hstop.solid _
      have hclocks : Solid (start ++ (gap ++ '-' :: gap') ++ stop) :=
        hstart.solid.append hstop.solid _
      have hspace : ' ' ∉ days ++ tabs := by
        rw [List.mem_append, not_or]
        refine ⟨fun hmem => by simpa [isBlank] using hdays.chars.2 _ hmem, fun hmem => ?_⟩
        have := htabs _ hmem
        cases this
      have htext : days ++ tabs ++ ' ' :: blanks ++ start ++ gap ++ '-' :: gap' ++ stop =
          days ++ (tabs ++ ' ' :: (blanks ++ (start ++ (gap ++ '-' :: gap')))) ++ stop := by
        simp only [List.append_assoc, List.cons_append]
      have hcut : days ++ (tabs ++ ' ' :: (blanks ++ (start ++ (gap ++ '-' :: gap')))) ++ stop =
          (days ++ tabs) ++ ' ' :: (blanks ++ (start ++ (gap ++ '-' :: gap') ++ stop) ++ []) := by
        simp only [List.append_assoc, List.cons_append, List.append_nil]
      have hfirst := (solid_of_chars hdays.chars.1 hdays.chars.2).trim hnil htabs.blanks
      rw [List.nil_append] at hfirst
      rw [htext, parseWindow, hsolid.trim hleft hright, hcut, Words.cut_eq_some.2 ⟨rfl, hspace⟩]
      simp only
      rw [hfirst, parseDays_eq.2 ⟨hdays, hlt⟩]
      simp only
      rw [hclocks.trim hblanks hnil]
      refine parseClocks_eq.2 ⟨[], [], start, stop, gap, gap', hnil, hnil, hgap, hgap', hstart,
        hstop, hne, rfl, ?_⟩
      simp

/-! ### Schedules -/

theorem parseWindows_eq (spec : Text) :
    parseWindows spec = (Words.pieces ',' spec).filterMap parseWindow := by
  fun_induction parseWindows spec with
  | case1 => rfl
  | case2 rest hne hcut =>
    rw [Words.pieces_of_not_mem (Words.cut_eq_none.1 hcut)]
    cases h : parseWindow rest <;> simp [h]
  | case3 rest hne part rest' hcut ih =>
    rw [Words.pieces_of_cut hcut, List.filterMap_cons, ih]
    cases parseWindow part <;> rfl

theorem validParts_eq (spec : Text) :
    validParts spec = (Words.pieces ',' spec).all fun part => (parseWindow part).isSome := by
  fun_induction validParts spec with
  | case1 rest hcut =>
    rw [Words.pieces_of_not_mem (Words.cut_eq_none.1 hcut)]
    simp
  | case2 rest part rest' hcut ih =>
    rw [Words.pieces_of_cut hcut, List.all_cons, ih]

theorem trim_eq_nil {text : Text} : trim text = [] ↔ Blanks text := by
  constructor
  · intro h
    obtain ⟨l, r, hl, hr, htext⟩ := trim_spec text
    rw [h, List.append_nil] at htext
    exact htext ▸ hl.append hr
  · intro h
    rw [trim, Words.strip, List.dropWhile_eq_nil_iff.2 h]
    rfl

theorem isSome_parseWindow {part : Text} :
    (parseWindow part).isSome = true ↔ ∃ window, IsWindow part window := by
  rw [Option.isSome_iff_exists]
  exact exists_congr fun window => parseWindow_eq

theorem parseWindow_blanks {text : Text} (h : Blanks text) : parseWindow text = none := by
  rw [parseWindow, trim_eq_nil.2 h]
  rfl

/-! ### The clock -/

/-- The minute of the week is in the interval that starts on `day`, up to whole weeks. -/
def Covers (window : GuardWindow) (day : Fin 7) (minute : ℤ) : Prop :=
  ∃ week : ℤ, day * 1440 + window.startMinute ≤ minute + week * 10080 ∧
    minute + week * 10080 <
      (if window.endMinute < window.startMinute then (day : ℤ) + 1 else day) * 1440 +
        window.endMinute

theorem IsClock.range {text : Text} {minute : ℤ} (h : IsClock text minute) :
    0 ≤ minute ∧ minute ≤ 1440 := by
  obtain ⟨hours, minutes, hminutes, hday, -, rfl⟩ := h
  omega

theorem IsWindow.range {part : Text} {window : GuardWindow} (h : IsWindow part window) :
    (0 ≤ window.startMinute ∧ window.startMinute ≤ 1440) ∧
      (0 ≤ window.endMinute ∧ window.endMinute ≤ 1440) ∧
        window.startMinute ≠ window.endMinute := by
  obtain ⟨left, right, start, stop, -, -, hstart, hstop, hne, -⟩ := h
  exact ⟨hstart.range, hstop.range, hne⟩

theorem dayIn_iff {mask : UInt8} {day : Fin 7} : dayIn mask day = true ↔ daysOf mask day := by
  have hday : UInt8.ofNat (((day : ℤ).tmod 7 + 7).tmod 7).toNat = UInt8.ofNat day := by
    revert day
    decide
  rw [dayIn, hday, decide_eq_true_eq]
  rfl

theorem dayIn_before_iff {mask : UInt8} {day : Fin 7} :
    dayIn mask ((day : ℤ) - 1) = true ↔ daysOf mask (day - 1) := by
  have hday : UInt8.ofNat ((((day : ℤ) - 1).tmod 7 + 7).tmod 7).toNat =
      UInt8.ofNat (day - 1 : Fin 7) := by
    revert day
    decide
  rw [dayIn, hday, decide_eq_true_eq]
  rfl

/-- On one day. -/
theorem covers_of_lt {window : GuardWindow} (hstart : 0 ≤ window.startMinute)
    (hend : window.endMinute ≤ 1440) (hlt : window.startMinute < window.endMinute)
    (day today : Fin 7) {minute : ℤ} (hmin : 0 ≤ minute) (hmin' : minute < 1440) :
    Covers window day (today * 1440 + minute) ↔
      day = today ∧ window.startMinute ≤ minute ∧ minute < window.endMinute := by
  rw [Covers, if_neg (by omega)]
  constructor
  · rintro ⟨week, hle, hlt'⟩
    refine ⟨?_, ?_, ?_⟩ <;> omega
  · rintro ⟨rfl, hle, hlt'⟩
    exact ⟨0, by omega, by omega⟩

/-- Through midnight. -/
theorem covers_of_gt {window : GuardWindow} (hstart : window.startMinute ≤ 1440)
    (hend : 0 ≤ window.endMinute) (hlt : window.endMinute < window.startMinute)
    (day today : Fin 7) {minute : ℤ} (hmin : 0 ≤ minute) (hmin' : minute < 1440) :
    Covers window day (today * 1440 + minute) ↔
      (day = today ∧ window.startMinute ≤ minute) ∨
        (day = today - 1 ∧ minute < window.endMinute) := by
  have hbefore : ∀ day today : Fin 7, day = today - 1 ↔
      (day : ℤ) + 1 = today ∨ ((day : ℤ) = 6 ∧ (today : ℤ) = 0) := by decide
  rw [Covers, if_pos hlt, hbefore]
  constructor
  · rintro ⟨week, hle, hlt'⟩
    by_cases hday : day = today
    · exact .inl ⟨hday, by omega⟩
    · exact .inr ⟨by omega, by omega⟩
  · rintro (⟨rfl, hle⟩ | ⟨hday | ⟨hday, htoday⟩, hlt'⟩)
    · exact ⟨0, by omega, by omega⟩
    · exact ⟨0, by omega, by omega⟩
    · exact ⟨1, by omega, by omega⟩

theorem inWindow_iff {part : Text} {window : GuardWindow} (h : IsWindow part window) (today : Fin 7)
    {minute : ℤ} (hmin : 0 ≤ minute) (hmin' : minute < 1440) :
    inWindow today minute window = true ↔
      ∃ day, daysOf window.days day ∧ Covers window day (today * 1440 + minute) := by
  obtain ⟨⟨hstart, hstart'⟩, ⟨hend, hend'⟩, hne⟩ := h.range
  rw [inWindow]
  split_ifs with hlt
  · simp only [covers_of_lt hstart hend' hlt _ today hmin hmin', Bool.and_eq_true,
      decide_eq_true_eq, dayIn_iff]
    constructor
    · rintro ⟨⟨hday, hle⟩, hlt'⟩
      exact ⟨today, hday, rfl, hle, hlt'⟩
    · rintro ⟨day, hday, rfl, hle, hlt'⟩
      exact ⟨⟨hday, hle⟩, hlt'⟩
  · simp only [covers_of_gt hstart' hend (by omega) _ today hmin hmin', Bool.or_eq_true,
      Bool.and_eq_true, decide_eq_true_eq, dayIn_iff, dayIn_before_iff]
    constructor
    · rintro (⟨hday, hle⟩ | ⟨hday, hlt'⟩)
      · exact ⟨today, hday, .inl ⟨rfl, hle⟩⟩
      · exact ⟨today - 1, hday, .inr ⟨rfl, hlt'⟩⟩
    · rintro ⟨day, hday, ⟨rfl, hle⟩ | ⟨rfl, hlt'⟩⟩
      · exact .inl ⟨hday, hle⟩
      · exact .inr ⟨hday, hlt'⟩

/-! ### The three -/

theorem forall₂_filterMap {parts : List Text} (h : ∀ part ∈ parts, ∃ window, IsWindow part window) :
    List.Forall₂ IsWindow parts (parts.filterMap parseWindow) := by
  induction parts with
  | nil => exact .nil
  | cons part parts ih =>
    obtain ⟨window, hwindow⟩ := h part List.mem_cons_self
    rw [List.filterMap_cons_some (parseWindow_eq.2 hwindow)]
    exact .cons hwindow (ih fun part hpart => h part (List.mem_cons_of_mem _ hpart))

theorem validWindows_iff (spec : Text) : validWindows spec = true ↔
    Blanks spec ∨ ∀ part ∈ Words.pieces ',' spec, ∃ window, IsWindow part window := by
  rw [validWindows, Bool.or_eq_true, decide_eq_true_eq, trim_eq_nil, validParts_eq, List.all_eq_true]
  simp only [isSome_parseWindow]

open Classical in
/-- The windows of a text are the windows of its parts, in order. -/
theorem parseWindows_spec (spec : Text) :
    List.Forall₂ IsWindow
      ((Words.pieces ',' spec).filter fun part => ∃ window, IsWindow part window)
      (parseWindows spec) := by
  have hfilter : parseWindows spec =
      ((Words.pieces ',' spec).filter fun part => ∃ window, IsWindow part window).filterMap
        parseWindow := by
    rw [parseWindows_eq, List.filterMap_filter]
    congr 1
    funext part
    split_ifs with h
    · rfl
    · rw [decide_eq_true_eq, ← isSome_parseWindow, Option.not_isSome_iff_eq_none] at h
      exact h
  rw [hfilter]
  exact forall₂_filterMap fun part hpart => of_decide_eq_true (List.mem_filter.1 hpart).2

theorem parseWindows_blanks {spec : Text} (h : Blanks spec) : parseWindows spec = [] := by
  rw [parseWindows_eq, Words.pieces_of_not_mem (h.not_mem rfl)]
  simp [parseWindow_blanks h]

open Classical in
/-- A schedule means the same to the validator, to the parser and to the clock. -/
theorem schedule_means (spec : Text) :
    (validWindows spec = true ↔
      Blanks spec ∨ ∀ part ∈ Words.pieces ',' spec, ∃ window, IsWindow part window) ∧
    (Blanks spec → parseWindows spec = []) ∧
    ((∀ part ∈ Words.pieces ',' spec, ∃ window, IsWindow part window) →
      List.Forall₂ IsWindow (Words.pieces ',' spec) (parseWindows spec)) ∧
    List.Forall₂ IsWindow
      ((Words.pieces ',' spec).filter fun part => ∃ window, IsWindow part window)
      (parseWindows spec) ∧
    ∀ windows : List GuardWindow, (∀ window ∈ windows, ∃ part, IsWindow part window) →
      ∀ (tm_wday : Fin 7) (tm_hour : Fin 24) (tm_min : Fin 60),
        (inWindows windows ⟨tm_wday, tm_hour, tm_min⟩ = true ↔
          ∃ window ∈ windows, ∃ day, daysOf window.days day ∧
            Covers window day (tm_wday * 1440 + (tm_hour * 60 + tm_min))) := by
  refine ⟨validWindows_iff spec, parseWindows_blanks, fun h => ?_, parseWindows_spec spec,
    fun windows hwindows tm_wday tm_hour tm_min => ?_⟩
  · rw [parseWindows_eq]
    exact forall₂_filterMap h
  · rw [inWindows, List.any_eq_true]
    refine exists_congr fun window => and_congr_right fun hmem => ?_
    obtain ⟨part, hpart⟩ := hwindows window hmem
    have hmin : 0 ≤ (tm_hour * 60 + tm_min : ℤ) ∧ (tm_hour * 60 + tm_min : ℤ) < 1440 := by omega
    exact inWindow_iff hpart tm_wday hmin.1 hmin.2

/-- Saturday night goes on into Sunday. -/
theorem schedule_means_saturday :
    validWindows "sat 22:00-06:30".toList = true ∧
      inWindows [⟨64, 1320, 390⟩] ⟨0, 6, 0⟩ = true := by
  have hwindow : IsWindow "sat 22:00-06:30".toList ⟨64, 1320, 390⟩ := parseWindow_eq.1 (by decide)
  have hmeans := schedule_means "sat 22:00-06:30".toList
  refine ⟨hmeans.1.2 (.inr ?_), ?_⟩
  · rw [Words.pieces_of_not_mem (by decide)]
    rintro part hpart
    rw [List.mem_singleton.1 hpart]
    exact ⟨_, hwindow⟩
  · refine (hmeans.2.2.2.2 [⟨64, 1320, 390⟩] ?_ 0 6 0).2 ?_
    · rintro window hwin
      rw [List.mem_singleton.1 hwin]
      exact ⟨_, hwindow⟩
    · exact ⟨_, List.mem_singleton_self _, 6, by rw [daysOf]; decide, 1, by decide⟩

end Schedule

end Guard

end ArgusBackend
