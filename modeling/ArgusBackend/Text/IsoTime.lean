import ArgusBackend.Library.Calendar
import ArgusBackend.Library.Numerals

/-!
# Timestamps

* `parse`, `format` : the code, which reads fields of fixed width and asks the C library for the
  moment;
* `Stamp` : the fields of a text by their places, and what they say (`Stamp.Real`);
* `parse_real` : when an accepted text is a timestamp;
* `parse_format` : when a moment is read back.
-/

namespace ArgusBackend

namespace Text

namespace IsoTime

open Calendar Numerals

/-! ### Reading -/

/-- A number of some characters at the front of what is left of the text. -/
def number (digits : ℕ) (scan : Bytes) : Option (ℤ × Bytes) :=
  if scan.length < digits then none
  else
    match fromChars 10 (-2147483648) 2147483647 (scan.take digits) with
    | some (value, []) => some (value, scan.drop digits)
    | _ => none

/-- The next byte is this one. -/
def expect (wanted : UInt8) : Bytes → Option Bytes
  | c :: scan => if c = wanted then some scan else none
  | [] => none

/-- A time of the day. -/
structure Clock where
  hour : ℤ := 0
  minute : ℤ := 0
  second : ℤ := 0
  deriving DecidableEq, Repr

/-- The seconds, if there are any. -/
def secondOf (scan : Bytes) : Option (ℤ × Bytes) :=
  match expect 0x3a scan with
  | some scan => number 2 scan
  | none => some (0, scan)

/-- The time of the day that a text begins with. -/
def clockOf (scan : Bytes) : Option (Clock × Bytes) := do
  let (hour, scan) ← number 2 scan
  let scan ← expect 0x3a scan
  let (minute, scan) ← number 2 scan
  let (second, scan) ← secondOf scan
  if 23 < hour ∨ 59 < minute ∨ 60 < second then none else some (⟨hour, minute, second⟩, scan)

/-- The offset that a text begins with, in seconds. -/
def offsetOf : Bytes → Option (ℤ × Bytes)
  | [] => none
  | sign :: scan =>
    if sign = 0x5a ∨ sign = 0x7a then some (0, scan)
    else if sign ≠ 0x2b ∧ sign ≠ 0x2d then none
    else do
      let (hours, scan) ← number 2 scan
      let (minutes, scan) ← number 2 ((expect 0x3a scan).getD scan)
      if 14 < hours ∨ 59 < minutes then none
      else
        let total := hours * 3600 + minutes * 60
        some (if sign = 0x2d then -total else total, scan)

/-- What stands behind the date. -/
def timeOf (scan : Bytes) : Option (Clock × Option ℤ) :=
  if scan = [] then some ({}, none)
  else do
    let scan ← (expect 0x54 scan).or (expect 0x20 scan)
    let (clock, scan) ← clockOf scan
    if scan = [] then some (clock, none)
    else do
      let (offset, scan) ← offsetOf scan
      if scan ≠ [] then none else some (clock, some offset)

/-- `parse` -/
def parse (zone : ℤ) (text : Bytes) : Option ℤ := do
  let (year, scan) ← number 4 text
  let scan ← expect 0x2d scan
  let (month, scan) ← number 2 scan
  let scan ← expect 0x2d scan
  let (day, scan) ← number 2 scan
  if month < 1 ∨ 12 < month ∨ day < 1 ∨ 31 < day then none
  else do
    let (clock, offset) ← timeOf scan
    let tm : Tm :=
      { tm_year := year - 1900, tm_mon := month - 1, tm_mday := day
        tm_hour := clock.hour, tm_min := clock.minute, tm_sec := clock.second }
    match offset with
    | some offset => some (timegm tm - offset)
    | none => some (mktime zone tm)

/-! ### Writing -/

/-- A number in at least two digits. -/
def two (value : ℤ) : Bytes := (if value < 10 then [0x30] else []) ++ toText value

/-- `format` -/
def format (zone epoch : ℤ) : Bytes :=
  let tm := localtime zone epoch
  let magnitude := if zone < 0 then -zone else zone
  toText (tm.tm_year + 1900) ++ [0x2d] ++ two (tm.tm_mon + 1) ++ [0x2d] ++ two tm.tm_mday ++
    [0x54] ++ two tm.tm_hour ++ [0x3a] ++ two tm.tm_min ++ [0x3a] ++ two tm.tm_sec ++
    [if zone < 0 then 0x2d else 0x2b] ++ two (magnitude / 3600) ++ [0x3a] ++
    two (magnitude % 3600 / 60)

/-! ### Timestamps -/

/-- Where the clock of a timestamp stands: here, at no offset, or ahead or behind. -/
inductive Place where
  | here
  | utc
  | offset (behind : Bool) (hours minutes : Bytes)
  deriving DecidableEq, Repr

/-- The fields of a text; what is left out is zero. -/
structure Stamp where
  year : Bytes
  month : Bytes
  day : Bytes
  hour : Bytes := [0x30, 0x30]
  minute : Bytes := [0x30, 0x30]
  second : Bytes := [0x30, 0x30]
  place : Place := .here
  deriving DecidableEq, Repr

/-- Where the timestamp is from, by the rest of the text. -/
def placeOf : Bytes → Place
  | [] => .here
  | sign :: text =>
    if sign = 0x5a ∨ sign = 0x7a then .utc
    else .offset (sign = 0x2d) (text.take 2)
      ((if text[2]? = some 0x3a then text.drop 3 else text.drop 2).take 2)

/-- The fields behind the date: `Thh:mm:ss`, and the offset. -/
def Stamp.timed (date : Stamp) (scan : Bytes) : Stamp :=
  if scan = [] then date
  else
    let date := { date with hour := (scan.drop 1).take 2, minute := (scan.drop 4).take 2 }
    if scan[6]? = some 0x3a then
      { date with second := (scan.drop 7).take 2, place := placeOf (scan.drop 9) }
    else { date with place := placeOf (scan.drop 6) }

/-- The fields by their places: `YYYY-MM-DD`, and the time. -/
def stampOf (text : Bytes) : Stamp :=
  let date : Stamp :=
    { year := text.take 4, month := (text.drop 5).take 2, day := (text.drop 8).take 2 }
  date.timed (text.drop 10)

namespace Stamp

variable (stamp : Stamp)

/-- The fields of the offset. -/
def offsetFields : List Bytes :=
  match stamp.place with
  | .offset _ hours minutes => [hours, minutes]
  | _ => []

/-- The year, which may have a sign. -/
def yearNumber : ℤ :=
  if stamp.year.head? = some 0x2d then -value 10 stamp.year.tail else value 10 stamp.year

/-- The date that is written. -/
def date : Date := ⟨stamp.yearNumber, value 10 stamp.month, value 10 stamp.day⟩

/-- The seconds that the clock is ahead. -/
def ahead (zone : ℤ) : ℤ :=
  match stamp.place with
  | .here => zone
  | .utc => 0
  | .offset behind hours minutes =>
    let total := value 10 hours * 3600 + value 10 minutes * 60
    if behind then -total else total

/-- The fields are those of a timestamp, and the instant is what they say. -/
structure Real (zone instant : ℤ) : Prop where
  digits : ∀ f ∈ [stamp.month, stamp.day, stamp.hour, stamp.minute, stamp.second] ++
    stamp.offsetFields, f.length = 2 ∧ ∀ c ∈ f, digitOf c < 10
  date : stamp.date.Civil
  hour : value 10 stamp.hour ≤ 23
  minute : value 10 stamp.minute ≤ 59
  second : value 10 stamp.second ≤ 59
  offset : ∀ behind hours minutes, stamp.place = .offset behind hours minutes →
    value 10 hours ≤ 14 ∧ value 10 minutes ≤ 59
  instant : instant = 86400 * dayNumber stamp.date + 3600 * value 10 stamp.hour +
    60 * value 10 stamp.minute + value 10 stamp.second - stamp.ahead zone

/-- No field of the time or of the offset has a sign, the second is not the sixtieth, and the month
has the day. -/
structure Sound : Prop where
  signs : ∀ f ∈ [stamp.hour, stamp.minute, stamp.second] ++ stamp.offsetFields,
    f.head? ≠ some 0x2d
  second : stamp.second ≠ [0x36, 0x30]
  day : value 10 stamp.day ≤ monthLength stamp.yearNumber (value 10 stamp.month)

end Stamp

/-! ### What is accepted -/

/-- Two characters that are read as a number: two digits, or a sign and a digit. -/
def Told (f : Bytes) (k : ℤ) : Prop :=
  f.length = 2 ∧ (((∀ c ∈ f, digitOf c < 10) ∧ k = value 10 f) ∨ (f.head? = some 0x2d ∧ k ≤ 0))

/-- The offset of a place, as it is read. -/
def Ahead (zone : ℤ) (place : Place) (a : ℤ) : Prop :=
  match place with
  | .here => a = zone
  | .utc => a = 0
  | .offset behind hours minutes => ∃ h m, Told hours h ∧ Told minutes m ∧ h ≤ 14 ∧ m ≤ 59 ∧
      a = if behind then -(h * 3600 + m * 60) else h * 3600 + m * 60

section Accepted

variable {scan rest text f : Bytes} {k : ℤ} {n : ℕ} {c : UInt8} {clock : Clock} {zone instant : ℤ}

lemma number_eq_some (h : number n scan = some (k, rest)) : n ≤ scan.length ∧
    fromChars 10 (-2147483648) 2147483647 (scan.take n) = some (k, []) ∧ rest = scan.drop n := by
  unfold number at h
  split_ifs at h with hlt
  split at h
  next value hread =>
    obtain ⟨rfl, rfl⟩ := Prod.mk.inj (Option.some.inj h)
    exact ⟨not_lt.mp hlt, hread, rfl⟩
  next => cases h

lemma number_two (h : number 2 scan = some (k, rest)) :
    ∃ a b, scan = a :: b :: rest ∧ Told [a, b] k := by
  obtain ⟨hlength, hread, rfl⟩ := number_eq_some h
  match scan, hlength with
  | a :: b :: scan, _ =>
    refine ⟨a, b, rfl, rfl, ?_⟩
    obtain ⟨digits, -, hdigits, ⟨heq, hk⟩ | ⟨heq, hk⟩⟩ := fromChars_whole hread
    · exact .inl ⟨fun c hc => hdigits c (heq ▸ hc), hk.trans (by rw [← heq]; rfl)⟩
    · refine .inr ⟨congrArg List.head? heq, ?_⟩
      omega

lemma number_four (h : number 4 scan = some (k, rest)) :
    ∃ a b c d, scan = a :: b :: c :: d :: rest ∧ (∀ x ∈ [b, c, d], digitOf x < 10) ∧
      k = if a = 0x2d then -(value 10 [b, c, d] : ℤ) else value 10 [a, b, c, d] := by
  obtain ⟨hlength, hread, rfl⟩ := number_eq_some h
  match scan, hlength with
  | a :: b :: c :: d :: scan, _ =>
    obtain ⟨digits, -, hdigits, ⟨heq, hk⟩ | ⟨heq, hk⟩⟩ := fromChars_whole hread
    · have ha : a ≠ 0x2d := by
        rintro rfl
        have hsign := hdigits 0x2d (heq ▸ List.mem_cons_self)
        revert hsign
        decide
      refine ⟨a, b, c, d, rfl, fun x hx => hdigits x (heq ▸ List.mem_cons_of_mem _ hx), ?_⟩
      rw [if_neg ha, hk, ← heq]
      rfl
    · obtain ⟨rfl, rfl⟩ := List.cons.inj heq
      refine ⟨_, b, c, d, rfl, hdigits, ?_⟩
      rw [if_pos rfl, hk]
      rfl

lemma expect_eq_some (h : expect c scan = some rest) : scan = c :: rest := by
  cases scan with
  | nil => cases h
  | cons c' scan =>
    rw [expect] at h
    obtain ⟨rfl, hscan⟩ := Option.ite_none_right_eq_some.mp h
    rw [Option.some.inj hscan]

lemma clockOf_eq_some (h : clockOf scan = some (clock, rest)) :
    ∃ h₁ h₂ m₁ m₂ after, scan = h₁ :: h₂ :: 0x3a :: m₁ :: m₂ :: after ∧
      Told [h₁, h₂] clock.hour ∧ Told [m₁, m₂] clock.minute ∧
      ((∃ s₁ s₂, after = 0x3a :: s₁ :: s₂ :: rest ∧ Told [s₁, s₂] clock.second) ∨
        (after = rest ∧ after.head? ≠ some 0x3a ∧ clock.second = 0)) ∧
      clock.hour ≤ 23 ∧ clock.minute ≤ 59 ∧ clock.second ≤ 60 := by
  unfold clockOf at h
  obtain ⟨⟨hour, scan₁⟩, hhour, h⟩ := Option.bind_eq_some_iff.mp h
  obtain ⟨scan₂, hcolon, h⟩ := Option.bind_eq_some_iff.mp h
  obtain ⟨⟨minute, after⟩, hminute, h⟩ := Option.bind_eq_some_iff.mp h
  obtain ⟨⟨second, scan₃⟩, hsecond, h⟩ := Option.bind_eq_some_iff.mp h
  obtain ⟨hout, h⟩ := Option.ite_none_left_eq_some.mp h
  obtain ⟨rfl, rfl⟩ := Prod.mk.inj (Option.some.inj h)
  simp only [not_or, not_lt] at hout
  obtain ⟨h₁, h₂, rfl, htold⟩ := number_two hhour
  obtain rfl := expect_eq_some hcolon
  obtain ⟨m₁, m₂, rfl, htold'⟩ := number_two hminute
  refine ⟨h₁, h₂, m₁, m₂, after, rfl, htold, htold', ?_, hout⟩
  unfold secondOf at hsecond
  split at hsecond
  next scan₄ hexpect =>
    obtain rfl := expect_eq_some hexpect
    obtain ⟨s₁, s₂, rfl, htold''⟩ := number_two hsecond
    exact .inl ⟨s₁, s₂, rfl, htold''⟩
  next hexpect =>
    obtain ⟨rfl, rfl⟩ := Prod.mk.inj (Option.some.inj hsecond)
    refine .inr ⟨rfl, fun hhead => ?_, rfl⟩
    cases after with
    | nil => cases hhead
    | cons c after => simp_all [expect]

lemma offsetOf_eq_some (h : offsetOf scan = some (k, [])) : Ahead zone (placeOf scan) k := by
  cases scan with
  | nil => cases h
  | cons sign scan =>
    rw [offsetOf] at h
    rw [placeOf]
    by_cases hutc : sign = 0x5a ∨ sign = 0x7a
    · rw [if_pos hutc] at h ⊢
      exact (Prod.mk.inj (Option.some.inj h)).1.symm
    rw [if_neg hutc] at h ⊢
    obtain ⟨-, h⟩ := Option.ite_none_left_eq_some.mp h
    obtain ⟨⟨hours, scan₁⟩, hhours, h⟩ := Option.bind_eq_some_iff.mp h
    obtain ⟨⟨minutes, scan₂⟩, hminutes, h⟩ := Option.bind_eq_some_iff.mp h
    obtain ⟨hout, h⟩ := Option.ite_none_left_eq_some.mp h
    obtain ⟨rfl, rfl⟩ := Prod.mk.inj (Option.some.inj h)
    simp only [not_or, not_lt] at hout
    obtain ⟨h₁, h₂, rfl, htold⟩ := number_two hhours
    obtain ⟨m₁, m₂, hrest, htold'⟩ := number_two hminutes
    -- with a colon before the minutes, or without
    have hfield : ((if (h₁ :: h₂ :: scan₁)[2]? = some 0x3a then (h₁ :: h₂ :: scan₁).drop 3
        else (h₁ :: h₂ :: scan₁).drop 2).take 2) = [m₁, m₂] := by
      cases hcolon : expect 0x3a scan₁ with
      | some scan₃ =>
        rw [hcolon] at hrest
        obtain rfl := expect_eq_some hcolon
        obtain rfl : scan₃ = [m₁, m₂] := hrest
        rfl
      | none =>
        rw [hcolon] at hrest
        obtain rfl : scan₁ = [m₁, m₂] := hrest
        have hne : m₁ ≠ 0x3a := by
          rintro rfl
          simp [expect] at hcolon
        simp [hne]
    rw [hfield]
    exact ⟨hours, minutes, htold, htold', hout.1, hout.2, by simp⟩

lemma timeOf_eq_some {offset : Option ℤ} (h : timeOf scan = some (clock, offset)) :
    ∃ hour minute second place, (∀ year month day, Stamp.timed { year, month, day } scan =
      { year, month, day, hour, minute, second, place }) ∧
      Told hour clock.hour ∧ Told minute clock.minute ∧ Told second clock.second ∧
      (clock.hour ≤ 23 ∧ clock.minute ≤ 59 ∧ clock.second ≤ 60) ∧
      Ahead zone place (offset.getD zone) := by
  have hzero : Told [0x30, 0x30] 0 := ⟨rfl, .inl ⟨by simp [digitOf], rfl⟩⟩
  unfold timeOf at h
  split_ifs at h with hnil
  · obtain ⟨rfl, rfl⟩ := Prod.mk.inj (Option.some.inj h)
    exact ⟨_, _, _, .here, fun _ _ _ => if_pos hnil, hzero, hzero, hzero, by decide, rfl⟩
  obtain ⟨scan₁, hsep, hrun⟩ := Option.bind_eq_some_iff.mp h
  obtain ⟨⟨clock', rest⟩, hclock, hbehind⟩ := Option.bind_eq_some_iff.mp hrun
  obtain ⟨h₁, h₂, m₁, m₂, after, rfl, hhour, hminute, hafter, hbounds⟩ := clockOf_eq_some hclock
  obtain ⟨c, hscan⟩ : ∃ c, scan = c :: h₁ :: h₂ :: 0x3a :: m₁ :: m₂ :: after := by
    rcases Option.or_eq_some_iff.mp hsep with hsep | ⟨-, hsep⟩
    · exact ⟨_, expect_eq_some hsep⟩
    · exact ⟨_, expect_eq_some hsep⟩
  subst hscan
  -- the place is told by what stands behind the clock
  have hplace : clock' = clock ∧ Ahead zone (placeOf rest) (offset.getD zone) := by
    dsimp only at hbehind
    split_ifs at hbehind with hempty
    · obtain ⟨rfl, rfl⟩ := Prod.mk.inj (Option.some.inj hbehind)
      rw [hempty]
      exact ⟨rfl, rfl⟩
    · obtain ⟨⟨ahead, scan₂⟩, hoffset, hend⟩ := Option.bind_eq_some_iff.mp hbehind
      obtain ⟨hrest, hend⟩ := Option.ite_none_left_eq_some.mp hend
      obtain ⟨rfl, rfl⟩ := Prod.mk.inj (Option.some.inj hend)
      have hnil : scan₂ = [] := not_not.mp hrest
      rw [hnil] at hoffset
      exact ⟨rfl, offsetOf_eq_some hoffset⟩
  obtain ⟨rfl, hahead⟩ := hplace
  rcases hafter with ⟨s₁, s₂, rfl, hsecond⟩ | ⟨rfl, hcolon, hsecond⟩
  · exact ⟨[h₁, h₂], [m₁, m₂], [s₁, s₂], placeOf rest, fun _ _ _ => rfl, hhour, hminute, hsecond,
      hbounds, hahead⟩
  · rw [← hsecond] at hzero
    refine ⟨[h₁, h₂], [m₁, m₂], [0x30, 0x30], placeOf after, fun _ _ _ => ?_, hhour, hminute, hzero,
      hbounds, hahead⟩
    have hsix : (c :: h₁ :: h₂ :: 0x3a :: m₁ :: m₂ :: after)[6]? ≠ some 0x3a := by
      rwa [List.head?_eq_getElem?] at hcolon
    rw [Stamp.timed, if_neg (List.cons_ne_nil _ _), if_neg hsix]
    rfl

lemma yearNumber_eq {stamp : Stamp} {a b c d : UInt8} (h : stamp.year = [a, b, c, d]) :
    stamp.yearNumber =
      if a = 0x2d then -(value 10 [b, c, d] : ℤ) else value 10 [a, b, c, d] := by
  rw [Stamp.yearNumber, h]
  simp

/-- What is known of an accepted text. -/
theorem parse_eq_some (h : parse zone text = some instant) :
    ∃ (month day : ℤ) (clock : Clock) (a : ℤ),
      Told (stampOf text).month month ∧ Told (stampOf text).day day ∧
      Told (stampOf text).hour clock.hour ∧ Told (stampOf text).minute clock.minute ∧
      Told (stampOf text).second clock.second ∧ Ahead zone (stampOf text).place a ∧
      (1 ≤ month ∧ month ≤ 12 ∧ 1 ≤ day) ∧
      (clock.hour ≤ 23 ∧ clock.minute ≤ 59 ∧ clock.second ≤ 60) ∧
      instant = 86400 * dayNumber ⟨(stampOf text).yearNumber, month, day⟩ + 3600 * clock.hour +
        60 * clock.minute + clock.second - a := by
  unfold parse at h
  obtain ⟨⟨year, scan₁⟩, hyear, hrun⟩ := Option.bind_eq_some_iff.mp h
  obtain ⟨scan₂, hdash, hrun⟩ := Option.bind_eq_some_iff.mp hrun
  obtain ⟨⟨month, scan₃⟩, hmonth, hrun⟩ := Option.bind_eq_some_iff.mp hrun
  obtain ⟨scan₄, hdash', hrun⟩ := Option.bind_eq_some_iff.mp hrun
  obtain ⟨⟨day, scan₅⟩, hday, hrun⟩ := Option.bind_eq_some_iff.mp hrun
  obtain ⟨hout, hrun⟩ := Option.ite_none_left_eq_some.mp hrun
  obtain ⟨⟨clock, offset⟩, htime, hrun⟩ := Option.bind_eq_some_iff.mp hrun
  simp only [not_or, not_lt] at hout
  -- The text is put together from its end to its front.
  obtain ⟨d₁, d₂, rfl, htold'⟩ := number_two hday
  obtain rfl := expect_eq_some hdash'
  obtain ⟨m₁, m₂, rfl, htold⟩ := number_two hmonth
  obtain rfl := expect_eq_some hdash
  obtain ⟨y₁, y₂, y₃, y₄, rfl, -, hsigned⟩ := number_four hyear
  obtain ⟨hour, minute, second, place, htimed, hhour, hminute, hsecond, hbounds, hahead⟩ :=
    @timeOf_eq_some _ _ zone _ htime
  have hstamp : stampOf (y₁ :: y₂ :: y₃ :: y₄ :: 0x2d :: m₁ :: m₂ :: 0x2d :: d₁ :: d₂ :: scan₅) =
      { year := [y₁, y₂, y₃, y₄], month := [m₁, m₂], day := [d₁, d₂],
        hour, minute, second, place } :=
    htimed _ _ _
  rw [hstamp]
  refine ⟨month, day, clock, offset.getD zone, htold, htold', hhour, hminute, hsecond, hahead,
    ⟨hout.1, hout.2.1, hout.2.2.1⟩, hbounds, ?_⟩
  have hdayNumber (tm : Tm) (h₁ : tm.tm_year = year - 1900) (h₂ : tm.tm_mon = month - 1)
      (h₃ : tm.tm_mday = day) : tm.dayNumber = dayNumber ⟨year, month, day⟩ :=
    dayNumber_tm ⟨hout.1, hout.2.1⟩ h₁ h₂ h₃
  rw [yearNumber_eq rfl, ← hsigned]
  -- Without an offset it is the zone of the C library.
  cases offset with
  | none =>
    rw [← Option.some.inj hrun, mktime, timegm, hdayNumber _ rfl rfl rfl]
    rfl
  | some offset =>
    rw [← Option.some.inj hrun, timegm, hdayNumber _ rfl rfl rfl]
    rfl

/-- A field without a sign has two digits. -/
lemma Told.digits (h : Told f k) (hsign : f.head? ≠ some 0x2d) :
    (f.length = 2 ∧ ∀ c ∈ f, digitOf c < 10) ∧ k = value 10 f := by
  obtain ⟨hlength, ⟨hdigits, hk⟩ | ⟨hhead, -⟩⟩ := h
  · exact ⟨⟨hlength, hdigits⟩, hk⟩
  · exact absurd hhead hsign

/-- So has a field with a positive number. -/
lemma Told.digits_of_pos (h : Told f k) (hpos : 1 ≤ k) :
    (f.length = 2 ∧ ∀ c ∈ f, digitOf c < 10) ∧ k = value 10 f := by
  obtain ⟨hlength, ⟨hdigits, hk⟩ | ⟨-, hle⟩⟩ := h
  · exact ⟨⟨hlength, hdigits⟩, hk⟩
  · omega

lemma eq_sixty (hlength : f.length = 2) (hdigits : ∀ c ∈ f, digitOf c < 10)
    (hvalue : value 10 f = 60) : f = [0x36, 0x30] := by
  match f, hlength with
  | [a, b], _ =>
    simp only [List.forall_mem_cons, List.not_mem_nil, false_imp_iff, implies_true, and_true]
      at hdigits
    have hsum : 10 * digitOf a + digitOf b = 60 := by
      rw [← hvalue]
      simp [value]
    rw [eq_digit hdigits.1, eq_digit hdigits.2, show digitOf a = 6 by omega,
      show digitOf b = 0 by omega]
    rfl

lemma Stamp.Real.sound {stamp : Stamp} (h : stamp.Real zone instant) : stamp.Sound where
  signs f hf hhead := by
    have hmem : f ∈ [stamp.month, stamp.day, stamp.hour, stamp.minute, stamp.second] ++
        stamp.offsetFields := List.mem_cons_of_mem _ (List.mem_cons_of_mem _ hf)
    have hdigit := (h.digits f hmem).2 0x2d (List.mem_of_mem_head? hhead)
    revert hdigit
    decide
  second hsixty := by
    have hle := h.second
    rw [hsixty] at hle
    revert hle
    decide
  day := by
    have hle := h.date.day.2
    unfold Stamp.date at hle
    exact hle

/-- An accepted text is a timestamp, unless a field of its time or its offset has a sign, its second
is the sixtieth, or its day is behind the end of the month. -/
theorem parse_real (h : parse zone text = some instant) :
    (stampOf text).Real zone instant ↔ (stampOf text).Sound := by
  refine ⟨fun hreal => hreal.sound, fun hsound => ?_⟩
  obtain ⟨month, day, clock, a, hmonth, hday, hhour, hminute, hsecond, hahead, hdate, hclock,
    hinstant⟩ := parse_eq_some h
  generalize stampOf text = stamp at *
  have hsigns := hsound.signs
  simp only [List.cons_append, List.nil_append, List.forall_mem_cons] at hsigns
  obtain ⟨hmonth', rfl⟩ := hmonth.digits_of_pos hdate.1
  obtain ⟨hday', rfl⟩ := hday.digits_of_pos hdate.2.2
  obtain ⟨hhour', hhourValue⟩ := hhour.digits hsigns.1
  obtain ⟨hminute', hminuteValue⟩ := hminute.digits hsigns.2.1
  obtain ⟨hsecond', hsecondValue⟩ := hsecond.digits hsigns.2.2.1
  have hsixty : value 10 stamp.second ≠ 60 := fun heq =>
    hsound.second (eq_sixty hsecond'.1 hsecond'.2 heq)
  -- the fields of the offset
  have hplace : (∀ f ∈ stamp.offsetFields, f.length = 2 ∧ ∀ c ∈ f, digitOf c < 10) ∧
      (∀ behind hours minutes, stamp.place = .offset behind hours minutes →
        value 10 hours ≤ 14 ∧ value 10 minutes ≤ 59) ∧ a = stamp.ahead zone := by
    have hfields := hsigns.2.2.2
    unfold Stamp.offsetFields at hfields ⊢
    unfold Stamp.ahead
    unfold Ahead at hahead
    cases hplace : stamp.place with
    | here =>
      rw [hplace] at hahead
      exact ⟨by simp, by simp, hahead⟩
    | utc =>
      rw [hplace] at hahead
      exact ⟨by simp, by simp, hahead⟩
    | offset behind hours minutes =>
      rw [hplace] at hahead hfields
      obtain ⟨hh, mm, hhours, hminutes, hle, hle', rfl⟩ := hahead
      simp only [List.forall_mem_cons, List.not_mem_nil, false_imp_iff, implies_true, and_true]
        at hfields ⊢
      obtain ⟨hhours', rfl⟩ := hhours.digits hfields.1
      obtain ⟨hminutes', rfl⟩ := hminutes.digits hfields.2
      refine ⟨⟨hhours', hminutes'⟩, ?_, rfl⟩
      rintro _ _ _ ⟨⟩
      omega
  refine ⟨?_, ⟨⟨hdate.1, hdate.2.1⟩, hdate.2.2, hsound.day⟩, by omega, by omega, by omega,
    hplace.2.1, ?_⟩
  · simp only [List.cons_append, List.nil_append, List.forall_mem_cons]
    exact ⟨hmonth', hday', hhour', hminute', hsecond', hplace.1⟩
  · rw [hinstant, hhourValue, hminuteValue, hsecondValue, hplace.2.2, Stamp.date]

end Accepted

/-! ### What is read back -/

section Formatted

variable {f rest : Bytes} {k zone epoch v : ℤ} {n : ℕ}

lemma number_append (hlength : f.length = n)
    (hread : fromChars 10 (-2147483648) 2147483647 f = some (k, [])) (rest : Bytes) :
    number n (f ++ rest) = some (k, rest) := by
  rw [number, if_neg (by rw [List.length_append]; omega), ← hlength, List.take_left, hread,
    List.drop_left]

lemma number_two_text (hlo : 0 ≤ v) (hhi : v < 100) (rest : Bytes) :
    number 2 (two v ++ rest) = some (v, rest) := by
  obtain ⟨n, rfl⟩ := Int.eq_ofNat_of_zero_le hlo
  by_cases hn : n < 10
  · have hall : ∀ n : ℕ, n < 10 → (two n).length = 2 ∧
        fromChars 10 (-2147483648) 2147483647 (two n) = some ((n : ℤ), []) := by
      decide +kernel
    obtain ⟨hlength, hread⟩ := hall n hn
    exact number_append hlength hread rest
  · have hle := length_numeral_le (n := n) (k := 1) (by norm_num; omega)
    have hlt := lt_length_numeral (n := n) (k := 1) (by norm_num; omega)
    have hread : fromChars 10 (-2147483648) 2147483647 (numeral n ++ []) = some ((n : ℤ), []) :=
      fromChars_numeral (by simp) (by omega) (by omega)
    rw [List.append_nil] at hread
    rw [two, if_neg (by omega), List.nil_append, toText, if_neg (by omega), Int.natAbs_natCast]
    exact number_append (by omega) hread rest

lemma number_year (hlo : 1000 ≤ v) (hhi : v ≤ 9999) (rest : Bytes) :
    number 4 (toText v ++ rest) = some (v, rest) := by
  obtain ⟨n, rfl⟩ := Int.eq_ofNat_of_zero_le (show 0 ≤ v by omega)
  have hle := length_numeral_le (n := n) (k := 3) (by norm_num; omega)
  have hlt := lt_length_numeral (n := n) (k := 3) (by norm_num; omega)
  have hread : fromChars 10 (-2147483648) 2147483647 (numeral n ++ []) = some ((n : ℤ), []) :=
    fromChars_numeral (by simp) (by omega) (by omega)
  rw [List.append_nil] at hread
  rw [toText, if_neg (by omega), Int.natAbs_natCast]
  exact number_append (by omega) hread rest

/-- A year of four digits is written and read in four characters, and no other one is. -/
lemma length_year {scan text : Bytes} (hlo : 0 ≤ v) (htext : text = toText v ++ 0x2d :: scan)
    (hnumber : number 4 text = some (k, 0x2d :: rest)) : 1000 ≤ v ∧ v ≤ 9999 := by
  obtain ⟨n, rfl⟩ := Int.eq_ofNat_of_zero_le hlo
  rw [toText, if_neg (by omega), Int.natAbs_natCast] at htext
  obtain ⟨a, b, c, d, hscan, hdigits, -⟩ := number_four hnumber
  rw [hscan] at htext
  have hat : (numeral n ++ 0x2d :: scan)[(numeral n).length]? = some 0x2d := by simp
  have hfour : (numeral n ++ 0x2d :: scan)[4]? = some 0x2d := by rw [← htext]; rfl
  rw [← htext] at hat
  have hsign : ¬digitOf 0x2d < 10 := by decide
  -- the first dash is behind the year
  have hle : (numeral n).length ≤ 4 := by
    by_contra hlt
    rw [List.getElem?_append_left (by omega)] at hfour
    exact not_mem_numeral (c := 0x2d) rfl (List.mem_of_getElem? hfour)
  have hge : 4 ≤ (numeral n).length := by
    by_contra hlt
    have hpos := List.length_pos_of_ne_nil (numeral_ne_nil n)
    have hmem : (0x2d : UInt8) ∈ [b, c, d] := by
      obtain h | h | h : (numeral n).length = 1 ∨ (numeral n).length = 2 ∨
        (numeral n).length = 3 := by omega
      all_goals
        rw [h] at hat
        simp only [List.getElem?_cons_succ, List.getElem?_cons_zero, Option.some.injEq] at hat
        simp [hat]
    exact hsign (hdigits _ hmem)
  constructor
  · by_contra hlt
    have hshort := length_numeral_le (n := n) (k := 2) (by norm_num; omega)
    omega
  · by_contra hlt
    have hlong := lt_length_numeral (n := n) (k := 4) (by norm_num; omega)
    omega

lemma expect_self (c : UInt8) (scan : Bytes) : expect c (c :: scan) = some scan := if_pos rfl

lemma clockOf_written {clock : Clock} (hhour : 0 ≤ clock.hour ∧ clock.hour ≤ 23)
    (hminute : 0 ≤ clock.minute ∧ clock.minute ≤ 59)
    (hsecond : 0 ≤ clock.second ∧ clock.second ≤ 59) (rest : Bytes) :
    clockOf (two clock.hour ++ 0x3a :: (two clock.minute ++ 0x3a :: (two clock.second ++ rest))) =
      some (clock, rest) := by
  have hfields (scan : Bytes) : secondOf (0x3a :: (two clock.second ++ scan)) =
      some (clock.second, scan) := by
    rw [secondOf, expect_self]
    exact number_two_text hsecond.1 (by omega) scan
  unfold clockOf
  simp only [Option.bind_eq_bind, number_two_text hhour.1 (by omega : clock.hour < 100),
    number_two_text hminute.1 (by omega : clock.minute < 100), expect_self, hfields,
    Option.bind_some]
  exact if_neg (by omega)

lemma offsetOf_written {sign : UInt8} {hours minutes : ℤ} (hsign : sign = 0x2b ∨ sign = 0x2d)
    (hhours : 0 ≤ hours ∧ hours ≤ 14) (hminutes : 0 ≤ minutes ∧ minutes ≤ 59) :
    offsetOf (sign :: (two hours ++ 0x3a :: two minutes)) =
      some (if sign = 0x2d then -(hours * 3600 + minutes * 60) else hours * 3600 + minutes * 60,
        []) := by
  have hend := number_two_text hminutes.1 (by omega : minutes < 100) []
  rw [List.append_nil] at hend
  have hutc : ¬(sign = 0x5a ∨ sign = 0x7a) := by rcases hsign with rfl | rfl <;> decide
  have hnone : ¬(sign ≠ 0x2b ∧ sign ≠ 0x2d) := by rcases hsign with rfl | rfl <;> decide
  rw [offsetOf, if_neg hutc, if_neg hnone]
  simp only [Option.bind_eq_bind, number_two_text hhours.1 (by omega : hours < 100),
    Option.bind_some, expect_self, Option.getD_some, hend]
  exact if_neg (by omega)

/-- What is written is read. -/
lemma parse_written {date : Date} {clock : Clock} {sign : UInt8} {hours minutes : ℤ}
    (hyear : 1000 ≤ date.year ∧ date.year ≤ 9999) (hdate : date.Civil)
    (hhour : 0 ≤ clock.hour ∧ clock.hour ≤ 23) (hminute : 0 ≤ clock.minute ∧ clock.minute ≤ 59)
    (hsecond : 0 ≤ clock.second ∧ clock.second ≤ 59) (hsign : sign = 0x2b ∨ sign = 0x2d)
    (hhours : 0 ≤ hours ∧ hours ≤ 14) (hminutes : 0 ≤ minutes ∧ minutes ≤ 59) :
    parse zone (toText date.year ++ 0x2d :: (two date.month ++ 0x2d :: (two date.day ++ 0x54 ::
      (two clock.hour ++ 0x3a :: (two clock.minute ++ 0x3a :: (two clock.second ++
        sign :: (two hours ++ 0x3a :: two minutes))))))) =
      some (86400 * dayNumber date + 3600 * clock.hour + 60 * clock.minute + clock.second -
        if sign = 0x2d then -(hours * 3600 + minutes * 60) else hours * 3600 + minutes * 60) := by
  have hmonth := hdate.month
  have hday : 1 ≤ date.day ∧ date.day ≤ 31 := by
    have hle := hdate.day
    have hleap := leapDays_eq date.year
    unfold monthLength at hle
    split_ifs at hle <;> omega
  have htime : timeOf (0x54 :: (two clock.hour ++ 0x3a :: (two clock.minute ++ 0x3a ::
      (two clock.second ++ sign :: (two hours ++ 0x3a :: two minutes))))) =
        some (clock, some (if sign = 0x2d then -(hours * 3600 + minutes * 60)
          else hours * 3600 + minutes * 60)) := by
    rw [timeOf, if_neg (List.cons_ne_nil _ _)]
    simp only [Option.bind_eq_bind, expect_self, Option.some_or, Option.bind_some,
      clockOf_written hhour hminute hsecond, reduceCtorEq, if_false,
      offsetOf_written hsign hhours hminutes, ne_eq, not_true_eq_false]
  unfold parse
  simp only [Option.bind_eq_bind, number_year hyear.1 hyear.2, Option.bind_some, expect_self,
    number_two_text (by omega : 0 ≤ date.month) (by omega : date.month < 100),
    number_two_text (by omega : 0 ≤ date.day) (by omega : date.day < 100), htime]
  rw [if_neg (by omega), timegm, dayNumber_tm hmonth rfl rfl rfl]

lemma seconds_eq (s : ℤ) : 86400 * (s / 86400) + 3600 * (s % 86400 / 3600) +
    60 * (s % 86400 % 3600 / 60) + s % 86400 % 60 = s := by
  omega

lemma offset_eq {s : ℤ} (hminutes : 60 ∣ s) : s / 3600 * 3600 + s % 3600 / 60 * 60 = s := by
  omega

/-- A moment in a year from 0 on is read back exactly when the year has four digits. -/
theorem parse_format (hminutes : 60 ∣ zone) (hlo : -50400 ≤ zone) (hhi : zone ≤ 50400)
    (hyear : 0 ≤ (dateOf ((epoch + zone) / 86400)).year) :
    parse zone (format zone epoch) = some epoch ↔
      1000 ≤ (dateOf ((epoch + zone) / 86400)).year ∧
        (dateOf ((epoch + zone) / 86400)).year ≤ 9999 := by
  have htext : format zone epoch = toText (dateOf ((epoch + zone) / 86400)).year ++ 0x2d ::
      (two (dateOf ((epoch + zone) / 86400)).month ++ 0x2d ::
        (two (dateOf ((epoch + zone) / 86400)).day ++ 0x54 ::
          (two ((epoch + zone) % 86400 / 3600) ++ 0x3a ::
            (two ((epoch + zone) % 86400 % 3600 / 60) ++ 0x3a ::
              (two ((epoch + zone) % 86400 % 60) ++ (if zone < 0 then 0x2d else 0x2b) ::
                (two ((if zone < 0 then -zone else zone) / 3600) ++ 0x3a ::
                  two ((if zone < 0 then -zone else zone) % 3600 / 60))))))) := by
    simp only [format, localtime, sub_add_cancel, List.append_assoc, List.cons_append,
      List.nil_append]
  constructor
  · intro hparse
    unfold parse at hparse
    obtain ⟨⟨year, scan₁⟩, hnumber, hrun⟩ := Option.bind_eq_some_iff.mp hparse
    obtain ⟨scan₂, hdash, -⟩ := Option.bind_eq_some_iff.mp hrun
    obtain rfl := expect_eq_some hdash
    exact length_year hyear htext hnumber
  · intro hfour
    rw [htext]
    rw [@parse_written zone (dateOf ((epoch + zone) / 86400))
      ⟨(epoch + zone) % 86400 / 3600, (epoch + zone) % 86400 % 3600 / 60,
        (epoch + zone) % 86400 % 60⟩ (if zone < 0 then 0x2d else 0x2b)
      ((if zone < 0 then -zone else zone) / 3600)
      ((if zone < 0 then -zone else zone) % 3600 / 60) hfour (civil_dateOf _)
      (by dsimp only; omega) (by dsimp only; omega) (by dsimp only; omega)
      (by split_ifs <;> simp) (by split_ifs <;> omega) (by split_ifs <;> omega)]
    rw [dayNumber_dateOf, seconds_eq]
    refine congrArg some ?_
    by_cases hneg : zone < 0
    · rw [if_pos hneg, if_pos hneg, if_pos rfl, offset_eq (Int.dvd_neg.mpr hminutes)]
      omega
    · rw [if_neg hneg, if_neg hneg, if_neg (by decide), offset_eq hminutes]
      omega

/-- What is accepted is a timestamp unless it has one of the three defects, and what is written is
read back when the year has four digits.  The zone is a fixed offset from UTC in both halves. -/
theorem timestamps_exact (zone : ℤ) :
    (∀ text instant, parse zone text = some instant →
      ((stampOf text).Real zone instant ↔ (stampOf text).Sound)) ∧
    (60 ∣ zone → -50400 ≤ zone → zone ≤ 50400 →
      ∀ epoch, 0 ≤ (dateOf ((epoch + zone) / 86400)).year →
        (parse zone (format zone epoch) = some epoch ↔
          1000 ≤ (dateOf ((epoch + zone) / 86400)).year ∧
            (dateOf ((epoch + zone) / 86400)).year ≤ 9999)) :=
  ⟨fun _ _ h => parse_real h, fun hminutes hlo hhi _ hyear => parse_format hminutes hlo hhi hyear⟩

/-- An hour with a sign, the end of February, a second too many, and a year of three digits. -/
theorem accepted_unreal :
    (parse 0 (ascii "2024-01-01T-5:00Z") = some 1704049200 ∧
      ¬(stampOf (ascii "2024-01-01T-5:00Z")).Real 0 1704049200) ∧
    (parse 0 (ascii "2023-02-31") = some 1677801600 ∧
      ¬(stampOf (ascii "2023-02-31")).Real 0 1677801600) ∧
    (parse 0 (ascii "2024-01-01T00:00:60Z") = some 1704067260 ∧
      ¬(stampOf (ascii "2024-01-01T00:00:60Z")).Real 0 1704067260) ∧
    format 0 (-30641760000) = ascii "999-01-01T00:00:00+00:00" ∧
      parse 0 (format 0 (-30641760000)) = none := by
  refine ⟨⟨by decide +kernel, fun h => ?_⟩, ⟨by decide +kernel, fun h => ?_⟩,
    ⟨by decide +kernel, fun h => ?_⟩, by decide +kernel, by decide +kernel⟩
  · exact h.sound.signs [0x2d, 0x35] (by decide +kernel) rfl
  · have hday : ¬value 10 [0x33, 0x31] ≤ monthLength 2023 2 := by decide +kernel
    exact hday h.sound.day
  · exact h.sound.second rfl

end Formatted

end IsoTime

end Text

end ArgusBackend
