import ArgusBackend.Extract.CallWords
import ArgusBackend.Extract.Occurrences
import ArgusBackend.Library.Words

/-!
# When to call

* `clockAt`, `pastAt`, `relative` : times of day and spans of time that are spoken;
* `run` : all that a text says about when;
* `instantFor` : the moment it means, and what stands against it;
* `read` : the moment with its place in the text.
-/

namespace ArgusBackend

namespace Extract

/-- A date that falls on another weekday than the one that was said: the moments that either gives.
-/
structure DayConflict where
  byWeekday : ℤ := 0
  byDate : ℤ := 0
  phraseBegin : ℕ := 0
  phraseEnd : ℕ := 0
  relative : ℤ := -1

/-- The moment of a call, and the bytes of the text that name it. -/
structure CallTime where
  fireAt : ℤ
  phraseBegin : ℕ
  phraseEnd : ℕ
  deriving DecidableEq, Repr

/-- What a text says about the moment of a call. -/
structure CallReading where
  time : Option CallTime := none
  conflict : Option DayConflict := none
  farAway : Bool := false
  passedToday : Option ℤ := none

namespace CallTime

open Numerals Calendar

/-- An exception of the standard library. -/
inductive Thrown where
  | stoi | at_
  deriving DecidableEq, Repr

/-- `std::stoi`, of a text without blanks and signs. -/
def stoi (text : Bytes) : Except Thrown ℤ :=
  match fromChars 10 (-2147483648) 2147483647 text with
  | some (value, _) => .ok value
  | none => .error .stoi

/-- A minute in seconds. -/
def kMinuteS : ℤ := 60

/-- An hour in seconds. -/
def kHourS : ℤ := 3600

/-- The longest time ahead that is taken as a span, of 30 days. -/
def kRelativeAheadS : ℤ := 30 * 24 * kHourS

/-- How many months ahead a day of the month is looked for. -/
def kMonthsAhead : ℕ := 12

/-- The months of a year. -/
def kMonthsInYear : ℤ := 12

/-- The hour of noon. -/
def kNoon : ℤ := 12

/-- The hour at which a day ends. -/
def kEndOfDay : ℤ := 24

/-- The last hour that is in the small hours when it is said to be at night. -/
def kSmallHours : ℤ := 5

/-- The last hour that is in the afternoon when no part of the day is said. -/
def kAfternoonHours : ℤ := 6

/-- The days of a week. -/
def kWeekDays : ℤ := 7

/-- The part of the day that a marker names. -/
inductive Period where
  | none | am | pm | morning | afternoon | night | dawn
  deriving DecidableEq, Repr

/-- A part of the day in the text, and how many words name it. -/
structure Marker where
  period : Period := .none
  length : ℕ := 0
  today : Bool := false

/-- A time of the day as it was said: its hour, what is added or taken away, and how it was put. -/
structure ClockReading where
  hour : ℤ := 0
  minute : ℤ := 0
  minus : ℤ := 0
  period : Period := .none
  literal : Bool := false
  midday : Bool := false
  midnight : Bool := false
  last : ℕ := 0
  deriving DecidableEq, Repr

/-- A date as it was said; the month and the year are zero when they were left out. -/
structure DateHit where
  day : ℤ := 0
  month : ℤ := 0
  year : ℤ := 0

/-- What was read of a text so far: the day in either way, the time, and the words that they take.
-/
structure Parsed where
  offset : ℤ := -1
  today : Bool := false
  weekday : ℤ := -1
  date : Option DateHit := none
  clock : Option ClockReading := none
  clockFirst : ℕ := 0
  context : Period := .none
  first : ℕ := kNoIndex
  last : ℕ := 0

/-! ### Days -/

/-- The length of a month; a month that is not in the table throws. -/
def daysInMonth (civil : Date) : Except Thrown ℤ :=
  let kDays : List ℤ := [31, 28, 31, 30, 31, 30, 31, 31, 30, 31, 30, 31]
  let leap := civil.year.tmod 4 = 0 ∧ civil.year.tmod 100 ≠ 0 ∨ civil.year.tmod 400 = 0
  -- `kDays.at`
  if civil.month - 1 < 0 ∨ 12 ≤ civil.month - 1 then .error .at_
  else .ok (kDays.getD (civil.month - 1).toNat 0 + if civil.month = 2 ∧ leap then 1 else 0)

/-- Whether there is such a date. -/
def isValid (civil : Date) : Except Thrown Bool :=
  if civil.month ≥ 1 ∧ civil.month ≤ kMonthsInYear ∧ civil.day ≥ 1 then
    (daysInMonth civil).map fun days => civil.day ≤ days
  else .ok false

/-- The date of a moment. -/
def civilOf (zone epoch : ℤ) : Date := RepeatRule.civilOf zone epoch

/-- Noon of the day some days after a date. -/
def noonOf (zone : ℤ) (civil : Date) (days : ℤ) : Tm := RepeatRule.noonOf zone civil days

/-- The date some days after another. -/
def shifted (zone : ℤ) (civil : Date) (days : ℤ) : Date := RepeatRule.shifted zone civil days

/-- The weekday of a date, from Sunday on. -/
def weekdayIndex (zone : ℤ) (civil : Date) : ℤ := (noonOf zone civil 0).tm_wday

/-- The hour of the day that was meant. -/
def hour24 (reading : ClockReading) : ℤ :=
  let hour := reading.hour
  if reading.midday then kNoon
  else if reading.midnight then kEndOfDay
  else if reading.literal then hour
  else
    match reading.period with
    | .am | .dawn => hour.tmod kNoon
    | .pm | .afternoon => hour.tmod kNoon + kNoon
    | .morning => hour
    | .night =>
      if hour = kNoon then kEndOfDay else if hour ≤ kSmallHours then hour else hour + kNoon
    | .none =>
      if hour = kNoon then kNoon else if hour ≤ kAfternoonHours then hour + kNoon else hour

/-- The moment of a time on a date. -/
def instantOf (zone : ℤ) (civil : Date) (reading : ClockReading) : ℤ :=
  mktime zone
    { tm_year := civil.year - 1900, tm_mon := civil.month - 1, tm_mday := civil.day
      tm_hour := hour24 reading } + (reading.minute - reading.minus) * kMinuteS

/-- The same moment of the next year. -/
def yearAfter (zone epoch : ℤ) : ℤ :=
  let tm := localtime zone epoch
  mktime zone { tm with tm_year := tm.tm_year + 1 }

/-! ### Times of day -/

variable (tokens : Tokens)

/-- A part of the day in Spanish. -/
def spanishPart (index : ℕ) : Period :=
  if wordAt tokens index "manana" then .morning
  else if wordAt tokens index "tarde" then .afternoon
  else if wordAt tokens index "noche" then .night
  else if wordAt tokens index "madrugada" then .dawn
  else .none

/-- A part of the day in English. -/
def englishPart (index : ℕ) : Period :=
  if wordAt tokens index "morning" then .morning
  else if anyWordAt tokens index ["afternoon", "evening"] then .afternoon
  else if wordAt tokens index "night" then .night
  else .none

/-- A marker that can follow a time at once. -/
def strictMarkerAt (index : ℕ) : Option Marker :=
  if wordAt tokens index "am" then some { period := .am, length := 1 }
  else if wordAt tokens index "pm" then some { period := .pm, length := 1 }
  else if wordAt tokens index "a" ∧ wordAt tokens (index + 1) "m" then
    some { period := .am, length := 2 }
  else if wordAt tokens index "p" ∧ wordAt tokens (index + 1) "m" then
    some { period := .pm, length := 2 }
  else none

/-- The phrases with a part of the day, in the order in which they are tried: whether the words
before the part are there, the part, how many words there are, and whether they say today. -/
def phraseMarkers (index : ℕ) : List (Bool × Marker) :=
  [(anyWordAt tokens index ["de", "en", "por"] ∧ wordAt tokens (index + 1) "la",
      { period := spanishPart tokens (index + 2), length := 3 }),
    (wordAt tokens index "esta",
      { period := spanishPart tokens (index + 1), length := 2, today := true }),
    (wordAt tokens index "del" ∧ wordAt tokens (index + 1) "mediodia",
      { period := .afternoon, length := 2 }),
    (wordAt tokens index "in" ∧ wordAt tokens (index + 1) "the",
      { period := englishPart tokens (index + 2), length := 3 }),
    (wordAt tokens index "at" ∧ wordAt tokens (index + 1) "night",
      { period := .night, length := 2 }),
    (wordAt tokens index "this",
      { period := englishPart tokens (index + 1), length := 2, today := true }),
    (wordAt tokens index "tonight", { period := .night, length := 1, today := true }),
    (true, { period := englishPart tokens index, length := 1 })]

/-- A phrase that names a part of the day. -/
def phraseMarkerAt (index : ℕ) : Option Marker :=
  ((phraseMarkers tokens index).find? fun phrase => phrase.1 ∧ phrase.2.period ≠ .none).map (·.2)

/-- Whether what follows a number shows that it is an hour. -/
def clockMarkerAt (index : ℕ) : Bool :=
  (strictMarkerAt tokens index).isSome ∨ (phraseMarkerAt tokens index).isSome ∨
    anyWordAt tokens index ["y", "menos"] ∨
    wordAt tokens index "en" ∧ wordAt tokens (index + 1) "punto"

/-- The hour, and whether it is spelled out. -/
def hourOf (head : Bytes) : Except Thrown (Option (ClockReading × Bool)) :=
  match Words.cut kColon head with
  | some (hours, minutes) =>
    if hours.length > 2 ∨ minutes.length ≠ 2 then .ok none
    else do
      let hour ← stoi hours
      let minute ← stoi minutes
      if hour > 23 ∨ minute > 59 then return none
      let literal := hour = 0 ∨ hour ≥ kNoon + 1 ∨ hours.length = 2 ∧ hours.head? = some 0x30
      return some ({ hour, minute, literal }, false)
  | none =>
    if head = ascii "mediodia" ∨ head = ascii "noon" ∨ head = ascii "midday" then
      .ok (some ({ midday := true, hour := kNoon }, false))
    else if head = ascii "medianoche" ∨ head = ascii "midnight" then
      .ok (some ({ midnight := true }, false))
    else
      let hour := smallNumber head
      if hour < 0 ∨ hour > 23 ∨ head = ascii "a" ∨ head = ascii "an" ∨ head = ascii "un" then
        .ok none
      else
        let literal := hour = 0 ∨ hour ≥ kNoon + 1 ∨
          onlyDigits head ∧ head.length = 2 ∧ head.head? = some 0x30
        .ok (some ({ hour, literal }, !onlyDigits head))

/-- The minutes behind the hour, and where the words go on. -/
def minutesOf (reading : ClockReading) (spelled : Bool) (next : ℕ) : ClockReading × ℕ :=
  if spelled ∧ wordAt tokens next "hundred" then
    (reading, if wordAt tokens (next + 1) "hours" then next + 2 else next + 1)
  else if reading.midday ∨ reading.midnight then (reading, next)
  else if wordAt tokens next "y" then
    match minutesAt tokens (next + 1) with
    | some minutes => ({ reading with minute := minutes.value }, next + (1 + minutes.length))
    | none => (reading, next)
  else if wordAt tokens next "menos" then
    match (minutesAt tokens (next + 1)).filter fun minutes => minutes.value ≠ 30 with
    | some minutes => ({ reading with minus := minutes.value }, next + (1 + minutes.length))
    | none => (reading, next)
  else if spelled then
    match englishMinutesAt tokens next with
    | some minutes => ({ reading with minute := minutes.value }, next + minutes.length)
    | none => (reading, next)
  else (reading, next)

/-- The words that may close a time of day. -/
def sharpAt (next : ℕ) : ℕ :=
  if wordAt tokens next "o" ∧ wordAt tokens (next + 1) "clock" ∨
      wordAt tokens next "en" ∧ wordAt tokens (next + 1) "punto" then next + 2
  else if wordAt tokens next "sharp" then next + 1
  else next

/-- What follows the hour. -/
def closed (reading : ClockReading) (spelled : Bool) (index : ℕ) : ClockReading :=
  let (reading, next) := minutesOf tokens reading spelled (index + 1)
  let next := sharpAt tokens next
  match (strictMarkerAt tokens next).or (phraseMarkerAt tokens next) with
  | some marker => { reading with period := marker.period, last := next + marker.length - 1 }
  | none => { reading with last := next - 1 }

/-- The time of the day that begins with an hour. -/
def clockAt (index : ℕ) : Except Thrown (Option ClockReading) :=
  match tokens[index]? with
  | none => .ok none
  | some { text := head, .. } =>
    (hourOf head).map fun hour =>
      hour.map fun (reading, spelled) => closed tokens reading spelled index

/-- The minutes before a `past` or a `to`, and where the words go on. -/
def spokenMinutes (index : ℕ) : Option (ℤ × ℕ) :=
  if wordAt tokens index "half" then some (30, index + 1)
  else if wordAt tokens index "quarter" then some (15, index + 1)
  else
    ((englishMinutesAt tokens index).filter fun spoken => spoken.value ≤ 25).map fun spoken =>
      (spoken.value, index + spoken.length)

/-- The time of the day that begins with its minutes, in English. -/
def pastAt (index : ℕ) : Except Thrown (Option ClockReading) :=
  match spokenMinutes tokens index with
  | none => .ok none
  | some (minutes, next) =>
    let past := wordAt tokens next "past"
    if !past ∧ !wordAt tokens next "to" then .ok none
    else
      (clockAt tokens (next + 1)).map fun reading =>
        (reading.filter fun reading => !reading.literal).map fun reading =>
          if past then { reading with minute := reading.minute + minutes }
          else { reading with minus := reading.minus + minutes }

/-! ### Spans of time -/

/-- A span of time in minutes. -/
def relativeAmountAt (index : ℕ) : Option Counted :=
  if wordAt tokens index "media" ∧ wordAt tokens (index + 1) "hora" then
    some { value := 30, length := 2 }
  else if wordAt tokens index "half" ∧ wordAt tokens (index + 1) "an" ∧
      wordAt tokens (index + 2) "hour" then some { value := 30, length := 3 }
  else none

/-- A moment that is said as a span from now on. -/
structure Relative where
  fireAt : ℤ
  first : ℕ
  last : ℕ

/-- The length of a unit, and 0 for any other word. -/
def stepOf (unit : Bytes) : ℤ :=
  if (ascii "minuto").isPrefixOf unit ∨ (ascii "minute").isPrefixOf unit ∨ unit = ascii "min" then
    kMinuteS
  else if (ascii "hora").isPrefixOf unit ∨ (ascii "hour").isPrefixOf unit then kHourS
  else 0

/-- The words of a span from the second or third on. -/
def relativeFrom (now : ℤ) (first index : ℕ) : Option Relative :=
  match tokens[index]? with
  | none => none
  | some { text := head, .. } =>
    match relativeAmountAt tokens index with
    | some half =>
      some { fireAt := now + half.value * kMinuteS, first, last := index + half.length - 1 }
    | none =>
      match tokens[index + 1]? with
      | none => none
      | some { text := unit, .. } =>
        if smallNumber head ≤ 0 ∨ stepOf unit = 0 then none
        else some { fireAt := now + smallNumber head * stepOf unit, first, last := index + 1 }

/-- The first span from now on in the text. -/
def relative (now : ℤ) : Option Relative :=
  (List.range tokens.length).findSome? fun index =>
    if wordAt tokens index "dentro" ∧ wordAt tokens (index + 1) "de" then
      relativeFrom tokens now index (index + 2)
    else if anyWordAt tokens index ["en", "in"] then relativeFrom tokens now index (index + 1)
    else none

/-! ### All that is said -/

/-- The year and the word it is. -/
def explicitYearAt (index : ℕ) : Option (ℤ × ℕ) :=
  let next := if anyWordAt tokens index ["de", "del", "of"] then index + 1 else index
  match tokens[next]? with
  | none => none
  | some { text, .. } =>
    if text.length ≠ 4 ∨ !onlyDigits text then none
    else if (value 10 text : ℤ) < 2000 ∨ (value 10 text : ℤ) > 2199 then none
    else some (value 10 text, next)

namespace Parsed

/-- The words that were read go from the first to the last of them. -/
def widen (parsed : Parsed) (first last : ℕ) : Parsed :=
  { parsed with first := min parsed.first first, last := max parsed.last last }

/-- The time of the day is known. -/
def take (parsed : Parsed) (reading : ClockReading) (first : ℕ) : Parsed :=
  ({ parsed with clock := some reading, clockFirst := first } : Parsed).widen first reading.last

end Parsed

/-- A part of the day is read. -/
def marker (parsed : Parsed) (index : ℕ) : Parsed × ℕ :=
  match phraseMarkerAt tokens index with
  | none => (parsed, 0)
  | some found =>
    let context := if parsed.context = .none then found.period else parsed.context
    let offset := if found.today ∧ parsed.offset < 0 then 0 else parsed.offset
    (({ parsed with context, offset, today := parsed.today ∨ found.today } : Parsed).widen
      index (index + found.length - 1), found.length)

/-- Today, tomorrow or the day after it is read. -/
def day (parsed : Parsed) (index : ℕ) : Parsed × ℕ :=
  let named : Option (ℕ × ℤ × Bool) :=
    if wordAt tokens index "pasado" ∧ wordAt tokens (index + 1) "manana" then some (2, 2, false)
    else if wordAt tokens index "day" ∧ wordAt tokens (index + 1) "after" ∧
        wordAt tokens (index + 2) "tomorrow" then some (3, 2, false)
    else if anyWordAt tokens index ["manana", "tomorrow"] then some (1, 1, false)
    else if anyWordAt tokens index ["hoy", "today"] then some (1, 0, true)
    else none
  match named with
  | none => (parsed, 0)
  | some (length, offset, today) =>
    (({ parsed with
        offset := if parsed.offset < 0 then offset else parsed.offset
        today := parsed.today ∨ today } : Parsed).widen index (index + length - 1), length)

/-- The month behind a day, with its year, and the last of the words. -/
def monthAfter (index : ℕ) (hit : DateHit) : Option (DateHit × ℕ) :=
  let next := if anyWordAt tokens index ["de", "del", "of"] then index + 1 else index
  match tokens[next]? with
  | none => none
  | some { text, .. } =>
    if monthOf text > 0 then
      match explicitYearAt tokens (next + 1) with
      | some (year, last) => some ({ hit with month := monthOf text, year }, last)
      | none => some ({ hit with month := monthOf text }, next)
    else none

/-- The date that a number begins, which is not an hour. -/
def dateFrom (number : Counted) (next : ℕ) : Option (DateHit × ℕ) :=
  let after := next + number.length
  if (strictMarkerAt tokens after).isSome ∨ clockMarkerAt tokens after then none
  else some ((monthAfter tokens after { day := number.value }).getD
    ({ day := number.value }, after - 1))

/-- A weekday is read. -/
def weekday (parsed : Parsed) (index : ℕ) : Parsed × ℕ :=
  match tokens[index]? with
  | none => (parsed, 0)
  | some { text, .. } =>
    if weekdayOf text < 0 then (parsed, 0)
    else
      let article := index > 0 ∧ anyWordAt tokens (index - 1) ["el", "on"]
      let parsed := ({ parsed with weekday := weekdayOf text } : Parsed).widen
        (if article then index - 1 else index) index
      let next := if wordAt tokens (index + 1) "the" then index + 2 else index + 1
      let hit := if parsed.date.isSome then none
        else (dayNumberAt tokens next).bind fun number => dateFrom tokens number next
      match hit with
      | none => (parsed, 1)
      | some (hit, end_) =>
        (({ parsed with date := some hit } : Parsed).widen index end_, end_ - index + 1)

/-- The date behind an article. -/
def dateBehind (index : ℕ) : Option (DateHit × ℕ) :=
  let spanish := wordAt tokens index "el"
  let next := if spanish ∧ wordAt tokens (index + 1) "dia" then index + 2 else index + 1
  (dayNumberAt tokens next).bind fun number =>
    if !spanish ∧ !number.ordinal then none else dateFrom tokens number next

/-- The date behind the name of a month. -/
def dateInMonth (month : ℤ) (index : ℕ) : Option (DateHit × ℕ) :=
  ((dayNumberAt tokens (index + 1)).or (cardinalDayAt tokens (index + 1))).bind fun number =>
    let digits := tokens[index + 1]?.any fun token => onlyDigits token.text
    if !digits ∧ !number.ordinal then none
    else if (strictMarkerAt tokens (index + 1 + number.length)).isSome then none
    else
      match explicitYearAt tokens (index + number.length + 1) with
      | some (year, last) => some ({ day := number.value, month, year }, last)
      | none => some ({ day := number.value, month }, index + number.length)

/-- The date, with the words it is said in. -/
def dated (parsed : Parsed) (index first : ℕ) : Option (DateHit × ℕ) → Parsed × ℕ
  | none => (parsed, 0)
  | some (hit, end_) =>
    (({ parsed with date := some hit } : Parsed).widen first end_, end_ - index + 1)

/-- A date is read, if there is none yet. -/
def date (parsed : Parsed) (index : ℕ) : Parsed × ℕ :=
  if parsed.date.isSome then (parsed, 0)
  else if wordAt tokens index "el" ∨ wordAt tokens index "the" then
    dated parsed index (if index > 0 ∧ wordAt tokens (index - 1) "on" then index - 1 else index)
      (dateBehind tokens index)
  else
    match tokens[index]? with
    | none => (parsed, 0)
    | some { text, .. } =>
      if monthOf text > 0 then dated parsed index index (dateInMonth tokens (monthOf text) index)
      else
        dated parsed index index <| (dayNumberAt tokens index).bind fun number =>
          monthAfter tokens (index + number.length) { day := number.value }

/-- The first of some readings, with the word it begins with. -/
def taken (parsed : Parsed) (index : ℕ) :
    List (ℕ × Except Thrown (Option ClockReading)) → Except Thrown (Parsed × ℕ)
  | [] => .ok (parsed, 0)
  | (first, reading) :: readings => do
    match ← reading with
    | some reading => return (parsed.take reading first, reading.last - index + 1)
    | none => taken parsed index readings

/-- A time of the day is read, if there is none yet. -/
def clock (parsed : Parsed) (index : ℕ) : Except Thrown (Parsed × ℕ) :=
  if parsed.clock.isSome then .ok (parsed, 0)
  else
    let introduced :=
      (anyWordAt tokens index ["las", "la"] ∧ index > 0 ∧
        anyWordAt tokens (index - 1) ["a", "para", "hacia", "sobre"]) ∨
      (wordAt tokens index "las" ∧ index > 1 ∧ wordAt tokens (index - 1) "de" ∧
        wordAt tokens (index - 2) "eso")
    if introduced then taken parsed index [(index - 1, clockAt tokens (index + 1))]
    else if wordAt tokens index "at" then
      taken parsed index [(index, pastAt tokens (index + 1)), (index, clockAt tokens (index + 1))]
    else
      match tokens[index]? with
      | none => .ok (parsed, 0)
      | some { text := head, .. } =>
        let keyword := anyWordAt tokens index ["mediodia", "noon", "midday", "medianoche", "midnight"]
        let colon := kColon ∈ head
        let strict := (smallNumber head ≥ 0 ∧ head ≠ ascii "a" ∧ head ≠ ascii "an" ∧
          head ≠ ascii "un") ∧ ((strictMarkerAt tokens (index + 1)).isSome ∨
            wordAt tokens (index + 1) "o" ∧ wordAt tokens (index + 2) "clock")
        let lead := keyword ∧ index > 0 ∧ anyWordAt tokens (index - 1) ["a", "al", "at", "del"]
        taken parsed index ((index, pastAt tokens index) ::
          if keyword ∨ colon ∨ strict then
            [(if lead then index - 1 else index, clockAt tokens index)] else [])

/-- The phrases, in the order in which they are tried. -/
def step (parsed : Parsed) (index : ℕ) : Except Thrown (Parsed × ℕ) :=
  let s := [marker tokens, day tokens, weekday tokens, date tokens].foldl
    (fun s phrase => if s.2 = 0 then phrase s.1 index else s) (parsed, 0)
  if s.2 = 0 then clock tokens s.1 index else .ok s

/-- The words from an index on are read. -/
def runFrom (parsed : Parsed) (index : ℕ) : Except Thrown Parsed :=
  if index < tokens.length then
    match step tokens parsed index with
    | .error thrown => .error thrown
    | .ok (parsed, used) => runFrom parsed (index + max used 1)
  else .ok parsed
termination_by tokens.length - index

/-- All words are read. -/
def run : Except Thrown Parsed := runFrom tokens {} 0

/-! ### The moment -/

/-- The next day of a date, or that it is too far ahead. -/
structure Upcoming where
  date : Option Date := none
  far : Bool := false

/-- The next day of a date on which the time is still to come. -/
def upcomingDate (zone : ℤ) (hit : DateHit) (today : Date) (clock : ClockReading) (now : ℤ) :
    Except Thrown Upcoming :=
  let ahead (civil : Date) : Except Thrown Bool :=
    (isValid civil).map fun (valid : Bool) =>
      decide (valid ∧ instantOf zone civil clock > now)
  if hit.year > 0 then do
    let civil : Date := { year := hit.year, month := hit.month, day := hit.day }
    if !(← isValid civil) then return {}
    return if ← ahead civil then { date := some civil } else { far := true }
  else if hit.month > 0 then do
    let civils := [today.year, today.year + 1].map fun year =>
      ({ year, month := hit.month, day := hit.day } : Date)
    return { date := ← civils.findM? ahead }
  else do
    let civils := (List.range (kMonthsAhead + 1)).map fun (step : ℕ) =>
      let index := today.month - 1 + step
      ({ year := today.year + index.tdiv kMonthsInYear
         month := index.tmod kMonthsInYear + 1, day := hit.day } : Date)
    return { date := ← civils.findM? ahead }

/-- What the words come to: a moment, a conflict, one too far ahead, or one that has passed. -/
structure Resolved where
  fireAt : Option ℤ := none
  conflict : Option DayConflict := none
  far : Bool := false
  passed : Option ℤ := none

/-- An hour of the morning with which no part of the day was said. -/
def bareMorning (clock : ClockReading) : Bool :=
  clock.period = .none ∧ !clock.literal ∧ !clock.midday ∧ !clock.midnight ∧ clock.hour ≥ 7 ∧
    clock.hour ≤ 11

/-- The moments of a conflict: on the nearest such weekday, and on the date. -/
def conflictOf (zone : ℤ) (date : Date) (weekday : ℤ) (clock : ClockReading) (now : ℤ) :
    DayConflict :=
  let forward := (weekday - weekdayIndex zone date + kWeekDays).tmod kWeekDays
  let backward := kWeekDays - forward
  let day := shifted zone date (if forward ≤ backward then forward else -backward)
  let day := if instantOf zone day clock ≤ now then shifted zone day kWeekDays else day
  { byWeekday := instantOf zone day clock, byDate := instantOf zone date clock }

/-- What is said of a weekday. -/
def onWeekday (zone : ℤ) (parsed : Parsed) (clock : ClockReading) (now : ℤ) : Resolved :=
  let today := civilOf zone now
  let ahead := (parsed.weekday - weekdayIndex zone today + kWeekDays).tmod kWeekDays
  let ahead := if ahead = 0 then kWeekDays else ahead
  let named := shifted zone today parsed.offset
  if parsed.offset ≥ 0 ∧ weekdayIndex zone named ≠ parsed.weekday then
    { conflict := some
        { byWeekday := instantOf zone (shifted zone today ahead) clock
          byDate := instantOf zone named clock, relative := parsed.offset } }
  else
    let ahead := if parsed.offset ≥ 0 then parsed.offset else ahead
    let fireAt := instantOf zone (shifted zone today ahead) clock
    if fireAt ≤ now then {} else { fireAt := some fireAt }

/-- What is said without a date and a weekday. -/
def onDay (zone : ℤ) (parsed : Parsed) (clock : ClockReading) (now : ℤ) : Resolved :=
  let today := civilOf zone now
  if parsed.offset > 0 then
    { fireAt := some (instantOf zone (shifted zone today parsed.offset) clock) }
  else
    let fireAt := instantOf zone today clock
    let tonight := instantOf zone today { clock with period := .pm }
    if fireAt > now then { fireAt := some fireAt }
    else if bareMorning clock ∧ tonight > now then { fireAt := some tonight }
    else if parsed.offset = 0 ∨ parsed.today then
      { passed := some (instantOf zone (shifted zone today 1) clock) }
    else { fireAt := some (instantOf zone (shifted zone today 1) clock) }

/-- The time of day, with the part of the day that is said elsewhere. -/
def inContext (parsed : Parsed) (clock : ClockReading) : ClockReading :=
  if clock.period = .none then { clock with period := parsed.context } else clock

/-- The moment of what was said, by the date, the weekday or the day. -/
def instantFor (zone : ℤ) (parsed : Parsed) (clock : ClockReading) (now : ℤ) :
    Except Thrown Resolved :=
  let clock := inContext parsed clock
  match parsed.date with
  | some hit => do
    let upcoming ← upcomingDate zone hit (civilOf zone now) clock now
    match upcoming.date with
    | none => return { far := upcoming.far }
    | some date =>
      if parsed.weekday ≥ 0 ∧ weekdayIndex zone date ≠ parsed.weekday then
        return { conflict := some (conflictOf zone date parsed.weekday clock now) }
      return { fireAt := some (instantOf zone date clock) }
  | none =>
    if parsed.weekday ≥ 0 then .ok (onWeekday zone parsed clock now)
    else .ok (onDay zone parsed clock now)

/-- Where the words from one to another begin and end in the text. -/
def phraseOf (folded : Folded) (tokens : Tokens) (first last : ℕ) : ℕ × ℕ :=
  (folded.origin.getD ((tokens[first]?.map (·.begin_)).getD 0) 0,
    folded.origin.getD ((tokens[last]?.map (·.end_)).getD 0) 0)

/-- The moment with the bytes of the words that name it. -/
def timeOf (folded : Folded) (tokens : Tokens) (fireAt : ℤ) (first last : ℕ) : CallTime :=
  let (phraseBegin, phraseEnd) := phraseOf folded tokens first last
  { fireAt, phraseBegin, phraseEnd }

/-- What is told of a moment that was found. -/
def answered (zone now : ℤ) (folded : Folded) (tokens : Tokens) (parsed : Parsed)
    (result : Resolved) : CallReading :=
  let limit := yearAfter zone now
  match result.conflict with
  | some conflict =>
    if max conflict.byWeekday conflict.byDate > limit then { farAway := true }
    else
      let (phraseBegin, phraseEnd) := phraseOf folded tokens parsed.first parsed.last
      { conflict := some { conflict with phraseBegin, phraseEnd } }
  | none =>
    if result.far ∨ (result.fireAt.any (· > limit) : Bool) ∧ parsed.date.isSome then
      { farAway := true }
    else if result.passed.isSome then { passedToday := result.passed }
    else
      match result.fireAt.filter (· ≤ limit) with
      | none => {}
      | some fireAt => { time := some (timeOf folded tokens fireAt parsed.first parsed.last) }

/-- What a text says about the moment of a call, at a moment in a zone. -/
def read (zone : ℤ) (text : Bytes) (now : ℤ) : Except Thrown CallReading :=
  let folded := fold text
  let tokens := tokenize folded.text
  if tokens = [] then .ok {}
  else
    match relative tokens now with
    | some found =>
      if found.fireAt - now > kRelativeAheadS then .ok {}
      else .ok { time := some (timeOf folded tokens found.fireAt found.first found.last) }
    | none => do
      let parsed ← run tokens
      match parsed.clock with
      | none => return {}
      | some clock =>
        return answered zone now folded tokens parsed (← instantFor zone parsed clock now)

end CallTime

end Extract

end ArgusBackend
