import ArgusBackend.Extract.CallWords
import ArgusBackend.Extract.RepeatText

/-!
# Repeats that are spoken

* `unitAt`, `countAt` : what follows an `every`;
* `every`, `all`, `range`, `plural`, `adverb`, `times`, `vague` : the phrases of a repeat;
* `run` : all that a text says about repeating;
* `read` : the repeat that is decided from it;
* `text_form_exact` : the text form carries each repeat that is read, parsed or well formed.
-/

namespace ArgusBackend

namespace Extract

/-- The part of the day in which a repeat is. -/
inductive DayPart where
  | none | morning | afternoon | night
  deriving DecidableEq, Repr

namespace RepeatRule

open CallTime Numerals

/-- The days of a fortnight, as the Spanish count them. -/
def kFortnightDays : ℤ := 15

/-- The interval of every other day. -/
def kEveryOther : ℤ := 2

/-- Monday to Friday. -/
def kWorkdays : List ℤ := [1, 2, 3, 4, 5]

/-- Sunday and Saturday. -/
def kWeekend : List ℤ := [0, 6]

/-- The weekdays in the plural, which stand for every week. -/
def kEnglishPlurals : List String :=
  ["sundays", "mondays", "tuesdays", "wednesdays", "thursdays", "fridays", "saturdays"]

/-- What a repeat counts. -/
inductive TimeUnit where
  | none | day | week | month | year | weekday | part | weekend | workdays | fortnight | unsupported
  deriving DecidableEq, Repr

/-- A unit in the text and how many words name it. -/
structure UnitHit where
  unit : TimeUnit := .none
  part : DayPart := .none
  length : ℕ := 1

variable (tokens : Tokens)

/-! ### Words -/

/-- The weekday that a word names, also in the plural, or a negative number. -/
def weekdayAt (index : ℕ) : ℤ :=
  match tokens[index]? with
  | none => -1
  | some { text, .. } =>
    if weekdayOf text ≥ 0 then weekdayOf text
    else if text.length > 1 ∧ text.getLast? = some 0x73 then weekdayOf text.dropLast
    else -1

/-- Whether a word is a weekday in the English plural. -/
def englishPlural (index : ℕ) : Bool := anyWordAt tokens index kEnglishPlurals

/-- The word before it if that is `on`. -/
def ledBy (index : ℕ) : ℕ := if index > 0 ∧ wordAt tokens (index - 1) "on" then index - 1 else index

/-- Whether an article or a possessive comes before a word. -/
def articled (index : ℕ) : Bool :=
  index > 0 ∧ anyWordAt tokens (index - 1)
    ["el", "mi", "tu", "su", "un", "del", "al", "este", "ese", "the", "a", "my", "our", "your",
      "his", "her", "their", "this", "that"]

/-- The unit that begins at a word. -/
def unitAt (index : ℕ) : UnitHit :=
  if index ≥ tokens.length then {}
  else if anyWordAt tokens index ["dia", "dias", "day", "days"] then
    if anyWordAt tokens (index + 1) ["habiles", "laborables", "utiles"] then
      { unit := .workdays, length := 2 }
    else if wordAt tokens (index + 1) "de" ∧ wordAt tokens (index + 2) "semana" then
      { unit := .workdays, length := 3 }
    else { unit := .day }
  else if anyWordAt tokens index ["semana", "semanas", "week", "weeks"] then { unit := .week }
  else if anyWordAt tokens index ["mes", "meses", "month", "months"] then { unit := .month }
  else if anyWordAt tokens index ["ano", "anos", "year", "years"] then { unit := .year }
  else if anyWordAt tokens index ["quincena", "quincenas"] then { unit := .fortnight }
  else if anyWordAt tokens index ["fin", "fines"] ∧ wordAt tokens (index + 1) "de" ∧
      wordAt tokens (index + 2) "semana" then { unit := .weekend, length := 3 }
  else if anyWordAt tokens index ["weekend", "weekends"] then { unit := .weekend }
  else if anyWordAt tokens index ["weekday", "weekdays", "workday", "workdays"] then
    { unit := .workdays }
  else if wordAt tokens index "business" ∧ anyWordAt tokens (index + 1) ["day", "days"] then
    { unit := .workdays, length := 2 }
  else if weekdayAt tokens index ≥ 0 then { unit := .weekday }
  else if anyWordAt tokens index ["manana", "mananas", "morning", "mornings"] then
    { unit := .part, part := .morning }
  else if anyWordAt tokens index
      ["tarde", "tardes", "afternoon", "afternoons", "evening", "evenings"] then
    { unit := .part, part := .afternoon }
  else if anyWordAt tokens index ["noche", "noches", "night", "nights"] then
    { unit := .part, part := .night }
  else if anyWordAt tokens index
      ["hora", "horas", "minuto", "minutos", "segundo", "segundos", "rato", "ratito", "momento",
        "instante", "tanto", "cierto", "hour", "hours", "minute", "minutes", "second", "seconds",
        "while", "now", "so", "often"] then { unit := .unsupported }
  else {}

/-- The interval that a word names. -/
def countAt (index : ℕ) : Option ℤ :=
  match tokens[index]? with
  | none => none
  | some { text, .. } =>
    if wordAt tokens index "other" then some kEveryOther
    else if wordAt tokens index "second" ∧ (unitAt tokens (index + 1)).unit ≠ .none then
      some kEveryOther
    else if anyWordAt tokens index ["a", "an", "un", "una", "uno", "one"] then none
    else if smallNumber text < 1 then none
    else some (smallNumber text)

/-! ### What was found -/

/-- What a text has said about repeating so far. -/
structure Found where
  daily : Option ℤ := none
  weekly : Option ℤ := none
  monthly : Option ℤ := none
  yearly : Option ℤ := none
  weekdays : List ℕ := []
  part : DayPart := .none
  monthDay : ℤ := 0
  unsupported : Bool := false
  exception : Bool := false
  nthWeekday : Bool := false
  any : Bool := false
  first : ℕ := kNoIndex
  last : ℕ := 0

namespace Found

/-- The words from the first to the last are part of the repeat. -/
def mark (found : Found) (first last : ℕ) : Found :=
  { found with first := min found.first first, last := max found.last last, any := true }

/-- The first interval in days is kept. -/
def setDaily (found : Found) (value : ℤ) : Found :=
  { found with daily := found.daily.or (some value) }

/-- The first interval in weeks is kept. -/
def setWeekly (found : Found) (value : ℤ) : Found :=
  { found with weekly := found.weekly.or (some value) }

/-- The first interval in months is kept. -/
def setMonthly (found : Found) (value : ℤ) : Found :=
  { found with monthly := found.monthly.or (some value) }

/-- The first interval in years is kept. -/
def setYearly (found : Found) (value : ℤ) : Found :=
  { found with yearly := found.yearly.or (some value) }

/-- A weekday is added, if it is one and not there yet. -/
def addDay (found : Found) (day : ℤ) : Found :=
  if day ≥ 0 ∧ day.toNat ∉ found.weekdays then
    { found with weekdays := found.weekdays ++ [day.toNat] }
  else found

/-- Weekdays are added in order. -/
def addDays (found : Found) (days : List ℤ) : Found := days.foldl addDay found

/-- The days from one to another, through the end of the week.  No range is longer than a week. -/
def addRange (found : Found) : ℕ → ℤ → ℤ → Found
  | 0, _, _ => found
  | left + 1, day, to_ =>
    let found := found.addDay day
    if day = to_ then found else found.addRange left ((day + 1) % 7) to_

end Found

/-! ### Phrases -/

/-- The weekdays from one to another. -/
def rangeAt (found : Found) (index : ℕ) : Option (Found × ℕ) :=
  if !anyWordAt tokens (index + 1)
      ["a", "al", "to", "through", "thru", "until", "till", "hasta"] then none
  else
    let from_ := weekdayAt tokens index
    let to_ := weekdayAt tokens (index + 2)
    if from_ < 0 ∨ to_ < 0 then none else some (found.addRange 7 from_ to_, index + 2)

/-- The inner loop of `list`, over the words between two days. -/
def probeFrom (probe : ℕ) : ℕ :=
  if probe < tokens.length ∧
      anyWordAt tokens probe ["y", "e", "and", "los", "el", "on", "the"] then probeFrom (probe + 1)
  else probe
termination_by tokens.length - probe

lemma le_probeFrom (probe : ℕ) : probe ≤ probeFrom tokens probe := by
  induction probe using probeFrom.induct tokens with
  | case1 probe h ih =>
    rw [probeFrom, if_pos h]
    omega
  | case2 probe h => rw [probeFrom, if_neg h]

/-- The weekdays that go on a list. -/
def listFrom (found : Found) (last next : ℕ) : Found × ℕ :=
  if next < tokens.length then
    let probe := probeFrom tokens next
    if weekdayAt tokens probe < 0 then (found, last)
    else
      match rangeAt tokens found probe with
      | some (found, _) => listFrom found (probe + 2) (probe + 3)
      | none => listFrom (found.addDay (weekdayAt tokens probe)) probe (probe + 1)
  else (found, last)
termination_by tokens.length - next
decreasing_by
  all_goals
    have := le_probeFrom tokens next
    omega

/-- A weekday, a range of them, or a list. -/
def list (found : Found) (index : ℕ) : Found × ℕ :=
  match rangeAt tokens found index with
  | some ranged => ranged
  | none => listFrom tokens (found.addDay (weekdayAt tokens index)) index (index + 1)

/-- A unit with its interval is taken. -/
def apply (found : Found) (hit : UnitHit) (index : ℕ) (count : ℤ) : Found × ℕ :=
  let end_ := index + hit.length - 1
  match hit.unit with
  | .day => (found.setDaily count, end_)
  | .week => (found.setWeekly count, end_)
  | .month => (found.setMonthly count, end_)
  | .year => (found.setYearly count, end_)
  | .fortnight => (found.setDaily (kFortnightDays * count), end_)
  | .part =>
    let found := found.setDaily count
    ({ found with part := if found.part = .none then hit.part else found.part }, end_)
  | .weekend => ((found.addDays kWeekend).setWeekly count, end_)
  | .workdays => ((found.addDays kWorkdays).setWeekly count, end_)
  | .weekday => list tokens (found.setWeekly count) index
  | .unsupported => ({ found with unsupported := true }, end_)
  | .none => (found, index)

/-- A unit from a word on, with the words that lead to it. -/
def marked (found : Found) (hit : UnitHit) (index : ℕ) (count : ℤ) (first used : ℕ) : Found × ℕ :=
  let (found, last) := apply tokens found hit index count
  (found.mark first last, last - used + 1)

/-- `every` and its unit. -/
def every (found : Found) (index : ℕ) : Found × ℕ :=
  if !anyWordAt tokens index ["cada", "every", "each"] then (found, 0)
  else
    let next := index + 1
    let count := countAt tokens next
    let month := if wordAt tokens (next + 2) "cada" then next + 3 else next + 2
    let dayOfMonth := count.filter fun value => value ≤ kLastMonthDay ∧
      wordAt tokens (next + 1) "de" ∧ wordAt tokens month "mes"
    match dayOfMonth with
    | some value =>
      (({ found.setMonthly 1 with monthDay := value } : Found).mark index month, month - index + 1)
    | none =>
      let next := if count.isSome then next + 1 else next
      let hit := unitAt tokens next
      if hit.unit = .none then
        if count.isNone then (found, 0)
        else (({ found with unsupported := true } : Found).mark index (next - 1), next - index)
      else marked tokens found hit next (count.getD 1) index index

/-- The Spanish `todos los` and its unit. -/
def all (found : Found) (index : ℕ) : Found × ℕ :=
  if !anyWordAt tokens index ["todos", "todas"] ∨ !anyWordAt tokens (index + 1) ["los", "las"] then
    (found, 0)
  else
    let hit := unitAt tokens (index + 2)
    if hit.unit = .none ∨ hit.unit = .unsupported then (found, 0)
    else marked tokens found hit (index + 2) 1 index index

/-- A range of days, from a word on, with the word that leads to it. -/
def ranged (found : Found) (index first : ℕ) : Option (Found × ℕ) :=
  (rangeAt tokens found index).map fun (found, last) =>
    ((found.setWeekly 1).mark first last, last - first + 1)

/-- A range of weekdays. -/
def range (found : Found) (index : ℕ) : Found × ℕ :=
  let led := if anyWordAt tokens index ["de", "del", "from"] ∧ weekdayAt tokens (index + 1) ≥ 0 then
    ranged tokens found (index + 1) index else none
  let bare := if weekdayAt tokens index ≥ 0 ∧ anyWordAt tokens (index + 1) ["through", "thru"] then
    ranged tokens found index index else none
  (led.or bare).getD (found, 0)

/-- A unit in the plural. -/
def plural (found : Found) (index : ℕ) : Found × ℕ :=
  if wordAt tokens index "los" then
    let hit := unitAt tokens (index + 1)
    if hit.unit = .weekday ∨ hit.unit = .weekend ∨ hit.unit = .workdays then
      marked tokens found hit (index + 1) 1 index index
    else (found, 0)
  else if wordAt tokens index "entre" ∧ wordAt tokens (index + 1) "semana" then
    (((found.addDays kWorkdays).setWeekly 1).mark index (index + 1), 2)
  else if englishPlural tokens index then
    let (found, last) := list tokens (found.setWeekly 1) index
    (found.mark (ledBy tokens index) last, last - index + 1)
  else if anyWordAt tokens index
      ["dias", "fines", "weekends", "weekdays", "workdays", "business"] then
    let hit := unitAt tokens index
    if hit.unit = .weekend ∨ hit.unit = .workdays then
      marked tokens found hit index 1 (ledBy tokens index) index
    else (found, 0)
  else (found, 0)

/-- The loop of `dia si y dia no`, over three words. -/
def lastOfOther (index : ℕ) : ℕ :=
  ([index + 3, index + 4, index + 5].find? fun probe => wordAt tokens probe "no").getD (index + 2)

/-- An adverb of repeating, or an adjective that stands for one. -/
def adverb (found : Found) (index : ℕ) : Found × ℕ :=
  let afterA := index > 0 ∧ wordAt tokens (index - 1) "a"
  if wordAt tokens index "diario" then
    if ¬afterA ∧ articled tokens index then (found, 0)
    else ((found.setDaily 1).mark (if afterA then index - 1 else index) index, 1)
  else if anyWordAt tokens index ["diariamente", "everyday"] then
    ((found.setDaily 1).mark index index, 1)
  else if anyWordAt tokens index ["interdiario", "interdiaria"] then
    ((found.setDaily kEveryOther).mark index index, 1)
  else if wordAt tokens index "dia" then
    let next := if wordAt tokens (index + 1) "de" then index + 2 else index + 1
    if wordAt tokens next "por" ∧ wordAt tokens (next + 1) "medio" then
      ((found.setDaily kEveryOther).mark index (next + 1), next + 2 - index)
    else if wordAt tokens (index + 1) "si" ∧ wordAt tokens (index + 2) "y" then
      let last := lastOfOther tokens index
      let first := if index > 0 ∧ wordAt tokens (index - 1) "un" then index - 1 else index
      ((found.setDaily kEveryOther).mark first last, last - index + 1)
    else (found, 0)
  else if wordAt tokens index "daily" ∧ !articled tokens index then
    ((found.setDaily 1).mark index index, 1)
  else if wordAt tokens index "semanalmente" ∨
      wordAt tokens index "weekly" ∧ !articled tokens index then
    ((found.setWeekly 1).mark index index, 1)
  else if wordAt tokens index "mensualmente" ∨
      wordAt tokens index "monthly" ∧ !articled tokens index then
    ((found.setMonthly 1).mark index index, 1)
  else if anyWordAt tokens index ["anualmente", "annually"] ∨
      wordAt tokens index "yearly" ∧ !articled tokens index then
    ((found.setYearly 1).mark index index, 1)
  else (found, 0)

/-- How often in a unit; more than once is more than can be set. -/
def frequent (found : Found) (hit : UnitHit) (first last : ℕ) (once : Bool) : Option Found :=
  if hit.unit ≠ .day ∧ hit.unit ≠ .week ∧ hit.unit ≠ .month ∧ hit.unit ≠ .year then none
  else if once then some ((apply tokens found hit last 1).1.mark first last)
  else some (({ found with unsupported := true } : Found).mark first last)

/-- A number of times in a unit. -/
def times (found : Found) (index : ℕ) : Found × ℕ :=
  if anyWordAt tokens index ["vez", "veces"] then
    let next := if anyWordAt tokens (index + 1) ["al", "por"] then some (index + 2)
      else if wordAt tokens (index + 1) "a" ∧ wordAt tokens (index + 2) "la" then some (index + 3)
      else none
    match next with
    | none => (found, 0)
    | some next =>
      let once := wordAt tokens index "vez" ∧ index > 0 ∧ wordAt tokens (index - 1) "una"
      let hit := unitAt tokens next
      match frequent tokens found hit (if index > 0 then index - 1 else index) next once with
      | some found => (found, next - index + 1)
      | none => (found, 0)
  else if anyWordAt tokens index ["once", "twice", "thrice", "times"] ∧
      anyWordAt tokens (index + 1) ["a", "per"] then
    let once := wordAt tokens index "once"
    let hit := unitAt tokens (index + 2)
    let first := if wordAt tokens index "times" ∧ index > 0 then index - 1 else index
    match frequent tokens found hit first (index + 2) once with
    | some found => (found, 3)
    | none => (found, 0)
  else (found, 0)

/-- A phrase of repeating that says no interval. -/
def vague (found : Found) (index : ℕ) : Found × ℕ :=
  let words := fun (a b c d : String) => wordAt tokens index a ∧ wordAt tokens (index + 1) b ∧
    wordAt tokens (index + 2) c ∧ wordAt tokens (index + 3) d
  if words "de" "vez" "en" "cuando" ∨ words "from" "time" "to" "time" then
    (({ found with unsupported := true } : Found).mark index (index + 3), 4)
  else (found, 0)

/-- The phrases, in the order in which they are tried. -/
def phrases : List (Found → ℕ → Found × ℕ) :=
  [every tokens, all tokens, range tokens, plural tokens, adverb tokens, times tokens, vague tokens]

/-- The day of the month that is told from a word on. -/
def monthDayAt (found : Found) (index : ℕ) : Option Found :=
  if !anyWordAt tokens index ["el", "los", "the", "dia"] then none
  else
    let next := if anyWordAt tokens index ["el", "los"] ∧ wordAt tokens (index + 1) "dia" then
      index + 2 else index + 1
    (dayNumberAt tokens next).bind fun number =>
      if wordAt tokens index "the" ∧ !number.ordinal then none
      else
        let after := next + number.length
        let month := if anyWordAt tokens after ["de", "del", "of"] then after + 1 else after
        if (tokens[month]?.any fun token => monthOf token.text > 0 : Bool) then none
        else some (({ found with monthDay := number.value } : Found).mark
          (ledBy tokens index) (after - 1))

/-- The day of the month of a monthly repeat. -/
def monthDay (found : Found) (index : ℕ) : Found :=
  if index < tokens.length then
    match monthDayAt tokens found index with
    | some found => found
    | none => monthDay found (index + 1)
  else found
termination_by tokens.length - index

/-- The phrases of a repeat that may begin at a word, in their order. -/
def step (found : Found) (index : ℕ) : Found × ℕ :=
  let found := { found with
    exception := found.exception ∨ anyWordAt tokens index ["excepto", "salvo", "except"]
    nthWeekday := found.nthWeekday ∨
      anyWordAt tokens index
        ["primer", "primero", "segundo", "tercer", "tercero", "cuarto", "ultimo", "first", "second",
          "third", "fourth", "last"] ∧ weekdayAt tokens (index + 1) ≥ 0 }
  (phrases tokens).foldl (fun s phrase => if s.2 = 0 then phrase s.1 index else s) (found, 0)

/-- The words from an index on are read. -/
def runFrom (found : Found) (index : ℕ) : Found :=
  if index < tokens.length then
    let (found, used) := step tokens found index
    runFrom found (index + max used 1)
  else found
termination_by tokens.length - index

/-- All words are read; a monthly repeat is given its day. -/
def run : Found :=
  let found := runFrom tokens {} 0
  if found.monthly.isSome ∧ found.monthDay = 0 then monthDay tokens found 0 else found

/-! ### The repeat -/

/-- The repeat that was found, if it is one that can be set. -/
def decided (found : Found) (monthNamed : Bool) : Option Repeat :=
  if found.unsupported ∨ found.exception ∨
      found.nthWeekday ∧ (found.monthly.isSome ∨ found.yearly.isSome) then none
  else if found.weekdays ≠ [] then
    if found.monthly.isSome ∨ found.yearly.isSome ∨ found.daily.getD 1 ≠ 1 then none
    else
      let interval := found.weekly.getD 1
      if found.weekdays.mergeSort.length = 7 ∧ interval = 1 then
        some { frequency := .daily, interval := 1 }
      else some { frequency := .weekly, interval, weekdays := found.weekdays.mergeSort }
  else
    match found.monthly, found.yearly, found.daily, found.weekly with
    | some interval, yearly, daily, weekly =>
      if daily.isSome ∨ weekly.isSome ∨ yearly.isSome then none
      else some { frequency := .monthly, interval, monthDay := found.monthDay }
    | none, some interval, daily, weekly =>
      if daily.isSome ∨ weekly.isSome ∨ !monthNamed then none
      else some { frequency := .yearly, interval }
    | none, none, some interval, weekly =>
      if weekly.isSome then none else some { frequency := .daily, interval }
    | none, none, none, some interval => some { frequency := .weekly, interval }
    | none, none, none, none => none

/-- What a text says about repeating, and the bytes that say it. -/
structure RepeatReading where
  repeat_ : Option Repeat := none
  mentioned : Bool := false
  part : DayPart := .none
  phraseBegin : ℕ := 0
  phraseEnd : ℕ := 0

/-- The repeat of a text. -/
def read (text : Bytes) : RepeatReading :=
  let folded := fold text
  let tokens := tokenize folded.text
  if tokens = [] then {}
  else
    let found := run tokens
    if !found.any then {}
    else
      let monthNamed := tokens.any fun token => monthOf token.text > 0
      { repeat_ := (decided found monthNamed).filter fun r =>
          1 ≤ r.interval ∧ r.interval ≤ kMaxInterval
        mentioned := true
        part := found.part
        phraseBegin := folded.origin.getD ((tokens[found.first]?.map (·.begin_)).getD 0) 0
        phraseEnd := folded.origin.getD ((tokens[found.last]?.map (·.end_)).getD 0) 0 }

/-! ### What is read is well formed -/

/-- What the text form asks of what was found. -/
structure Found.Fits (found : Found) : Prop where
  nodup : found.weekdays.Nodup
  weekdays : ∀ day ∈ found.weekdays, day < 7
  monthDay : 0 ≤ found.monthDay ∧ found.monthDay ≤ kLastMonthDay

section Fits

variable {tokens} {found : Found} {index : ℕ} {days : List ℤ} {day to_ count : ℤ} {hit : UnitHit}

lemma weekdayAt_lt (tokens : Tokens) (index : ℕ) : weekdayAt tokens index < 7 := by
  have hday (text : Bytes) : weekdayOf text < 7 :=
    Int.lt_of_le_of_lt (valueOf_le (by decide) (show -1 ≤ (6 : ℤ) by decide)) (by decide)
  unfold weekdayAt
  split
  · decide
  · split_ifs
    · exact hday _
    · exact hday _
    · decide

namespace Found.Fits

lemma empty : Found.Fits {} := ⟨List.nodup_nil, by simp, by decide⟩

/-- Only days and the day of the month are asked about. -/
lemma same (h : found.Fits) {found' : Found} (hdays : found'.weekdays = found.weekdays)
    (hmonthDay : found'.monthDay = found.monthDay) : found'.Fits :=
  ⟨hdays ▸ h.nodup, hdays ▸ h.weekdays, hmonthDay ▸ h.monthDay⟩

lemma setWeekly (h : found.Fits) (value : ℤ) : (found.setWeekly value).Fits := h.same rfl rfl

lemma mark (h : found.Fits) (first last : ℕ) : (found.mark first last).Fits := h.same rfl rfl

lemma addDay (h : found.Fits) (hday : day < 7) : (found.addDay day).Fits := by
  unfold Found.addDay
  split_ifs with hnew
  · refine ⟨?_, fun d hd => ?_, h.monthDay⟩
    · refine List.nodup_append.mpr ⟨h.nodup, List.nodup_singleton _, ?_⟩
      rintro x hx y hy rfl
      exact hnew.2 (List.mem_singleton.mp hy ▸ hx)
    · rcases List.mem_append.mp hd with hd | hd
      · exact h.weekdays d hd
      · rw [List.mem_singleton.mp hd]
        omega
  · exact h

lemma addDays (h : found.Fits) (hdays : ∀ day ∈ days, day < 7) : (found.addDays days).Fits := by
  induction days generalizing found with
  | nil => exact h
  | cons day days ih =>
    rw [List.forall_mem_cons] at hdays
    exact ih (h.addDay hdays.1) hdays.2

lemma addRange (h : found.Fits) (hday : day < 7) (left : ℕ) :
    (found.addRange left day to_).Fits := by
  induction left generalizing found day with
  | zero => exact h
  | succ left ih =>
    rw [Found.addRange]
    split_ifs
    · exact h.addDay hday
    · exact ih (h.addDay hday) (Int.emod_lt_of_pos _ (by decide))

lemma rangeAt (h : found.Fits) {ranged : Found × ℕ}
    (hranged : RepeatRule.rangeAt tokens found index = some ranged) : ranged.1.Fits := by
  unfold RepeatRule.rangeAt at hranged
  obtain ⟨-, hranged⟩ := Option.ite_none_left_eq_some.mp hranged
  obtain ⟨-, hranged⟩ := Option.ite_none_left_eq_some.mp hranged
  obtain rfl := Option.some.inj hranged
  exact h.addRange (weekdayAt_lt tokens index) 7

lemma listFrom (h : found.Fits) (last next : ℕ) :
    (RepeatRule.listFrom tokens found last next).1.Fits := by
  induction found, last, next using RepeatRule.listFrom.induct tokens with
  | case1 found last next hlt probe hday =>
    rw [RepeatRule.listFrom, if_pos hlt]
    dsimp only
    rw [if_pos hday]
    exact h
  | case2 found last next hlt probe hday found' _ hranged ih =>
    rw [RepeatRule.listFrom, if_pos hlt]
    dsimp only
    rw [if_neg hday, hranged]
    exact ih (h.rangeAt hranged)
  | case3 found last next hlt probe hday hranged ih =>
    rw [RepeatRule.listFrom, if_pos hlt]
    dsimp only
    rw [if_neg hday, hranged]
    exact ih (h.addDay (weekdayAt_lt tokens _))
  | case4 found last next hlt =>
    rw [RepeatRule.listFrom, if_neg hlt]
    exact h

lemma list (h : found.Fits) (index : ℕ) : (RepeatRule.list tokens found index).1.Fits := by
  unfold RepeatRule.list
  split
  next ranged hranged => exact h.rangeAt hranged
  next => exact (h.addDay (weekdayAt_lt tokens index)).listFrom _ _

lemma apply (h : found.Fits) (hit : UnitHit) (index : ℕ) (count : ℤ) :
    (RepeatRule.apply tokens found hit index count).1.Fits := by
  unfold RepeatRule.apply
  dsimp only
  split
  case h_7 => exact (h.addDays (by decide)).setWeekly count
  case h_8 => exact (h.addDays (by decide)).setWeekly count
  case h_9 => exact (h.setWeekly count).list index
  all_goals exact h.same rfl rfl

lemma marked (h : found.Fits) (hit : UnitHit) (index : ℕ) (count : ℤ) (first used : ℕ) :
    (RepeatRule.marked tokens found hit index count first used).1.Fits :=
  (h.apply hit index count).same rfl rfl

lemma every (h : found.Fits) (index : ℕ) : (RepeatRule.every tokens found index).1.Fits := by
  have hcount {value : ℤ} (hvalue : countAt tokens (index + 1) = some value) : 1 ≤ value := by
    unfold countAt at hvalue
    split at hvalue
    · cases hvalue
    · split_ifs at hvalue with h₁ h₂ h₃ h₄
      · exact Option.some.inj hvalue ▸ (by decide)
      · exact Option.some.inj hvalue ▸ (by decide)
      · exact Option.some.inj hvalue ▸ not_lt.mp h₄
  unfold RepeatRule.every
  dsimp only
  split
  · exact h
  split
  next value hvalue =>
    obtain ⟨hvalue, hle⟩ := Option.filter_eq_some_iff.mp hvalue
    have hle := (of_decide_eq_true hle).1
    have hlo := hcount hvalue
    exact ⟨h.nodup, h.weekdays, by dsimp only [Found.mark]; omega, hle⟩
  next =>
    generalize (if (countAt tokens (index + 1)).isSome = true then index + 1 + 1
      else index + 1) = next
    split
    · split
      · exact h
      · exact h.same rfl rfl
    · exact h.marked _ _ _ _ _

lemma all (h : found.Fits) (index : ℕ) : (RepeatRule.all tokens found index).1.Fits := by
  unfold RepeatRule.all
  dsimp only
  split_ifs
  · exact h
  · exact h
  · exact h.marked _ _ _ _ _

lemma range (h : found.Fits) (index : ℕ) : (RepeatRule.range tokens found index).1.Fits := by
  have hranged {at_ first : ℕ} {found' : Found × ℕ}
      (hsome : ranged tokens found at_ first = some found') : found'.1.Fits := by
    obtain ⟨s, hs, rfl⟩ := Option.map_eq_some_iff.mp hsome
    exact (h.rangeAt hs).same rfl rfl
  have hor {led bare : Option (Found × ℕ)} (hled : ∀ s, led = some s → s.1.Fits)
      (hbare : ∀ s, bare = some s → s.1.Fits) : ((led.or bare).getD (found, 0)).1.Fits := by
    cases led with
    | some s => exact hled s rfl
    | none =>
      cases bare with
      | some s => exact hbare s rfl
      | none => exact h
  refine hor (fun s hs => ?_) (fun s hs => ?_)
  · split_ifs at hs
    exact hranged hs
  · split_ifs at hs
    exact hranged hs

lemma plural (h : found.Fits) (index : ℕ) : (RepeatRule.plural tokens found index).1.Fits := by
  unfold RepeatRule.plural
  dsimp only
  split_ifs
  · exact h.marked _ _ _ _ _
  · exact h
  · exact ((h.addDays (by decide)).setWeekly 1).mark _ _
  · exact ((h.setWeekly 1).list index).same rfl rfl
  · exact h.marked _ _ _ _ _
  · exact h
  · exact h

lemma adverb (h : found.Fits) (index : ℕ) : (RepeatRule.adverb tokens found index).1.Fits := by
  unfold RepeatRule.adverb
  dsimp only
  split_ifs <;> exact h.same rfl rfl

lemma frequent (h : found.Fits) {first last : ℕ} {once : Bool} {found' : Found}
    (hsome : RepeatRule.frequent tokens found hit first last once = some found') :
    found'.Fits := by
  unfold RepeatRule.frequent at hsome
  split_ifs at hsome
  · exact Option.some.inj hsome ▸ (h.apply hit last 1).same rfl rfl
  · exact Option.some.inj hsome ▸ h.same rfl rfl

lemma times (h : found.Fits) (index : ℕ) : (RepeatRule.times tokens found index).1.Fits := by
  unfold RepeatRule.times
  dsimp only
  split
  · split
    · exact h
    · split
      next hsome => exact h.frequent hsome
      next => exact h
  · split
    · split
      next hsome => exact h.frequent hsome
      next => exact h
    · exact h

lemma vague (h : found.Fits) (index : ℕ) : (RepeatRule.vague tokens found index).1.Fits := by
  unfold RepeatRule.vague
  dsimp only
  split_ifs <;> exact h.same rfl rfl

/-- Each phrase keeps what the text form asks. -/
lemma phrase (h : found.Fits) {phrase : Found → ℕ → Found × ℕ} (hphrase : phrase ∈ phrases tokens)
    (index : ℕ) : (phrase found index).1.Fits := by
  simp only [phrases, List.mem_cons, List.not_mem_nil, or_false] at hphrase
  rcases hphrase with rfl | rfl | rfl | rfl | rfl | rfl | rfl
  · exact h.every index
  · exact h.all index
  · exact h.range index
  · exact h.plural index
  · exact h.adverb index
  · exact h.times index
  · exact h.vague index

lemma step (h : found.Fits) (index : ℕ) : (RepeatRule.step tokens found index).1.Fits := by
  have hfold (phrases' : List (Found → ℕ → Found × ℕ)) (hsub : phrases' ⊆ phrases tokens)
      (s : Found × ℕ) (hs : s.1.Fits) :
      (phrases'.foldl (fun s phrase => if s.2 = 0 then phrase s.1 index else s) s).1.Fits := by
    induction phrases' generalizing s with
    | nil => exact hs
    | cons p phrases' ih =>
      rw [List.cons_subset] at hsub
      refine ih hsub.2 _ ?_
      dsimp only
      split_ifs
      · exact hs.phrase hsub.1 index
      · exact hs
  unfold RepeatRule.step
  exact hfold (phrases tokens) (List.Subset.refl _) _ (h.same rfl rfl)

lemma runFrom (h : found.Fits) (index : ℕ) : (RepeatRule.runFrom tokens found index).Fits := by
  induction found, index using RepeatRule.runFrom.induct tokens with
  | case1 found index hlt found' used hstep ih =>
    rw [RepeatRule.runFrom, if_pos hlt, hstep]
    have hfits : (RepeatRule.step tokens found index).1.Fits := h.step index
    rw [hstep] at hfits
    exact ih hfits
  | case2 found index hlt =>
    rw [RepeatRule.runFrom, if_neg hlt]
    exact h

lemma monthDayAt (h : found.Fits) {found' : Found}
    (hsome : RepeatRule.monthDayAt tokens found index = some found') : found'.Fits := by
  unfold RepeatRule.monthDayAt at hsome
  obtain ⟨-, hsome⟩ := Option.ite_none_left_eq_some.mp hsome
  obtain ⟨number, hnumber, hsome⟩ := Option.bind_eq_some_iff.mp hsome
  obtain ⟨-, hsome⟩ := Option.ite_none_left_eq_some.mp hsome
  obtain ⟨-, hsome⟩ := Option.ite_none_left_eq_some.mp hsome
  obtain rfl := Option.some.inj hsome
  obtain ⟨hlo, hhi⟩ := (dayNumberAt_spec hnumber).1
  exact ⟨h.nodup, h.weekdays, by dsimp only [Found.mark]; omega, hhi⟩

lemma ofMonthDay (h : found.Fits) (index : ℕ) : (RepeatRule.monthDay tokens found index).Fits := by
  induction index using RepeatRule.monthDay.induct tokens found with
  | case1 index hlt found' hsome =>
    rw [RepeatRule.monthDay, if_pos hlt, hsome]
    exact h.monthDayAt hsome
  | case2 index hlt hnone ih =>
    rw [RepeatRule.monthDay, if_pos hlt, hnone]
    exact ih
  | case3 index hlt =>
    rw [RepeatRule.monthDay, if_neg hlt]
    exact h

lemma run (tokens : Tokens) : (RepeatRule.run tokens).Fits := by
  unfold RepeatRule.run
  dsimp only
  split_ifs
  · exact (empty.runFrom 0).ofMonthDay 0
  · exact empty.runFrom 0

end Found.Fits

/-- However the findings are combined, the text form carries the repeat. -/
lemma ordered_of_decided (h : found.Fits) {monthNamed : Bool} {r : Repeat}
    (hdecided : decided found monthNamed = some r)
    (hinterval : 1 ≤ r.interval ∧ r.interval ≤ kMaxInterval) : r.Ordered := by
  have hzero : (0 : ℤ) ≤ 0 ∧ (0 : ℤ) ≤ kLastMonthDay := by decide
  have hbare {frequency : RepeatFrequency} {interval : ℤ}
      (hr : some (Repeat.mk frequency interval [] 0) = some r) : r.Ordered := by
    obtain rfl := Option.some.inj hr
    exact ⟨⟨hinterval, List.nodup_nil, by simp, fun hne => absurd rfl hne, hzero,
      fun hne => absurd rfl hne⟩, List.Pairwise.nil⟩
  unfold decided at hdecided
  obtain ⟨-, hdecided⟩ := Option.ite_none_left_eq_some.mp hdecided
  split at hdecided
  · obtain ⟨-, hdecided⟩ := Option.ite_none_left_eq_some.mp hdecided
    dsimp only at hdecided
    split at hdecided
    · exact hbare hdecided
    · obtain rfl := Option.some.inj hdecided
      obtain ⟨hlt, hsorted⟩ := mergeSort_spec h.weekdays h.nodup
      exact ⟨⟨hinterval, hsorted.imp fun h => Nat.ne_of_lt h, hlt, fun _ => rfl, hzero,
        fun hne => absurd rfl hne⟩, hsorted⟩
  · split at hdecided
    · obtain ⟨-, hdecided⟩ := Option.ite_none_left_eq_some.mp hdecided
      obtain rfl := Option.some.inj hdecided
      exact ⟨⟨hinterval, List.nodup_nil, by simp, fun hne => absurd rfl hne, h.monthDay,
        fun _ => rfl⟩, List.Pairwise.nil⟩
    · exact hbare (Option.ite_none_left_eq_some.mp hdecided).2
    · exact hbare (Option.ite_none_left_eq_some.mp hdecided).2
    · exact hbare hdecided
    · cases hdecided

end Fits

lemma ordered_of_read {text : Bytes} {r : Repeat} (h : (read text).repeat_ = some r) :
    r.Ordered := by
  unfold read at h
  dsimp only at h
  split at h
  · cases h
  split at h
  · cases h
  · obtain ⟨hdecided, hinterval⟩ := Option.filter_eq_some_iff.mp h
    exact ordered_of_decided (Found.Fits.run _) hdecided (of_decide_eq_true hinterval)

/-- The text form is exact for what is well formed, for what it is read from, and for what is
heard. -/
theorem text_form_exact : (∀ r : Repeat, r.Ordered → parse (format r) = some r) ∧
    (∀ text r, parse text = some r → r.Ordered ∧ parse (format r) = some r) ∧
      ∀ text r, (read text).repeat_ = some r → r.Ordered ∧ parse (format r) = some r :=
  ⟨fun _ hr => parse_format hr,
    fun _ _ hparse => ⟨ordered_of_parse hparse, parse_format (ordered_of_parse hparse)⟩,
    fun _ _ hread => ⟨ordered_of_read hread, parse_format (ordered_of_read hread)⟩⟩

end RepeatRule

end Extract

end ArgusBackend
