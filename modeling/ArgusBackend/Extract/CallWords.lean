import ArgusBackend.Library.Numerals
import ArgusBackend.Library.Words

/-!
# The words of a call

* `fold`, `tokenize` : the text in small letters without accents, and its words;
* `smallNumber`, `dayNumberAt`, `minutesAt`, `monthOf`, `weekdayOf` : what a word says;
* `span_origin` : words stand behind each other in the text that was heard.
-/

namespace ArgusBackend

namespace Extract

namespace CallTime

open Numerals

/-! ### Letters -/

/-- A digit. -/
def isDigit (c : UInt8) : Bool := 0x30 ≤ c ∧ c ≤ 0x39

/-- `std::isalnum`, with the letters of ASCII only. -/
def isAlnum (c : UInt8) : Bool :=
  isDigit c ∨ (0x41 ≤ c ∧ c ≤ 0x5a) ∨ (0x61 ≤ c ∧ c ≤ 0x7a)

/-- `std::tolower` -/
def toLower (c : UInt8) : UInt8 := if 0x41 ≤ c ∧ c ≤ 0x5a then c + 0x20 else c

/-- A text without accents and capitals, and where each byte comes from. -/
structure Folded where
  text : Bytes
  origin : List ℕ

/-- Letters with accents, in UTF-8, and the letters without. -/
def kFold : List (Bytes × UInt8) :=
  [([0xc3, 0xa1], 0x61), ([0xc3, 0xa9], 0x65), ([0xc3, 0xad], 0x69), ([0xc3, 0xb3], 0x6f),
    ([0xc3, 0xba], 0x75), ([0xc3, 0xbc], 0x75), ([0xc3, 0xb1], 0x6e), ([0xc3, 0x81], 0x61),
    ([0xc3, 0x89], 0x65), ([0xc3, 0x8d], 0x69), ([0xc3, 0x93], 0x6f), ([0xc3, 0x9a], 0x75),
    ([0xc3, 0x9c], 0x75), ([0xc3, 0x91], 0x6e)]

/-- The loop from a place on.  Behind the last letter comes the length of the source. -/
def foldFrom (index : ℕ) : Bytes → Folded
  | [] => { text := [], origin := [index] }
  | c :: rest =>
    match kFold.find? fun entry => entry.1.isPrefixOf (c :: rest) with
    | some entry =>
      let folded := foldFrom (index + entry.1.length) (rest.drop (entry.1.length - 1))
      { text := entry.2 :: folded.text, origin := index :: folded.origin }
    | none =>
      let folded := foldFrom (index + 1) rest
      { text := toLower c :: folded.text, origin := index :: folded.origin }
termination_by source => source.length
decreasing_by
  · simp only [List.length_drop, List.length_cons]
    omega
  · exact Nat.lt_succ_self _

/-- `fold` -/
def fold (source : Bytes) : Folded := foldFrom 0 source

/-! ### Words -/

/-- A word and where it is in the folded text. -/
structure Token where
  text : Bytes
  begin_ : ℕ
  end_ : ℕ
  deriving DecidableEq, Repr

/-- The words of a text. -/
abbrev Tokens := List Token

/-- `:` -/
def kColon : UInt8 := 0x3a

/-- How long digits go on, with a colon where it is between two of them. -/
def numericLength (afterDigit : Bool) : Bytes → ℕ
  | [] => 0
  | c :: rest =>
    if isDigit c then numericLength true rest + 1
    else if c = kColon ∧ afterDigit ∧ (rest.head?.any isDigit : Bool) then
      numericLength false rest + 1
    else 0

lemma numericLength_le (text : Bytes) :
    ∀ afterDigit, numericLength afterDigit text ≤ text.length := by
  induction text with
  | nil => exact fun _ => le_rfl
  | cons c rest ih =>
    intro afterDigit
    have htrue := ih true
    have hfalse := ih false
    rw [numericLength, List.length_cons]
    split_ifs <;> omega

/-- How long a word goes on behind its first letter. -/
def restLength (first : UInt8) (rest : Bytes) : ℕ :=
  if isDigit first then numericLength true rest else (rest.takeWhile isAlnum).length

lemma restLength_le (first : UInt8) (rest : Bytes) : restLength first rest ≤ rest.length := by
  unfold restLength
  split_ifs
  · exact numericLength_le rest true
  · exact (List.takeWhile_prefix _).length_le

/-- The words of a text that begins at an index. -/
def tokensFrom (index : ℕ) : Bytes → Tokens
  | [] => []
  | first :: rest =>
    if !isAlnum first then tokensFrom (index + 1) rest
    else
      let length := restLength first rest + 1
      { text := (first :: rest).take length, begin_ := index, end_ := index + length } ::
        tokensFrom (index + length) (rest.drop (length - 1))
termination_by text => text.length
decreasing_by
  · exact Nat.lt_succ_self _
  · simp only [List.length_drop, List.length_cons]
    omega

/-- `tokenize` -/
def tokenize (text : Bytes) : Tokens := tokensFrom 0 text

/-- The largest `std::size_t`. -/
def kNoIndex : ℕ := 18446744073709551615

/-- The word at an index is this one. -/
def wordAt (tokens : Tokens) (index : ℕ) (word : String) : Bool :=
  tokens[index]?.any fun token => token.text = ascii word

/-- The word at an index is one of these. -/
def anyWordAt (tokens : Tokens) (index : ℕ) (words : List String) : Bool :=
  words.any fun word => wordAt tokens index word

/-! ### What a word says -/

/-- The value of a word in a table, or -1. -/
def valueOf (table : List (String × ℤ)) (token : Bytes) : ℤ :=
  match table.find? fun entry => ascii entry.1 = token with
  | some entry => entry.2
  | none => -1

/-- A word of digits. -/
def onlyDigits (token : Bytes) : Bool := token ≠ [] ∧ token.all isDigit

/-- Small numbers in both languages. -/
def kSmall : List (String × ℤ) :=
  [("un", 1), ("una", 1), ("uno", 1), ("dos", 2), ("tres", 3), ("cuatro", 4), ("cinco", 5),
    ("seis", 6), ("siete", 7), ("ocho", 8), ("nueve", 9), ("diez", 10), ("once", 11), ("doce", 12),
    ("quince", 15), ("veinte", 20), ("treinta", 30), ("a", 1), ("an", 1), ("one", 1), ("two", 2),
    ("three", 3), ("four", 4), ("five", 5), ("six", 6), ("seven", 7), ("eight", 8), ("nine", 9),
    ("ten", 10), ("eleven", 11), ("twelve", 12), ("fifteen", 15)]

/-- The days of the month in Spanish. -/
def kSpanishDays : List (String × ℤ) :=
  [("primero", 1), ("uno", 1), ("dos", 2), ("tres", 3), ("cuatro", 4), ("cinco", 5), ("seis", 6),
    ("siete", 7), ("ocho", 8), ("nueve", 9), ("diez", 10), ("once", 11), ("doce", 12),
    ("trece", 13), ("catorce", 14), ("quince", 15), ("dieciseis", 16), ("diecisiete", 17),
    ("dieciocho", 18), ("diecinueve", 19), ("veinte", 20), ("veintiuno", 21), ("veintidos", 22),
    ("veintitres", 23), ("veinticuatro", 24), ("veinticinco", 25), ("veintiseis", 26),
    ("veintisiete", 27), ("veintiocho", 28), ("veintinueve", 29), ("treinta", 30)]

/-- The days of the month in English, as far as one word names them. -/
def kEnglishOrdinals : List (String × ℤ) :=
  [("first", 1), ("second", 2), ("third", 3), ("fourth", 4), ("fifth", 5), ("sixth", 6),
    ("seventh", 7), ("eighth", 8), ("ninth", 9), ("tenth", 10), ("eleventh", 11), ("twelfth", 12),
    ("thirteenth", 13), ("fourteenth", 14), ("fifteenth", 15), ("sixteenth", 16),
    ("seventeenth", 17), ("eighteenth", 18), ("nineteenth", 19), ("twentieth", 20),
    ("thirtieth", 30)]

/-- The second words of English ordinals from 21 on. -/
def kEnglishUnits : List (String × ℤ) :=
  [("first", 1), ("second", 2), ("third", 3), ("fourth", 4), ("fifth", 5), ("sixth", 6),
    ("seventh", 7), ("eighth", 8), ("ninth", 9)]

/-- The days of the month as English cardinals. -/
def kEnglishCardinals : List (String × ℤ) :=
  [("one", 1), ("two", 2), ("three", 3), ("four", 4), ("five", 5), ("six", 6), ("seven", 7),
    ("eight", 8), ("nine", 9), ("ten", 10), ("eleven", 11), ("twelve", 12), ("thirteen", 13),
    ("fourteen", 14), ("fifteen", 15), ("sixteen", 16), ("seventeen", 17), ("eighteen", 18),
    ("nineteen", 19), ("twenty", 20), ("thirty", 30)]

/-- The minutes of an hour in Spanish. -/
def kSpanishMinutes : List (String × ℤ) :=
  [("cuarto", 15), ("media", 30), ("cinco", 5), ("diez", 10), ("veinte", 20), ("veinticinco", 25)]

/-- The minutes of an hour in English, as far as one word names them. -/
def kEnglishMinutes : List (String × ℤ) :=
  [("ten", 10), ("eleven", 11), ("twelve", 12), ("thirteen", 13), ("fourteen", 14), ("fifteen", 15),
    ("sixteen", 16), ("seventeen", 17), ("eighteen", 18), ("nineteen", 19), ("twenty", 20),
    ("thirty", 30), ("forty", 40), ("fifty", 50), ("five", 5)]

/-- The second words of English numbers from 21 on. -/
def kEnglishDigits : List (String × ℤ) :=
  [("one", 1), ("two", 2), ("three", 3), ("four", 4), ("five", 5), ("six", 6), ("seven", 7),
    ("eight", 8), ("nine", 9)]

/-- The months in both languages. -/
def kMonths : List (String × ℤ) :=
  [("enero", 1), ("febrero", 2), ("marzo", 3), ("abril", 4), ("mayo", 5), ("junio", 6),
    ("julio", 7), ("agosto", 8), ("septiembre", 9), ("setiembre", 9), ("octubre", 10),
    ("noviembre", 11), ("diciembre", 12), ("january", 1), ("february", 2), ("march", 3),
    ("april", 4), ("may", 5), ("june", 6), ("july", 7), ("august", 8), ("september", 9),
    ("october", 10), ("november", 11), ("december", 12), ("jan", 1), ("feb", 2), ("apr", 4),
    ("jun", 6), ("jul", 7), ("aug", 8), ("sep", 9), ("sept", 9), ("oct", 10), ("nov", 11),
    ("dec", 12)]

/-- The weekdays in both languages, from Sunday on. -/
def kWeekdays : List (String × ℤ) :=
  [("domingo", 0), ("lunes", 1), ("martes", 2), ("miercoles", 3), ("jueves", 4), ("viernes", 5),
    ("sabado", 6), ("sunday", 0), ("monday", 1), ("tuesday", 2), ("wednesday", 3), ("thursday", 4),
    ("friday", 5), ("saturday", 6)]

/-- A small number in words or digits, or -1. -/
def smallNumber (token : Bytes) : ℤ :=
  let small := valueOf kSmall token
  if small ≥ 0 then small
  else if token.length ≤ 3 ∧ onlyDigits token then value 10 token
  else -1

/-- A number and the words that say it. -/
structure Counted where
  value : ℤ
  length : ℕ
  ordinal : Bool := false
  deriving DecidableEq, Repr

/-- A day of the month, and how many words name it. -/
def dayNumberAt (tokens : Tokens) (index : ℕ) : Option Counted :=
  match tokens[index]? with
  | none => none
  | some { text := head, .. } =>
    if onlyDigits head then
      if head.length > 2 then none
      else if (Numerals.value 10 head : ℤ) < 1 ∨ (Numerals.value 10 head : ℤ) > 31 then none
      else
        let suffixed := anyWordAt tokens (index + 1) ["st", "nd", "rd", "th"]
        some { value := Numerals.value 10 head, length := if suffixed then 2 else 1,
               ordinal := suffixed }
    else if head = ascii "treinta" ∧ wordAt tokens (index + 1) "y" ∧
        wordAt tokens (index + 2) "uno" then
      some { value := 31, length := 3 }
    else if valueOf kSpanishDays head > 0 then
      some { value := valueOf kSpanishDays head, length := 1 }
    else
      let unit := match tokens[index + 1]? with
        | some token => valueOf kEnglishUnits token.text
        | none => -1
      if (head = ascii "twenty" ∨ head = ascii "thirty") ∧ unit > 0 ∧
          (head = ascii "twenty" ∨ unit = 1) then
        some { value := (if head = ascii "twenty" then 20 else 30) + unit, length := 2,
               ordinal := true }
      else if valueOf kEnglishOrdinals head > 0 then
        some { value := valueOf kEnglishOrdinals head, length := 1, ordinal := true }
      else none

/-- A day of the month as an English cardinal. -/
def cardinalDayAt (tokens : Tokens) (index : ℕ) : Option Counted :=
  match tokens[index]? with
  | none => none
  | some { text := head, .. } =>
    let value := valueOf kEnglishCardinals head
    if value ≤ 0 then none
    else
      let unit := match tokens[index + 1]? with
        | some token => valueOf kEnglishDigits token.text
        | none => -1
      if (head = ascii "twenty" ∨ head = ascii "thirty") ∧ unit > 0 ∧
          (head = ascii "twenty" ∨ unit = 1) then
        some { value := value + unit, length := 2, ordinal := true }
      else some { value, length := 1, ordinal := true }

/-- The minutes after the hour. -/
def minutesAt (tokens : Tokens) (index : ℕ) : Option Counted :=
  match tokens[index]? with
  | none => none
  | some { text := head, .. } =>
    if onlyDigits head ∧ head.length ≤ 2 then
      let value : ℤ := Numerals.value 10 head
      if 1 ≤ value ∧ value ≤ 59 then some { value, length := 1 } else none
    else if valueOf kSpanishMinutes head > 0 then
      some { value := valueOf kSpanishMinutes head, length := 1 }
    else none

/-- The minutes after the hour in English words. -/
def englishMinutesAt (tokens : Tokens) (index : ℕ) : Option Counted :=
  match tokens[index]? with
  | none => none
  | some { text := head, .. } =>
    let unit := match tokens[index + 1]? with
      | some token => valueOf kEnglishDigits token.text
      | none => -1
    if head = ascii "oh" ∧ index + 1 < tokens.length then
      if unit > 0 then some { value := unit, length := 2 } else none
    else
      let value := valueOf kEnglishMinutes head
      if value ≤ 0 then none
      else if value ≥ 20 ∧ unit > 0 then some { value := value + unit, length := 2 }
      else some { value, length := 1 }

/-- The month that a word names, or 0. -/
def monthOf (token : Bytes) : ℤ := if valueOf kMonths token > 0 then valueOf kMonths token else 0

/-- The weekday that a word names, or -1. -/
def weekdayOf (token : Bytes) : ℤ := valueOf kWeekdays token

/-! ### What the tables say -/

section Tables

variable {table : List (String × ℤ)} {token : Bytes} {tokens : Tokens} {index : ℕ} {k : ℤ}

lemma valueOf_cases (table : List (String × ℤ)) (token : Bytes) :
    valueOf table token = -1 ∨ ∃ entry ∈ table, valueOf table token = entry.2 := by
  unfold valueOf
  split
  next entry h => exact .inr ⟨entry, List.mem_of_find?_eq_some h, rfl⟩
  next => exact .inl rfl

lemma valueOf_le (htable : ∀ entry ∈ table, entry.2 ≤ k) (hk : -1 ≤ k) :
    valueOf table token ≤ k := by
  rcases valueOf_cases table token with h | ⟨entry, hentry, h⟩
  · rwa [h]
  · rw [h]
    exact htable entry hentry

end Tables

/-! ### Where the words are -/

section Places

variable {tokens : Tokens} {index first last : ℕ} {word : String} {words : List String}
  {number : Counted} {source hours minutes rest : Bytes}

lemma lt_of_getElem? {token : Token} (h : tokens[index]? = some token) : index < tokens.length :=
  (List.getElem?_eq_some_iff.mp h).1

lemma wordAt_lt (h : wordAt tokens index word = true) : index < tokens.length := by
  by_contra hle
  rw [wordAt, List.getElem?_eq_none (not_lt.mp hle)] at h
  cases h

lemma anyWordAt_lt (h : anyWordAt tokens index words = true) : index < tokens.length := by
  obtain ⟨word, -, hword⟩ := List.any_eq_true.mp h
  exact wordAt_lt hword

/-- A number that a next word tells is told by a word. -/
lemma next_lt {table : List (String × ℤ)} {unit : ℤ} (hpos : unit > 0)
    (hunit : unit = match tokens[index]? with
      | some token => valueOf table token.text
      | none => -1) : index < tokens.length := by
  split at hunit
  next h => exact lt_of_getElem? h
  next => omega

/-- The words of a number are there. -/
structure Counted.Within (tokens : Tokens) (index : ℕ) (number : Counted) : Prop where
  pos : 1 ≤ number.length
  le : index + number.length ≤ tokens.length

/-- A day of a month is told by its number. -/
lemma dayNumberAt_spec (h : dayNumberAt tokens index = some number) :
    (1 ≤ number.value ∧ number.value ≤ 31) ∧ number.Within tokens index := by
  have hspanish (head : Bytes) : valueOf kSpanishDays head ≤ 31 :=
    valueOf_le (by decide) (by decide)
  have hordinal (head : Bytes) : valueOf kEnglishOrdinals head ≤ 31 :=
    valueOf_le (by decide) (by decide)
  have hunit (head : Bytes) : valueOf kEnglishUnits head ≤ 9 := valueOf_le (by decide) (by decide)
  unfold dayNumberAt at h
  split at h
  · cases h
  next head _ _ htoken =>
    have hlt := lt_of_getElem? htoken
    obtain ⟨unit, hdef, hle⟩ : ∃ unit, unit = (match tokens[index + 1]? with
        | some token => valueOf kEnglishUnits token.text
        | none => -1) ∧ unit ≤ 9 := by
      refine ⟨_, rfl, ?_⟩
      split
      · exact hunit _
      · decide
    have h₁ := hspanish head
    have h₂ := hordinal head
    obtain ⟨tens, hsum, htens⟩ : ∃ tens, tens = (if head = ascii "twenty" then 20 else 30) + unit ∧
        (unit > 0 ∧ (head = ascii "twenty" ∨ unit = 1) → 1 ≤ tens ∧ tens ≤ 31) := by
      refine ⟨_, rfl, ?_⟩
      rintro ⟨hpos, hhead | rfl⟩
      · rw [if_pos hhead]
        omega
      · split_ifs <;> decide
    rw [← hdef] at h
    dsimp only at h
    rw [← hsum] at h
    split_ifs at h with hdigits hlength hout hsuffixed htreinta hword hpair hord <;>
      obtain rfl := Option.some.inj h
    · have := anyWordAt_lt hsuffixed
      exact ⟨by dsimp only; omega, ⟨one_le_two, by dsimp only; omega⟩⟩
    · exact ⟨by dsimp only; omega, ⟨le_rfl, hlt⟩⟩
    · have := wordAt_lt htreinta.2.2
      exact ⟨⟨by decide, by decide⟩, ⟨by decide, by dsimp only; omega⟩⟩
    · exact ⟨by dsimp only; omega, ⟨le_rfl, hlt⟩⟩
    · have := next_lt hpair.2.1 hdef
      exact ⟨htens hpair.2, ⟨one_le_two, by dsimp only; omega⟩⟩
    · exact ⟨by dsimp only; omega, ⟨le_rfl, hlt⟩⟩

lemma cardinalDayAt_within (h : cardinalDayAt tokens index = some number) :
    number.Within tokens index := by
  unfold cardinalDayAt at h
  split at h
  · cases h
  next head _ _ htoken =>
    have hlt := lt_of_getElem? htoken
    obtain ⟨unit, hdef⟩ : ∃ unit, unit = (match tokens[index + 1]? with
        | some token => valueOf kEnglishDigits token.text
        | none => -1) := ⟨_, rfl⟩
    rw [← hdef] at h
    dsimp only at h
    split_ifs at h with hnone hpair <;> obtain rfl := Option.some.inj h
    · have := next_lt hpair.2.1 hdef
      exact ⟨one_le_two, by dsimp only; omega⟩
    · exact ⟨le_rfl, hlt⟩

lemma minutesAt_spec (h : minutesAt tokens index = some number) :
    (0 ≤ number.value ∧ number.value ≤ 59) ∧ number.Within tokens index := by
  have hspanish (head : Bytes) : valueOf kSpanishMinutes head ≤ 30 :=
    valueOf_le (by decide) (by decide)
  unfold minutesAt at h
  split at h
  · cases h
  next head _ _ htoken =>
    have hlt := lt_of_getElem? htoken
    have hle := hspanish head
    dsimp only at h
    split_ifs at h <;> obtain rfl := Option.some.inj h <;>
      exact ⟨by dsimp only; omega, ⟨le_rfl, hlt⟩⟩

lemma englishMinutesAt_spec (h : englishMinutesAt tokens index = some number) :
    (0 ≤ number.value ∧ number.value ≤ 59) ∧ number.Within tokens index := by
  have hminutes (head : Bytes) : valueOf kEnglishMinutes head ≤ 50 :=
    valueOf_le (by decide) (by decide)
  have hdigit (head : Bytes) : valueOf kEnglishDigits head ≤ 9 := valueOf_le (by decide) (by decide)
  unfold englishMinutesAt at h
  split at h
  · cases h
  next head _ _ htoken =>
    have hlt := lt_of_getElem? htoken
    obtain ⟨unit, hdef, hunit⟩ : ∃ unit, unit = (match tokens[index + 1]? with
        | some token => valueOf kEnglishDigits token.text
        | none => -1) ∧ unit ≤ 9 := by
      refine ⟨_, rfl, ?_⟩
      split
      · exact hdigit _
      · decide
    have hle := hminutes head
    rw [← hdef] at h
    dsimp only at h
    split_ifs at h with hoh hpos hnone hpair <;> obtain rfl := Option.some.inj h
    · exact ⟨by dsimp only; omega, ⟨one_le_two, by dsimp only; omega⟩⟩
    · have := next_lt hpair.2 hdef
      exact ⟨by dsimp only; omega, ⟨one_le_two, by dsimp only; omega⟩⟩
    · exact ⟨by dsimp only; omega, ⟨le_rfl, hlt⟩⟩

/-! ### Where the words are in the text -/

lemma foldFrom_spec (index : ℕ) (source : Bytes) :
    (foldFrom index source).origin.length = (foldFrom index source).text.length + 1 ∧
      (foldFrom index source).origin.Pairwise (· < ·) ∧
        ∀ p ∈ (foldFrom index source).origin, index ≤ p ∧ p ≤ index + source.length := by
  have htwo : ∀ entry ∈ kFold, entry.1.length = 2 := by decide
  induction index, source using foldFrom.induct with
  | case1 index => simp [foldFrom]
  | case2 index c rest entry hentry ih =>
    -- Two bytes are folded to one, which stands where the first of them was.
    obtain ⟨hlength, hsorted, hbounds⟩ := ih
    have hprefix : entry.1 <+: c :: rest := by
      simpa using List.find?_some hentry
    have hle := hprefix.length_le
    rw [htwo entry (List.mem_of_find?_eq_some hentry), List.length_cons] at hle
    rw [htwo entry (List.mem_of_find?_eq_some hentry)] at hlength hsorted hbounds
    rw [foldFrom, hentry]
    dsimp only
    rw [htwo entry (List.mem_of_find?_eq_some hentry)]
    rw [List.length_drop] at hbounds
    refine ⟨congrArg (· + 1) hlength, List.pairwise_cons.mpr ⟨fun p hp => ?_, hsorted⟩, ?_⟩
    · have := hbounds p hp
      omega
    · rw [List.length_cons]
      rintro p hp
      rcases List.mem_cons.mp hp with rfl | hp
      · omega
      · have := hbounds p hp
        omega
  | case3 index c rest hentry ih =>
    obtain ⟨hlength, hsorted, hbounds⟩ := ih
    rw [foldFrom, hentry]
    dsimp only
    refine ⟨congrArg (· + 1) hlength, List.pairwise_cons.mpr ⟨fun p hp => ?_, hsorted⟩, ?_⟩
    · have := hbounds p hp
      omega
    · rw [List.length_cons]
      rintro p hp
      rcases List.mem_cons.mp hp with rfl | hp
      · omega
      · have := hbounds p hp
        omega

/-- A colon in a word is between two digits. -/
structure Token.Fits (token : Token) : Prop where
  le : token.begin_ < token.end_
  colon : ∀ hours minutes, Words.cut kColon token.text = some (hours, minutes) →
    (hours ≠ [] ∧ ∀ c ∈ hours, isDigit c = true) ∧ ∃ d ds, minutes = d :: ds ∧ isDigit d = true

lemma cut_numeric (rest : Bytes) : ∀ (afterDigit : Bool) (hours minutes : Bytes),
    Words.cut kColon (rest.take (numericLength afterDigit rest)) = some (hours, minutes) →
      (∀ c ∈ hours, isDigit c = true) ∧ ∃ d ds, minutes = d :: ds ∧ isDigit d = true := by
  induction rest with
  | nil =>
    intro afterDigit hours minutes h
    simp [numericLength, Words.cut] at h
  | cons c rest ih =>
    intro afterDigit hours minutes h
    rw [numericLength] at h
    split_ifs at h with hdigit hcolon
    · rw [List.take_succ_cons, Words.cut, if_neg (by rintro rfl; cases hdigit)] at h
      obtain ⟨⟨hours', minutes'⟩, hcut, heq⟩ := Option.map_eq_some_iff.mp h
      obtain ⟨rfl, rfl⟩ := Prod.mk.inj heq
      obtain ⟨hdigits, hminutes⟩ := ih _ _ _ hcut
      exact ⟨List.forall_mem_cons.mpr ⟨hdigit, hdigits⟩, hminutes⟩
    · rw [List.take_succ_cons, Words.cut, if_pos hcolon.1] at h
      obtain ⟨rfl, rfl⟩ := Prod.mk.inj (Option.some.inj h)
      refine ⟨fun c hc => absurd hc List.not_mem_nil, ?_⟩
      cases rest with
      | nil => simp at hcolon
      | cons d rest =>
        have hd : isDigit d = true := by simpa using hcolon.2.2
        refine ⟨d, rest.take (numericLength true rest), ?_, hd⟩
        rw [numericLength, if_pos hd, List.take_succ_cons]
    · simp [Words.cut] at h

lemma tokensFrom_spec (index : ℕ) (text : Bytes) :
    (∀ token ∈ tokensFrom index text, token.Fits ∧ index ≤ token.begin_ ∧
      token.end_ ≤ index + text.length) ∧
      (tokensFrom index text).Pairwise fun token next => token.end_ ≤ next.begin_ := by
  induction index, text using tokensFrom.induct with
  | case1 index => simp [tokensFrom]
  | case2 index first rest hfirst ih =>
    obtain ⟨hbounds, hsorted⟩ := ih
    rw [tokensFrom, if_pos hfirst]
    refine ⟨fun token htoken => ?_, hsorted⟩
    obtain ⟨hfits, hlo, hhi⟩ := hbounds token htoken
    rw [List.length_cons]
    exact ⟨hfits, by omega, by omega⟩
  | case3 index first rest hfirst length ih =>
    obtain ⟨hbounds, hsorted⟩ := ih
    have hle := restLength_le first rest
    rw [tokensFrom, if_neg hfirst]
    dsimp only
    rw [List.length_drop] at hbounds
    refine ⟨?_, List.pairwise_cons.mpr ⟨fun token htoken => (hbounds token htoken).2.1, hsorted⟩⟩
    rw [List.length_cons, List.forall_mem_cons]
    refine ⟨⟨⟨by dsimp only; omega, ?_⟩, le_rfl, by dsimp only; omega⟩, fun token htoken => ?_⟩
    · intro hours minutes hcut
      dsimp only at hcut
      rw [List.take_succ_cons] at hcut
      unfold restLength at hcut
      split_ifs at hcut with hdigit
      · rw [Words.cut, if_neg (by rintro rfl; cases hdigit)] at hcut
        obtain ⟨⟨hours', minutes'⟩, hcut', heq⟩ := Option.map_eq_some_iff.mp hcut
        obtain ⟨rfl, rfl⟩ := Prod.mk.inj heq
        obtain ⟨hdigits, hminutes⟩ := cut_numeric _ _ _ _ hcut'
        exact ⟨⟨List.cons_ne_nil _ _, List.forall_mem_cons.mpr ⟨hdigit, hdigits⟩⟩, hminutes⟩
      · -- A word that begins with a letter has no colon.
        have hmem : kColon ∈ first :: rest.take (rest.takeWhile isAlnum).length := by
          rw [(Words.cut_eq_some.mp hcut).1]
          simp
        rw [← List.prefix_iff_eq_take.mp (List.takeWhile_prefix isAlnum)] at hmem
        have halnum : isAlnum kColon = true := by
          rcases List.mem_cons.mp hmem with h | h
          · rw [h]
            simpa using hfirst
          · exact List.mem_takeWhile_imp h
        cases halnum
    · obtain ⟨hfits, hlo, hhi⟩ := hbounds token htoken
      exact ⟨hfits, by omega, by omega⟩

/-- The place of some words in the text that was heard. -/
theorem span_origin (hle : first ≤ last) (hlt : last < (tokenize (fold source).text).length) :
    (fold source).origin.getD
        (((tokenize (fold source).text)[first]?.map (·.begin_)).getD 0) 0 <
      (fold source).origin.getD
        (((tokenize (fold source).text)[last]?.map (·.end_)).getD 0) 0 ∧
      (fold source).origin.getD
        (((tokenize (fold source).text)[last]?.map (·.end_)).getD 0) 0 ≤ source.length := by
  obtain ⟨hlength, hsorted, hbounds⟩ := foldFrom_spec 0 source
  obtain ⟨htokens, hapart⟩ := tokensFrom_spec 0 (fold source).text
  change (fold source).origin.length = _ at hlength
  change (fold source).origin.Pairwise _ at hsorted
  change ∀ p ∈ (fold source).origin, _ at hbounds
  change ∀ token ∈ tokenize (fold source).text, _ at htokens
  change (tokenize (fold source).text).Pairwise _ at hapart
  have hlt' : first < (tokenize (fold source).text).length := hle.trans_lt hlt
  rw [List.getElem?_eq_getElem hlt, List.getElem?_eq_getElem hlt', Option.map_some,
    Option.map_some, Option.getD_some, Option.getD_some]
  obtain ⟨hfirst, -, -⟩ := htokens _ (List.getElem_mem hlt')
  obtain ⟨hlast, -, hend⟩ := htokens _ (List.getElem_mem hlt)
  have hspan : (tokenize (fold source).text)[first].begin_ <
      (tokenize (fold source).text)[last].end_ := by
    rcases hle.eq_or_lt with rfl | hbefore
    · exact hfirst.le
    · have hnext := List.pairwise_iff_getElem.mp hapart first last hlt' hlt hbefore
      exact hfirst.le.trans (hnext.trans_lt hlast.le)
  have hin : (tokenize (fold source).text)[last].end_ < (fold source).origin.length := by
    rw [hlength]
    change _ < (fold source).text.length + 1
    omega
  rw [List.getD_eq_getElem?_getD, List.getD_eq_getElem?_getD, List.getElem?_eq_getElem hin,
    List.getElem?_eq_getElem (hspan.trans hin), Option.getD_some, Option.getD_some]
  refine ⟨List.pairwise_iff_getElem.mp hsorted _ _ (hspan.trans hin) hin hspan, ?_⟩
  have := (hbounds _ (List.getElem_mem hin)).2
  omega

end Places

end CallTime

end Extract

end ArgusBackend
