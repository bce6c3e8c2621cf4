import ArgusBackend.Extract.CallTime

/-!
# The moments of calls

* `ClockReading.Fits`, `Parsed.Fits` : what a text can say, with `run_ok`;
* `upcomingDate_ok`, `onDay_ahead` : the moment it means has not passed;
* `Early` : the times of day that lead back over midnight;
* `heard_exact` : what is heard is in the future and in its phrase, but for those.
-/

namespace ArgusBackend

namespace Extract

namespace CallTime

open Numerals Calendar

/-! ### The words of a time of day -/

section Markers

variable {tokens : Tokens} {index : ℕ} {marker : Marker}

lemma spanishPart_lt (h : spanishPart tokens index ≠ .none) : index < tokens.length := by
  unfold spanishPart at h
  split_ifs at h with h₁ h₂ h₃ h₄
  · exact wordAt_lt h₁
  · exact wordAt_lt h₂
  · exact wordAt_lt h₃
  · exact wordAt_lt h₄
  · exact absurd rfl h

lemma englishPart_lt (h : englishPart tokens index ≠ .none) : index < tokens.length := by
  unfold englishPart at h
  split_ifs at h with h₁ h₂ h₃
  · exact wordAt_lt h₁
  · exact anyWordAt_lt h₂
  · exact wordAt_lt h₃
  · exact absurd rfl h

/-- The words of a marker are there. -/
structure Marker.Within (tokens : Tokens) (index : ℕ) (marker : Marker) : Prop where
  pos : 1 ≤ marker.length
  le : index + marker.length ≤ tokens.length

lemma strictMarkerAt_within (h : strictMarkerAt tokens index = some marker) :
    marker.Within tokens index := by
  unfold strictMarkerAt at h
  split_ifs at h with h₁ h₂ h₃ h₄ <;> obtain rfl := Option.some.inj h
  · exact ⟨le_rfl, wordAt_lt h₁⟩
  · exact ⟨le_rfl, wordAt_lt h₂⟩
  · exact ⟨by decide, wordAt_lt h₃.2⟩
  · exact ⟨by decide, wordAt_lt h₄.2⟩

lemma phraseMarkerAt_within (h : phraseMarkerAt tokens index = some marker) :
    marker.Within tokens index := by
  obtain ⟨phrase, hfind, rfl⟩ := Option.map_eq_some_iff.mp h
  have hmem := List.mem_of_find?_eq_some hfind
  have hsaid := List.find?_some hfind
  rw [decide_eq_true_eq] at hsaid
  obtain ⟨hwords, hpart⟩ := hsaid
  simp only [phraseMarkers, List.mem_cons, List.not_mem_nil, or_false] at hmem
  rcases hmem with rfl | rfl | rfl | rfl | rfl | rfl | rfl | rfl
  · exact ⟨Nat.succ_pos _, spanishPart_lt hpart⟩
  · exact ⟨Nat.succ_pos _, spanishPart_lt hpart⟩
  · exact ⟨Nat.succ_pos _, wordAt_lt (of_decide_eq_true hwords).2⟩
  · exact ⟨Nat.succ_pos _, englishPart_lt hpart⟩
  · exact ⟨Nat.succ_pos _, wordAt_lt (of_decide_eq_true hwords).2⟩
  · exact ⟨Nat.succ_pos _, englishPart_lt hpart⟩
  · exact ⟨Nat.succ_pos _, wordAt_lt hwords⟩
  · exact ⟨Nat.succ_pos _, englishPart_lt hpart⟩

end Markers

/-! ### Times of day -/

/-- A time of day, from which minutes may be taken. -/
structure ClockReading.Fits (reading : ClockReading) : Prop where
  hour : 0 ≤ reading.hour
  minute : 0 ≤ reading.minute
  minus : reading.minus ≤ 89

section Clocks

variable {tokens : Tokens} {index next : ℕ} {reading : ClockReading} {spelled : Bool}

lemma stoi_ok {text : Bytes} (hlength : text.length ≤ 2)
    (hdigit : ∃ d ds, text = d :: ds ∧ isDigit d = true) : ∃ v, stoi text = .ok v ∧ 0 ≤ v := by
  obtain ⟨d, ds, rfl, hd⟩ := hdigit
  have hten : digitOf d < 10 := by
    have hd' : 48 ≤ d ∧ d ≤ 57 := by simpa [isDigit] using hd
    have hlo := UInt8.le_iff_toNat_le.mp hd'.1
    have hhi := UInt8.le_iff_toNat_le.mp hd'.2
    rw [digitOf, if_pos hd']
    simp only [UInt8.reduceToNat] at hlo hhi
    omega
  have hminus : d ≠ 45 := by
    rintro rfl
    cases hd
  -- At most two digits are read, which are not out of the bounds of an int.
  obtain ⟨digits, hdigits⟩ : ∃ digits, digits = (d :: ds).takeWhile fun c => digitOf c < 10 :=
    ⟨_, rfl⟩
  have hne : digits ≠ [] := by
    rw [hdigits, List.takeWhile_cons_of_pos (by simpa using hten)]
    exact List.cons_ne_nil _ _
  have hlt : value 10 digits < 10 ^ digits.length := by
    refine value_lt fun c hc => ?_
    rw [hdigits] at hc
    simpa using List.mem_takeWhile_imp hc
  have htwo : digits.length ≤ 2 :=
    (hdigits ▸ (List.takeWhile_prefix _).length_le).trans hlength
  have hhundred : value 10 digits < 10 ^ 2 := hlt.trans_le (Nat.pow_le_pow_right (by decide) htwo)
  refine ⟨value 10 digits, ?_, Int.natCast_nonneg _⟩
  have hread : fromChars 10 (-2147483648) 2147483647 (d :: ds) =
      some ((value 10 digits : ℤ), (d :: ds).dropWhile fun c => digitOf c < 10) := by
    unfold fromChars
    simp only [List.head?_cons, Option.some.injEq, hminus, and_false, decide_false,
      Bool.false_eq_true, if_false, ← hdigits]
    rw [if_neg (by simp only [hne, false_or, not_or]; omega)]
  rw [stoi, hread]

/-- The hour does not fail. -/
lemma hourOf_ok {token : Token} (hfits : token.Fits) : ∃ r, hourOf token.text = .ok r ∧
    ∀ reading spelled, r = some (reading, spelled) →
      0 ≤ reading.hour ∧ 0 ≤ reading.minute ∧ reading.minus = 0 := by
  unfold hourOf
  cases hcut : Words.cut kColon token.text with
  | some parts =>
    obtain ⟨hours, minutes⟩ := parts
    obtain ⟨⟨hne, hdigits⟩, d, ds, rfl, hd⟩ := hfits.colon hours minutes hcut
    dsimp only
    split
    · exact ⟨none, rfl, fun _ _ h => nomatch h⟩
    next hsize =>
      simp only [not_or, not_lt, not_not] at hsize
      obtain ⟨c, cs, rfl⟩ := List.exists_cons_of_ne_nil hne
      obtain ⟨hour, hhour, hpos⟩ := stoi_ok hsize.1 ⟨c, cs, rfl, hdigits c List.mem_cons_self⟩
      obtain ⟨minute, hminute, hpos'⟩ := stoi_ok hsize.2.le ⟨d, ds, rfl, hd⟩
      rw [hhour, hminute]
      by_cases hout : hour > 23 ∨ minute > 59
      · exact ⟨none, if_pos hout, fun _ _ h => nomatch h⟩
      · refine ⟨_, if_neg hout, fun reading spelled h => ?_⟩
        obtain ⟨rfl, -⟩ := Prod.mk.inj (Option.some.inj h)
        exact ⟨hpos, hpos', rfl⟩
  | none =>
    dsimp only
    split_ifs with hnoon hmidnight hnone
    · exact ⟨_, rfl, fun _ _ h => by obtain ⟨rfl, -⟩ := Prod.mk.inj (Option.some.inj h); decide⟩
    · exact ⟨_, rfl, fun _ _ h => by obtain ⟨rfl, -⟩ := Prod.mk.inj (Option.some.inj h); decide⟩
    · exact ⟨none, rfl, fun _ _ h => nomatch h⟩
    · refine ⟨_, rfl, fun reading spelled h => ?_⟩
      obtain ⟨rfl, -⟩ := Prod.mk.inj (Option.some.inj h)
      exact ⟨not_lt.mp (not_or.mp hnone).1, le_rfl, rfl⟩

/-- What follows the hour is there, and at most an hour is taken away. -/
lemma minutesOf_spec (hminute : 0 ≤ reading.minute)
    (hminus : reading.minus = 0) (hnext : next ≤ tokens.length) :
    ((minutesOf tokens reading spelled next).1.hour = reading.hour ∧
      0 ≤ (minutesOf tokens reading spelled next).1.minute ∧
      (minutesOf tokens reading spelled next).1.minus ≤ 59) ∧
      next ≤ (minutesOf tokens reading spelled next).2 ∧
        (minutesOf tokens reading spelled next).2 ≤ tokens.length := by
  have hzero : reading.minus ≤ 59 := by omega
  unfold minutesOf
  split
  -- `hundred hours` belongs to the hour.
  next h =>
    have hlt := wordAt_lt h.2
    refine ⟨⟨rfl, hminute, hzero⟩, ?_⟩
    dsimp only
    split_ifs with hhours
    · have := wordAt_lt hhours
      omega
    · omega
  split
  · exact ⟨⟨rfl, hminute, hzero⟩, le_rfl, hnext⟩
  split
  · split
    next minutes hminutes =>
      obtain ⟨hvalue, hwithin⟩ := minutesAt_spec hminutes
      have := hwithin.le
      exact ⟨⟨rfl, hvalue.1, hzero⟩, by dsimp only; omega, by dsimp only; omega⟩
    next => exact ⟨⟨rfl, hminute, hzero⟩, le_rfl, hnext⟩
  split
  · split
    next minutes hminutes =>
      obtain ⟨hvalue, hwithin⟩ := minutesAt_spec (Option.filter_eq_some_iff.mp hminutes).1
      have := hwithin.le
      exact ⟨⟨rfl, hminute, hvalue.2⟩, by dsimp only; omega, by dsimp only; omega⟩
    next => exact ⟨⟨rfl, hminute, hzero⟩, le_rfl, hnext⟩
  split
  · split
    next minutes hminutes =>
      obtain ⟨hvalue, hwithin⟩ := englishMinutesAt_spec hminutes
      have := hwithin.le
      exact ⟨⟨rfl, hvalue.1, hzero⟩, by dsimp only; omega, by dsimp only; omega⟩
    next => exact ⟨⟨rfl, hminute, hzero⟩, le_rfl, hnext⟩
  · exact ⟨⟨rfl, hminute, hzero⟩, le_rfl, hnext⟩

lemma sharpAt_spec (hnext : next ≤ tokens.length) :
    next ≤ sharpAt tokens next ∧ sharpAt tokens next ≤ tokens.length := by
  unfold sharpAt
  split_ifs with h₁ h₂
  · have : next + 1 < tokens.length := h₁.elim (fun h => wordAt_lt h.2) fun h => wordAt_lt h.2
    omega
  · have := wordAt_lt h₂
    omega
  · exact ⟨le_rfl, hnext⟩

lemma closed_spec (hour : 0 ≤ reading.hour) (hminute : 0 ≤ reading.minute)
    (hminus : reading.minus = 0) (hindex : index < tokens.length) :
    (0 ≤ (closed tokens reading spelled index).hour ∧
      0 ≤ (closed tokens reading spelled index).minute ∧
      (closed tokens reading spelled index).minus ≤ 59) ∧
      index ≤ (closed tokens reading spelled index).last ∧
        (closed tokens reading spelled index).last < tokens.length := by
  obtain ⟨⟨hsame, hpos, hle⟩, hlo, hhi⟩ :=
    @minutesOf_spec tokens (index + 1) reading spelled hminute hminus hindex
  obtain ⟨hlo', hhi'⟩ := sharpAt_spec hhi
  unfold closed
  dsimp only
  split
  next marker hmarker =>
    have hwithin : marker.Within tokens
        (sharpAt tokens (minutesOf tokens reading spelled (index + 1)).2) := by
      rcases Option.or_eq_some_iff.mp hmarker with h | ⟨-, h⟩
      · exact strictMarkerAt_within h
      · exact phraseMarkerAt_within h
    have := hwithin.pos
    have := hwithin.le
    exact ⟨⟨hsame ▸ hour, hpos, hle⟩, by dsimp only; omega, by dsimp only; omega⟩
  next => exact ⟨⟨hsame ▸ hour, hpos, hle⟩, by dsimp only; omega, by dsimp only; omega⟩

lemma clockAt_ok (htokens : ∀ token ∈ tokens, token.Fits) (index : ℕ) :
    ∃ r, clockAt tokens index = .ok r ∧ ∀ reading, r = some reading →
      (0 ≤ reading.hour ∧ 0 ≤ reading.minute ∧ reading.minus ≤ 59) ∧
        index ≤ reading.last ∧ reading.last < tokens.length := by
  unfold clockAt
  split
  · exact ⟨none, rfl, fun _ h => nomatch h⟩
  next head begin_ end_ htoken =>
    obtain ⟨hlt, hget⟩ := List.getElem?_eq_some_iff.mp htoken
    obtain ⟨r, hr, hfits⟩ := hourOf_ok (htokens _ (hget ▸ List.getElem_mem hlt))
    dsimp only at hr
    refine ⟨_, by rw [hr]; rfl, fun reading h => ?_⟩
    obtain ⟨⟨hour, spelled⟩, hhour, rfl⟩ := Option.map_eq_some_iff.mp h
    obtain ⟨hpos, hminute, hminus⟩ := hfits hour spelled hhour
    exact closed_spec hpos hminute hminus hlt

lemma spokenMinutes_spec {minutes : ℤ} (h : spokenMinutes tokens index = some (minutes, next)) :
    (0 ≤ minutes ∧ minutes ≤ 30) ∧ index ≤ next := by
  unfold spokenMinutes at h
  split_ifs at h
  · obtain ⟨rfl, rfl⟩ := Prod.mk.inj (Option.some.inj h)
    exact ⟨by decide, Nat.le_succ _⟩
  · obtain ⟨rfl, rfl⟩ := Prod.mk.inj (Option.some.inj h)
    exact ⟨by decide, Nat.le_succ _⟩
  · obtain ⟨spoken, hspoken, heq⟩ := Option.map_eq_some_iff.mp h
    obtain ⟨hspoken, hle⟩ := Option.filter_eq_some_iff.mp hspoken
    obtain ⟨rfl, rfl⟩ := Prod.mk.inj heq
    have hle := of_decide_eq_true hle
    have hpos := (englishMinutesAt_spec hspoken).1.1
    exact ⟨⟨hpos, by omega⟩, Nat.le_add_right _ _⟩

lemma pastAt_ok (htokens : ∀ token ∈ tokens, token.Fits) (index : ℕ) :
    ∃ r, pastAt tokens index = .ok r ∧ ∀ reading, r = some reading →
      reading.Fits ∧ index ≤ reading.last ∧ reading.last < tokens.length := by
  unfold pastAt
  split
  · exact ⟨none, rfl, fun _ h => nomatch h⟩
  next minutes next hspoken =>
    obtain ⟨hminutes, hle⟩ := spokenMinutes_spec hspoken
    dsimp only
    split
    · exact ⟨none, rfl, fun _ h => nomatch h⟩
    · obtain ⟨r, hr, hfits⟩ := clockAt_ok htokens (next + 1)
      refine ⟨_, by rw [hr]; rfl, fun reading h => ?_⟩
      obtain ⟨hour, hhour, rfl⟩ := Option.map_eq_some_iff.mp h
      obtain ⟨⟨hpos, hminute, hminus⟩, hlo, hhi⟩ :=
        hfits hour (Option.filter_eq_some_iff.mp hhour).1
      split_ifs
      · exact ⟨⟨hpos, by dsimp only; omega, by dsimp only; omega⟩, by dsimp only; omega, hhi⟩
      · exact ⟨⟨hpos, hminute, by dsimp only; omega⟩, by dsimp only; omega, hhi⟩

end Clocks

/-! ### All that is said -/

/-- What was found is in the words, in order. -/
structure Parsed.Fits (n : ℕ) (parsed : Parsed) : Prop where
  last : parsed.last < n
  span : parsed.clock ≠ none → parsed.first ≤ parsed.last
  offset : -1 ≤ parsed.offset ∧ parsed.offset ≤ 2
  clock : ∀ reading, parsed.clock = some reading → reading.Fits

section Dates

variable {tokens : Tokens} {index next end_ : ℕ} {number : Counted} {hit hit' : DateHit}

lemma explicitYearAt_spec {year : ℤ} (h : explicitYearAt tokens index = some (year, end_)) :
    index ≤ end_ ∧ end_ < tokens.length := by
  unfold explicitYearAt at h
  dsimp only at h
  split at h
  · cases h
  next token htoken =>
    have hlt := lt_of_getElem? htoken
    split_ifs at h hlt <;> obtain ⟨-, rfl⟩ := Prod.mk.inj (Option.some.inj h) <;> omega

lemma monthAfter_spec (h : monthAfter tokens index hit = some (hit', end_)) :
    index ≤ end_ ∧ end_ < tokens.length := by
  unfold monthAfter at h
  dsimp only at h
  obtain ⟨next, hnext, hle⟩ : ∃ next, next =
      (if anyWordAt tokens index ["de", "del", "of"] = true then index + 1 else index) ∧
        index ≤ next := by
    refine ⟨_, rfl, ?_⟩
    split_ifs <;> omega
  rw [← hnext] at h
  split at h
  · cases h
  next token htoken =>
    have hlt := lt_of_getElem? htoken
    obtain ⟨-, h⟩ := Option.ite_none_right_eq_some.mp h
    split at h
    next year last hyear =>
      obtain ⟨-, rfl⟩ := Prod.mk.inj (Option.some.inj h)
      have := explicitYearAt_spec hyear
      omega
    next =>
      obtain ⟨-, rfl⟩ := Prod.mk.inj (Option.some.inj h)
      exact ⟨hle, hlt⟩

lemma dateFrom_spec (hwithin : number.Within tokens next)
    (h : dateFrom tokens number next = some (hit, end_)) : next ≤ end_ ∧ end_ < tokens.length := by
  have hpos := hwithin.pos
  have hle := hwithin.le
  unfold dateFrom at h
  obtain ⟨-, h⟩ := Option.ite_none_left_eq_some.mp h
  have h := Option.some.inj h
  cases hmonth : monthAfter tokens (next + number.length) { day := number.value } with
  | none =>
    rw [hmonth] at h
    obtain ⟨-, rfl⟩ := Prod.mk.inj h
    omega
  | some found =>
    rw [hmonth] at h
    obtain rfl : found = (hit, end_) := h
    have := monthAfter_spec hmonth
    omega

lemma dateBehind_spec (h : dateBehind tokens index = some (hit, end_)) :
    index ≤ end_ ∧ end_ < tokens.length := by
  unfold dateBehind at h
  obtain ⟨number, hnumber, h⟩ := Option.bind_eq_some_iff.mp h
  obtain ⟨-, h⟩ := Option.ite_none_left_eq_some.mp h
  obtain ⟨hle, hlt⟩ := dateFrom_spec (dayNumberAt_spec hnumber).2 h
  refine ⟨le_trans ?_ hle, hlt⟩
  split_ifs <;> omega

lemma dateInMonth_spec {month : ℤ} (h : dateInMonth tokens month index = some (hit, end_)) :
    index ≤ end_ ∧ end_ < tokens.length := by
  unfold dateInMonth at h
  obtain ⟨number, hnumber, h⟩ := Option.bind_eq_some_iff.mp h
  have hwithin : number.Within tokens (index + 1) := by
    rcases Option.or_eq_some_iff.mp hnumber with hday | ⟨-, hday⟩
    · exact (dayNumberAt_spec hday).2
    · exact cardinalDayAt_within hday
  have hle := hwithin.le
  obtain ⟨-, h⟩ := Option.ite_none_left_eq_some.mp h
  obtain ⟨-, h⟩ := Option.ite_none_left_eq_some.mp h
  split at h
  next year last hyear =>
    obtain ⟨-, rfl⟩ := Prod.mk.inj (Option.some.inj h)
    have := explicitYearAt_spec hyear
    omega
  next =>
    obtain ⟨-, rfl⟩ := Prod.mk.inj (Option.some.inj h)
    omega

end Dates

section Scanner

variable {tokens : Tokens} {parsed : Parsed} {n first last : ℕ}

namespace Parsed.Fits

lemma empty (hpos : 0 < n) : Parsed.Fits n {} :=
  ⟨hpos, fun h => absurd rfl h, by decide, fun _ h => nomatch h⟩

/-- Only the words, the day and the time of day are asked about. -/
lemma same (h : parsed.Fits n) {parsed' : Parsed} (hfirst : parsed'.first = parsed.first)
    (hlast : parsed'.last = parsed.last) (hclock : parsed'.clock = parsed.clock)
    (hoffset : -1 ≤ parsed'.offset ∧ parsed'.offset ≤ 2) : parsed'.Fits n :=
  ⟨hlast ▸ h.last, fun hne => hfirst ▸ hlast ▸ h.span (hclock ▸ hne), hoffset,
    fun reading hreading => h.clock reading (hclock ▸ hreading)⟩

lemma widen (h : parsed.Fits n) (hle : first ≤ last) (hlt : last < n) :
    (parsed.widen first last).Fits n :=
  ⟨max_lt h.last hlt, fun _ => (min_le_right _ _).trans (hle.trans (le_max_right _ _)), h.offset,
    h.clock⟩

lemma take (h : parsed.Fits n) {reading : ClockReading} (hreading : reading.Fits)
    (hle : first ≤ reading.last) (hlt : reading.last < n) : (parsed.take reading first).Fits n :=
  ⟨max_lt h.last hlt, fun _ => (min_le_right _ _).trans (hle.trans (le_max_right _ _)), h.offset,
    fun _ hsome => Option.some.inj hsome ▸ hreading⟩

lemma marker (h : parsed.Fits tokens.length) (index : ℕ) :
    (CallTime.marker tokens parsed index).1.Fits tokens.length := by
  unfold CallTime.marker
  split
  · exact h
  next found hfound =>
    have hwithin := phraseMarkerAt_within hfound
    have := hwithin.pos
    have := hwithin.le
    refine Parsed.Fits.widen (h.same rfl rfl rfl ?_) (by omega) (by omega)
    dsimp only
    split_ifs
    · decide
    · exact h.offset

lemma day (h : parsed.Fits tokens.length) (index : ℕ) :
    (CallTime.day tokens parsed index).1.Fits tokens.length := by
  unfold CallTime.day
  dsimp only
  split
  · exact h
  next length offset today hnamed =>
    obtain ⟨⟨hpos, hle⟩, hoffset⟩ : (1 ≤ length ∧ index + length ≤ tokens.length) ∧
        (0 ≤ offset ∧ offset ≤ 2) := by
      split_ifs at hnamed with h₁ h₂ h₃ h₄ <;>
        obtain ⟨rfl, hrest⟩ := Prod.mk.inj (Option.some.inj hnamed) <;>
        obtain ⟨rfl, -⟩ := Prod.mk.inj hrest
      · exact ⟨⟨by decide, wordAt_lt h₁.2⟩, by decide⟩
      · exact ⟨⟨by decide, wordAt_lt h₂.2.2⟩, by decide⟩
      · exact ⟨⟨le_rfl, anyWordAt_lt h₃⟩, by decide⟩
      · exact ⟨⟨le_rfl, anyWordAt_lt h₄⟩, by decide⟩
    refine Parsed.Fits.widen (h.same rfl rfl rfl ?_) (by omega) (by omega)
    dsimp only
    split_ifs
    · omega
    · exact h.offset

lemma weekday (h : parsed.Fits tokens.length) (index : ℕ) :
    (CallTime.weekday tokens parsed index).1.Fits tokens.length := by
  unfold CallTime.weekday
  split
  · exact h
  next token htoken =>
    have hlt := lt_of_getElem? htoken
    dsimp only
    split
    · exact h
    have hnamed (first : ℕ) (hle : first ≤ index) (value : ℤ) :
        (({ parsed with weekday := value } : Parsed).widen first index).Fits tokens.length :=
      Parsed.Fits.widen (h.same rfl rfl rfl h.offset) hle hlt
    have hfirst : (if index > 0 ∧ anyWordAt tokens (index - 1) ["el", "on"] = true then index - 1
        else index) ≤ index := by
      split_ifs <;> omega
    split
    · exact hnamed _ hfirst _
    next hit end_ hhit =>
      obtain ⟨-, hhit⟩ := Option.ite_none_left_eq_some.mp hhit
      obtain ⟨number, hnumber, hhit⟩ := Option.bind_eq_some_iff.mp hhit
      obtain ⟨hle, hend⟩ := dateFrom_spec (dayNumberAt_spec hnumber).2 hhit
      have hnext : index ≤ end_ := by
        refine le_trans ?_ hle
        split_ifs <;> omega
      exact Parsed.Fits.widen ((hnamed _ hfirst _).same rfl rfl rfl h.offset) hnext hend

lemma dated (h : parsed.Fits tokens.length) {index : ℕ} {hit : Option (DateHit × ℕ)}
    (hhit : ∀ found end_, hit = some (found, end_) → first ≤ end_ ∧ end_ < tokens.length) :
    (CallTime.dated parsed index first hit).1.Fits tokens.length := by
  unfold CallTime.dated
  split
  · exact h
  next found end_ =>
    obtain ⟨hle, hlt⟩ := hhit found end_ rfl
    exact Parsed.Fits.widen (h.same rfl rfl rfl h.offset) hle hlt

lemma date (h : parsed.Fits tokens.length) (index : ℕ) :
    (CallTime.date tokens parsed index).1.Fits tokens.length := by
  unfold CallTime.date
  split
  · exact h
  split
  · refine h.dated fun found end_ hhit => ?_
    obtain ⟨hle, hlt⟩ := dateBehind_spec hhit
    refine ⟨le_trans ?_ hle, hlt⟩
    split_ifs <;> omega
  split
  · exact h
  split
  · exact h.dated fun found end_ hhit => dateInMonth_spec hhit
  · refine h.dated fun found end_ hhit => ?_
    obtain ⟨number, hnumber, hhit⟩ := Option.bind_eq_some_iff.mp hhit
    obtain ⟨hle, hlt⟩ := monthAfter_spec hhit
    exact ⟨by omega, hlt⟩

lemma taken (h : parsed.Fits n) (index : ℕ)
    {readings : List (ℕ × Except Thrown (Option ClockReading))}
    (hreadings : ∀ p ∈ readings, ∃ r, p.2 = .ok r ∧ ∀ reading, r = some reading →
      reading.Fits ∧ p.1 ≤ reading.last ∧ reading.last < n) :
    ∃ s, CallTime.taken parsed index readings = .ok s ∧ s.1.Fits n := by
  induction readings with
  | nil => exact ⟨_, rfl, h⟩
  | cons p readings ih =>
    rw [List.forall_mem_cons] at hreadings
    obtain ⟨⟨r, hr, hfits⟩, hrest⟩ := hreadings
    obtain ⟨first, reading⟩ := p
    dsimp only at hr
    subst hr
    cases r with
    | none => exact ih hrest
    | some reading =>
      obtain ⟨hreading, hle, hlt⟩ := hfits reading rfl
      exact ⟨_, rfl, h.take hreading hle hlt⟩

lemma clock' (h : parsed.Fits tokens.length) (htokens : ∀ token ∈ tokens, token.Fits) (index : ℕ) :
    ∃ s, CallTime.clock tokens parsed index = .ok s ∧ s.1.Fits tokens.length := by
  have hclock {first at_ : ℕ} (hle : first ≤ at_) : ∃ r, clockAt tokens at_ = .ok r ∧
      ∀ reading, r = some reading →
        reading.Fits ∧ first ≤ reading.last ∧ reading.last < tokens.length := by
    obtain ⟨r, hr, hfits⟩ := clockAt_ok htokens at_
    refine ⟨r, hr, fun reading hreading => ?_⟩
    obtain ⟨⟨hpos, hminute, hminus⟩, hlo, hhi⟩ := hfits reading hreading
    exact ⟨⟨hpos, hminute, by omega⟩, hle.trans hlo, hhi⟩
  have hpast {first at_ : ℕ} (hle : first ≤ at_) : ∃ r, pastAt tokens at_ = .ok r ∧
      ∀ reading, r = some reading →
        reading.Fits ∧ first ≤ reading.last ∧ reading.last < tokens.length := by
    obtain ⟨r, hr, hfits⟩ := pastAt_ok htokens at_
    refine ⟨r, hr, fun reading hreading => ?_⟩
    obtain ⟨hreading, hlo, hhi⟩ := hfits reading hreading
    exact ⟨hreading, hle.trans hlo, hhi⟩
  unfold CallTime.clock
  split
  · exact ⟨_, rfl, h⟩
  dsimp only
  split
  · refine h.taken index ?_
    rw [List.forall_mem_singleton]
    exact hclock (by omega)
  split
  · refine h.taken index ?_
    rw [List.forall_mem_cons, List.forall_mem_singleton]
    exact ⟨hpast (Nat.le_succ _), hclock (Nat.le_succ _)⟩
  split
  · exact ⟨_, rfl, h⟩
  · refine h.taken index ?_
    rw [List.forall_mem_cons]
    refine ⟨hpast le_rfl, fun p hp => ?_⟩
    split at hp
    · rw [List.mem_singleton.mp hp]
      refine hclock ?_
      split_ifs <;> omega
    · cases hp

lemma step (h : parsed.Fits tokens.length) (htokens : ∀ token ∈ tokens, token.Fits) (index : ℕ) :
    ∃ s, CallTime.step tokens parsed index = .ok s ∧ s.1.Fits tokens.length := by
  have hfold (phrases : List (Parsed → ℕ → Parsed × ℕ)) (hphrases : ∀ phrase ∈ phrases,
      ∀ parsed : Parsed, parsed.Fits tokens.length → (phrase parsed index).1.Fits tokens.length)
      (s : Parsed × ℕ) (hs : s.1.Fits tokens.length) :
      (phrases.foldl (fun s phrase => if s.2 = 0 then phrase s.1 index else s) s).1.Fits
        tokens.length := by
    induction phrases generalizing s with
    | nil => exact hs
    | cons phrase phrases ih =>
      rw [List.forall_mem_cons] at hphrases
      refine ih hphrases.2 _ ?_
      dsimp only
      split_ifs
      · exact hphrases.1 _ hs
      · exact hs
  have hphrases : ∀ phrase ∈ [CallTime.marker tokens, CallTime.day tokens, CallTime.weekday tokens,
      CallTime.date tokens], ∀ parsed : Parsed, parsed.Fits tokens.length →
        (phrase parsed index).1.Fits tokens.length := by
    rw [List.forall_mem_cons, List.forall_mem_cons, List.forall_mem_cons, List.forall_mem_singleton]
    exact ⟨fun _ h => h.marker index, fun _ h => h.day index, fun _ h => h.weekday index,
      fun _ h => h.date index⟩
  have hfits := hfold _ hphrases (parsed, 0) h
  unfold CallTime.step
  dsimp only
  split
  · exact hfits.clock' htokens index
  · exact ⟨_, rfl, hfits⟩

lemma runFrom (h : parsed.Fits tokens.length) (htokens : ∀ token ∈ tokens, token.Fits)
    (index : ℕ) : ∃ parsed', CallTime.runFrom tokens parsed index = .ok parsed' ∧
      parsed'.Fits tokens.length := by
  induction parsed, index using CallTime.runFrom.induct tokens with
  | case1 parsed index hlt thrown hstep =>
    obtain ⟨s, hs, -⟩ := h.step htokens index
    rw [hs] at hstep
    cases hstep
  | case2 parsed index hlt parsed' used hstep ih =>
    obtain ⟨s, hs, hfits⟩ := h.step htokens index
    obtain rfl := Except.ok.inj (hs.symm.trans hstep)
    rw [CallTime.runFrom, if_pos hlt, hstep]
    exact ih hfits
  | case3 parsed index hlt =>
    rw [CallTime.runFrom, if_neg hlt]
    exact ⟨_, rfl, h⟩

end Parsed.Fits

end Scanner

/-- Nothing fails, and what was found is in the words. -/
theorem run_ok {source : Bytes} (hne : tokenize source ≠ []) :
    ∃ parsed, run (tokenize source) = .ok parsed ∧ parsed.Fits (tokenize source).length :=
  (Parsed.Fits.empty (List.length_pos_iff.mpr hne)).runFrom
    (fun token htoken => ((tokensFrom_spec 0 source).1 token htoken).1) 0

/-! ### The moment -/

section Moments

variable {zone now : ℤ} {parsed : Parsed} {clock : ClockReading}

/-- The second of the day, which may be of the day before or after. -/
def secondsOf (clock : ClockReading) : ℤ := 3600 * hour24 clock + 60 * (clock.minute - clock.minus)

lemma hour24_nonneg (h : 0 ≤ clock.hour) : 0 ≤ hour24 clock := by
  have hmod : 0 ≤ clock.hour.tmod kNoon := Int.tmod_nonneg _ h
  unfold hour24 kNoon kEndOfDay at *
  dsimp only
  split
  · decide
  split
  · decide
  split
  · exact h
  · split
    · exact hmod
    · exact hmod
    · omega
    · omega
    · exact h
    · split_ifs <;> omega
    · split_ifs <;> omega

/-- Less than two hours are taken away. -/
lemma secondsOf_lower (h : clock.Fits) : -86400 < secondsOf clock := by
  have hhour := hour24_nonneg h.hour
  have := h.minute
  have := h.minus
  unfold secondsOf
  omega

/-- A bare hour of the morning is after midnight. -/
lemma secondsOf_bareMorning (h : clock.Fits) (hbare : bareMorning clock = true) :
    0 ≤ secondsOf clock := by
  obtain ⟨hperiod, hliteral, hmidday, hmidnight, hlo, hhi⟩ := of_decide_eq_true hbare
  have hhour : 7 ≤ hour24 clock := by
    unfold hour24 kNoon kAfternoonHours
    dsimp only
    rw [if_neg (by simpa using hmidday), if_neg (by simpa using hmidnight),
      if_neg (by simpa using hliteral), hperiod]
    dsimp only
    split_ifs <;> omega
  have := h.minute
  have := h.minus
  unfold secondsOf
  omega

lemma Parsed.Fits.inContext {n : ℕ} (h : parsed.Fits n) (hclock : parsed.clock = some clock) :
    (CallTime.inContext parsed clock).Fits := by
  have hfits := h.clock clock hclock
  unfold CallTime.inContext
  split_ifs
  · exact ⟨hfits.hour, hfits.minute, hfits.minus⟩
  · exact hfits

lemma instantOf_eq (n : ℤ) :
    instantOf zone (dateOf n) clock = 86400 * n + secondsOf clock - zone := by
  unfold instantOf mktime timegm secondsOf kMinuteS
  rw [dayNumber_tm (civil_dateOf n).month rfl rfl rfl, dayNumber_dateOf]
  dsimp only
  omega

lemma civilOf_eq (zone now : ℤ) : civilOf zone now = dateOf ((now + zone) / 86400) :=
  RepeatRule.civilOf_eq zone now

lemma shifted_eq (n k : ℤ) : shifted zone (dateOf n) k = dateOf (n + k) :=
  (RepeatRule.noonOf_eq zone n k).1

lemma le_yearAfter (zone now : ℤ) : now ≤ yearAfter zone now := by
  have hnow := mktime_localtime zone now
  have hyear (tm : Tm) : tm.dayNumber ≤ Tm.dayNumber { tm with tm_year := tm.tm_year + 1 } := by
    obtain ⟨y, hy⟩ : ∃ y, y = tm.tm_year + 1900 + tm.tm_mon / 12 := ⟨_, rfl⟩
    have hstart := yearStart_succ y
    have hleap := leapDays_eq y
    have hleap' := leapDays_eq (y + 1)
    unfold Tm.dayNumber dayNumber monthStart
    dsimp only
    rw [show tm.tm_year + 1 + 1900 + tm.tm_mon / 12 = y + 1 by omega, ← hy]
    split_ifs <;> omega
  have hle := hyear (localtime zone now)
  unfold yearAfter
  dsimp only
  unfold mktime timegm at hnow ⊢
  dsimp only at hnow ⊢
  omega

lemma isValid_ok (civil : Date) : ∃ valid, isValid civil = .ok valid := by
  unfold isValid
  split
  next h =>
    have hm : ¬(civil.month - 1 < 0 ∨ 12 ≤ civil.month - 1) := by
      have := h.2.1
      unfold kMonthsInYear at this
      omega
    rw [daysInMonth, if_neg hm]
    exact ⟨_, rfl⟩
  next => exact ⟨false, rfl⟩

lemma findM?_ok {p : Date → Except Thrown Bool} {P : Date → Prop} (civils : List Date)
    (hp : ∀ civil, ∃ found, p civil = .ok found ∧ (found = true → P civil)) :
    ∃ r, civils.findM? p = .ok r ∧ ∀ date, r = some date → P date := by
  induction civils with
  | nil => exact ⟨none, rfl, fun _ h => nomatch h⟩
  | cons civil civils ih =>
    obtain ⟨found, hfound, hP⟩ := hp civil
    rw [List.findM?, hfound]
    cases found with
    | true => exact ⟨_, rfl, fun date hdate => Option.some.inj hdate ▸ hP rfl⟩
    | false => exact ih

/-- A date is taken where its moment has not passed. -/
lemma upcomingDate_ok (hit : DateHit) (today : Date) : ∃ upcoming,
    upcomingDate zone hit today clock now = .ok upcoming ∧
      ∀ date, upcoming.date = some date → now < instantOf zone date clock := by
  have hahead (civil : Date) : ∃ found, ((isValid civil).map fun (valid : Bool) =>
      decide (valid ∧ instantOf zone civil clock > now)) = .ok found ∧
        (found = true → now < instantOf zone civil clock) := by
    obtain ⟨valid, hvalid⟩ := isValid_ok civil
    exact ⟨decide (valid ∧ instantOf zone civil clock > now), by rw [hvalid]; rfl,
      fun h => (of_decide_eq_true h).2⟩
  unfold upcomingDate
  dsimp only
  split
  · obtain ⟨valid, hvalid⟩ := isValid_ok { year := hit.year, month := hit.month, day := hit.day }
    obtain ⟨found, hfound, hP⟩ := hahead { year := hit.year, month := hit.month, day := hit.day }
    rw [hfound, hvalid]
    cases valid with
    | false => exact ⟨{}, rfl, fun _ h => nomatch h⟩
    | true =>
      cases found with
      | true => exact ⟨_, rfl, fun date hdate => Option.some.inj hdate ▸ hP rfl⟩
      | false => exact ⟨_, rfl, fun _ h => nomatch h⟩
  split
  · obtain ⟨r, hr, hP⟩ := findM?_ok ([today.year, today.year + 1].map fun year =>
      ({ year, month := hit.month, day := hit.day } : Date)) hahead
    rw [hr]
    exact ⟨_, rfl, hP⟩
  · obtain ⟨r, hr, hP⟩ := findM?_ok ((List.range (kMonthsAhead + 1)).map fun (step : ℕ) =>
      let index := today.month - 1 + step
      ({ year := today.year + index.tdiv kMonthsInYear
         month := index.tmod kMonthsInYear + 1, day := hit.day } : Date)) hahead
    rw [hr]
    exact ⟨_, rfl, hP⟩

/-- What was found has not passed. -/
def Resolved.Ahead (now : ℤ) (result : Resolved) : Prop :=
  (∀ fireAt, result.fireAt = some fireAt → now < fireAt) ∧
    ∀ passed, result.passed = some passed → now < passed

namespace Resolved.Ahead

lemma of_none {result : Resolved} (hfireAt : result.fireAt = none)
    (hpassed : result.passed = none) : result.Ahead now :=
  ⟨fun _ h => (nomatch hfireAt.symm.trans h), fun _ h => (nomatch hpassed.symm.trans h)⟩

lemma of_fireAt {moment : ℤ} (h : now < moment) : Resolved.Ahead now { fireAt := some moment } :=
  ⟨fun _ hsome => Option.some.inj hsome ▸ h, fun _ hsome => nomatch hsome⟩

lemma of_passed {moment : ℤ} (h : now < moment) : Resolved.Ahead now { passed := some moment } :=
  ⟨fun _ hsome => (nomatch hsome), fun _ hsome => Option.some.inj hsome ▸ h⟩

end Resolved.Ahead

lemma onWeekday_ahead : (onWeekday zone parsed clock now).Ahead now := by
  unfold onWeekday
  dsimp only
  split
  · exact .of_none rfl rfl
  · generalize instantOf zone _ clock = fireAt
    split
    · exact .of_none rfl rfl
    next hpassed => exact .of_fireAt (not_le.mp hpassed)

/-- Without a date and a weekday, what was found has passed when the minutes that are taken away
lead back over midnight to a time that has passed. -/
lemma onDay_cases (hfits : clock.Fits) (hoffset : -1 ≤ parsed.offset ∧ parsed.offset ≤ 2) :
    (parsed.offset ≤ 1 ∧ 86400 + secondsOf clock ≤ (now + zone) % 86400 ∧
      ∃ moment ≤ now, onDay zone parsed clock now = { fireAt := some moment } ∨
        onDay zone parsed clock now = { passed := some moment }) ∨
    ¬(parsed.offset ≤ 1 ∧ 86400 + secondsOf clock ≤ (now + zone) % 86400) ∧
      (onDay zone parsed clock now).Ahead now ∧ (onDay zone parsed clock now).conflict = none := by
  have hlower := secondsOf_lower hfits
  have hmod := Int.mul_ediv_add_emod (now + zone) 86400
  have hlt := Int.emod_lt_of_pos (now + zone) (show (0 : ℤ) < 86400 by decide)
  unfold onDay
  simp only [civilOf_eq, shifted_eq, instantOf_eq]
  generalize (now + zone) / 86400 = day at hmod ⊢
  generalize (now + zone) % 86400 = second at hmod hlt ⊢
  split
  -- A day is named: its moment is not compared with the present one.
  next hahead =>
    by_cases hearly : parsed.offset ≤ 1 ∧ 86400 + secondsOf clock ≤ second
    · exact .inl ⟨hearly.1, hearly.2, _, by omega, .inl rfl⟩
    · exact .inr ⟨hearly, .of_fireAt (by omega), rfl⟩
  next hahead =>
    split
    next htoday => exact .inr ⟨by omega, .of_fireAt htoday, rfl⟩
    split
    next hbare =>
      have := secondsOf_bareMorning hfits hbare.1
      exact .inr ⟨by omega, .of_fireAt hbare.2, rfl⟩
    -- What has passed today is taken for tomorrow, without a second look.
    by_cases hearly : 86400 + secondsOf clock ≤ second
    · refine .inl ⟨by omega, hearly, 86400 * (day + 1) + secondsOf clock - zone, by omega, ?_⟩
      split
      · exact .inr rfl
      · exact .inl rfl
    · refine .inr ⟨fun h => hearly h.2, ?_⟩
      split
      · exact ⟨.of_passed (by omega), rfl⟩
      · exact ⟨.of_fireAt (by omega), rfl⟩

/-- Nothing fails, and what was found has not passed, but for a time of day alone. -/
lemma instantFor_ok : ∃ result, instantFor zone parsed clock now = .ok result ∧
    (result.Ahead now ∧ ¬(parsed.date = none ∧ parsed.weekday < 0) ∨
      parsed.date = none ∧ parsed.weekday < 0 ∧
        result = onDay zone parsed (inContext parsed clock) now) := by
  unfold instantFor
  dsimp only
  split
  next hit hdate =>
    obtain ⟨upcoming, hupcoming, hahead⟩ :=
      @upcomingDate_ok zone now (inContext parsed clock) hit (civilOf zone now)
    rw [hupcoming]
    obtain ⟨date, far⟩ := upcoming
    have hnot : ¬(parsed.date = none ∧ parsed.weekday < 0) := fun h => by
      rw [hdate] at h
      exact nomatch h.1
    cases date with
    | none => exact ⟨_, rfl, .inl ⟨.of_none rfl rfl, hnot⟩⟩
    | some date =>
      by_cases hweekday : parsed.weekday ≥ 0 ∧ weekdayIndex zone date ≠ parsed.weekday
      · exact ⟨_, if_pos hweekday, .inl ⟨.of_none rfl rfl, hnot⟩⟩
      · exact ⟨_, if_neg hweekday, .inl ⟨.of_fireAt (hahead date rfl), hnot⟩⟩
  next hdate =>
    split
    next hweekday => exact ⟨_, rfl, .inl ⟨onWeekday_ahead, fun h => not_lt.mpr hweekday h.2⟩⟩
    next hweekday => exact ⟨_, rfl, .inr ⟨hdate, not_le.mp hweekday, rfl⟩⟩

end Moments

/-! ### What is heard -/

/-- A moment that was heard is in the future, at most 30 days or a year ahead, and its phrase is in
the text; another moment of today is in the future; moments that disagree are at most a year
ahead. -/
structure Heard (zone : ℤ) (text : Bytes) (now : ℤ) (reading : CallReading) : Prop where
  future : ∀ time, reading.time = some time → now < time.fireAt
  bounded : ∀ time, reading.time = some time → time.fireAt ≤
    if (relative (tokenize (fold text).text) now).isSome then now + kRelativeAheadS
    else yearAfter zone now
  phrase : ∀ time, reading.time = some time →
    time.phraseBegin < time.phraseEnd ∧ time.phraseEnd ≤ text.length
  passed : ∀ passed, reading.passedToday = some passed → now < passed
  conflict : ∀ conflict, reading.conflict = some conflict →
    conflict.byWeekday ≤ yearAfter zone now ∧ conflict.byDate ≤ yearAfter zone now

/-- Only a time of day is heard, at most with today or tomorrow, and the minutes that are taken
from it lead back over midnight, to a time of the day before that has passed on this day. -/
def Early (zone : ℤ) (text : Bytes) (now : ℤ) : Prop :=
  relative (tokenize (fold text).text) now = none ∧
    ∃ parsed clock, run (tokenize (fold text).text) = .ok parsed ∧ parsed.clock = some clock ∧
      parsed.date = none ∧ parsed.weekday < 0 ∧ parsed.offset ≤ 1 ∧
        86400 + secondsOf (inContext parsed clock) ≤ (now + zone) % 86400

section Heard

variable {zone now : ℤ} {text : Bytes} {parsed : Parsed} {result : Resolved}

lemma heard_empty : Heard zone text now {} :=
  ⟨fun _ h => (nomatch h), fun _ h => (nomatch h), fun _ h => (nomatch h), fun _ h => (nomatch h),
    fun _ h => (nomatch h)⟩

lemma heard_far : Heard zone text now { farAway := true } :=
  ⟨fun _ h => (nomatch h), fun _ h => (nomatch h), fun _ h => (nomatch h), fun _ h => (nomatch h),
    fun _ h => (nomatch h)⟩

/-- A span of time that is heard. -/
lemma relative_spec {tokens : Tokens} {found : Relative} (h : relative tokens now = some found) :
    now < found.fireAt ∧ found.first ≤ found.last ∧ found.last < tokens.length := by
  have hfrom {first index : ℕ} (hle : first ≤ index)
      (h : relativeFrom tokens now first index = some found) :
      now < found.fireAt ∧ found.first ≤ found.last ∧ found.last < tokens.length := by
    unfold relativeFrom at h
    split at h
    · cases h
    split at h
    next half hhalf =>
      obtain rfl := Option.some.inj h
      unfold relativeAmountAt at hhalf
      split_ifs at hhalf with h₁ h₂ <;> obtain rfl := Option.some.inj hhalf
      · have := wordAt_lt h₁.2
        unfold kMinuteS
        exact ⟨by dsimp only; omega, by dsimp only; omega, by dsimp only; omega⟩
      · have := wordAt_lt h₂.2.2
        unfold kMinuteS
        exact ⟨by dsimp only; omega, by dsimp only; omega, by dsimp only; omega⟩
    next =>
      split at h
      · cases h
      next head _ _ _ _ _ unit _ _ htoken =>
        have hlt := lt_of_getElem? htoken
        obtain ⟨hnone, h⟩ := Option.ite_none_left_eq_some.mp h
        obtain ⟨hamount, hstep⟩ := not_or.mp hnone
        obtain rfl := Option.some.inj h
        have hpos : 0 < stepOf unit := by
          unfold stepOf kMinuteS kHourS at hstep ⊢
          split_ifs at hstep ⊢
          · decide
          · decide
          · exact absurd rfl hstep
        have := mul_pos (not_le.mp hamount) hpos
        exact ⟨by dsimp only; omega, by dsimp only; omega, hlt⟩
  obtain ⟨index, -, h⟩ := List.exists_of_findSome?_eq_some h
  split_ifs at h
  · exact hfrom (Nat.le_add_right _ _) h
  · exact hfrom (Nat.le_succ _) h

/-- Where what was found is bounded, it is heard well if it has not passed. -/
lemma heard_answered (hrelative : relative (tokenize (fold text).text) now = none)
    (hspan : parsed.first ≤ parsed.last ∧ parsed.last < (tokenize (fold text).text).length)
    (hahead : result.Ahead now) :
    Heard zone text now
      (answered zone now (fold text) (tokenize (fold text).text) parsed result) := by
  unfold answered
  dsimp only
  split
  · split
    · exact heard_far
    next hle =>
      refine ⟨fun _ h => (nomatch h), fun _ h => (nomatch h), fun _ h => (nomatch h),
        fun _ h => (nomatch h), fun conflict hconflict => ?_⟩
      obtain rfl := Option.some.inj hconflict
      exact max_le_iff.mp (not_lt.mp hle)
  split
  · exact heard_far
  split
  · exact ⟨fun _ h => (nomatch h), fun _ h => (nomatch h), fun _ h => (nomatch h),
      fun passed hpassed => hahead.2 passed hpassed, fun _ h => (nomatch h)⟩
  split
  · exact heard_empty
  next fireAt hfireAt =>
    obtain ⟨hfireAt, hle⟩ := Option.filter_eq_some_iff.mp hfireAt
    have hphrase := span_origin hspan.1 hspan.2
    refine ⟨fun time htime => ?_, fun time htime => ?_, fun time htime => ?_,
      fun _ h => (nomatch h), fun _ h => (nomatch h)⟩
    all_goals obtain rfl := Option.some.inj htime
    · exact hahead.1 fireAt hfireAt
    · rw [hrelative]
      exact of_decide_eq_true hle
    · exact hphrase

end Heard

/-- A time of day alone is heard as the moment of its day. -/
lemma answered_early (zone : ℤ) (folded : Folded) (tokens : Tokens) {now moment : ℤ}
    {parsed : Parsed} (hdate : parsed.date = none) (hle : moment ≤ now) :
    answered zone now folded tokens parsed { fireAt := some moment } =
        { time := some (timeOf folded tokens moment parsed.first parsed.last) } ∧
      answered zone now folded tokens parsed { passed := some moment } =
        { passedToday := some moment } := by
  have hlimit := hle.trans (le_yearAfter zone now)
  constructor
  · simp [answered, hdate, Option.filter, hlimit]
  · simp [answered]

/-- A span of time is heard as long as it does not lead too far. -/
lemma heard_relative {zone now : ℤ} {text : Bytes} {found : Relative}
    (hnil : tokenize (fold text).text ≠ [])
    (hrelative : relative (tokenize (fold text).text) now = some found) :
    ∃ reading, read zone text now = .ok reading ∧ Heard zone text now reading := by
  obtain ⟨hlt, hle, hlast⟩ := relative_spec hrelative
  unfold read
  dsimp only
  rw [if_neg hnil, hrelative]
  dsimp only
  split
  · exact ⟨_, rfl, heard_empty⟩
  next hbound =>
    refine ⟨_, rfl, fun time htime => ?_, fun time htime => ?_, fun time htime => ?_,
      fun _ h => (nomatch h), fun _ h => (nomatch h)⟩
    all_goals obtain rfl := Option.some.inj htime
    · exact hlt
    · have := not_lt.mp hbound
      rw [hrelative]
      change found.fireAt ≤ now + kRelativeAheadS
      omega
    · exact span_origin hle hlast

/-- What is said besides the span of time decides whether the minutes lead back too far. -/
lemma early_iff {zone now : ℤ} {text : Bytes} {parsed : Parsed}
    (hrelative : relative (tokenize (fold text).text) now = none)
    (hrun : run (tokenize (fold text).text) = .ok parsed) :
    Early zone text now ↔ ∃ clock, parsed.clock = some clock ∧ parsed.date = none ∧
      parsed.weekday < 0 ∧ parsed.offset ≤ 1 ∧
        86400 + secondsOf (inContext parsed clock) ≤ (now + zone) % 86400 := by
  constructor
  · rintro ⟨-, parsed', clock, hrun', h⟩
    obtain rfl := Except.ok.inj (hrun.symm.trans hrun')
    exact ⟨clock, h⟩
  · rintro ⟨clock, h⟩
    exact ⟨hrelative, parsed, clock, hrun, h⟩

/-- What has passed is not heard well, whether it is given as a time or as one of today. -/
lemma not_heard_answered {zone now moment : ℤ} {text : Bytes} {parsed : Parsed} {result : Resolved}
    (hdate : parsed.date = none) (hle : moment ≤ now)
    (hmoment : result = { fireAt := some moment } ∨ result = { passed := some moment }) :
    ¬Heard zone text now
      (answered zone now (fold text) (tokenize (fold text).text) parsed result) := by
  obtain ⟨htime, hpassed⟩ := answered_early zone (fold text) (tokenize (fold text).text) hdate hle
  intro hheard
  rcases hmoment with rfl | rfl
  · rw [htime] at hheard
    exact absurd (hheard.future _ rfl) (not_lt.mpr hle)
  · rw [hpassed] at hheard
    exact absurd (hheard.passed _ rfl) (not_lt.mpr hle)

/-- What is heard is in the future and in its phrase, and nothing fails, exactly where the minutes
that are taken from a time of day do not lead back over midnight to what has passed. -/
theorem heard_exact (zone : ℤ) (text : Bytes) (now : ℤ) :
    (∃ reading, read zone text now = .ok reading ∧ Heard zone text now reading) ↔
      ¬Early zone text now := by
  by_cases hnil : tokenize (fold text).text = []
  · have hrun : run (tokenize (fold text).text) = .ok {} := by
      rw [hnil, run, runFrom]
      rfl
    refine iff_of_true ⟨_, if_pos hnil, heard_empty⟩ fun h => ?_
    obtain ⟨clock, hclock, -⟩ := (early_iff h.1 hrun).mp h
    cases hclock
  obtain ⟨parsed, hrun, hfits⟩ := run_ok hnil
  cases hrelative : relative (tokenize (fold text).text) now with
  | some found =>
    refine iff_of_true (heard_relative hnil hrelative) fun h => ?_
    rw [h.1] at hrelative
    cases hrelative
  | none =>
    rw [early_iff hrelative hrun]
    cases hclock : parsed.clock with
    | none =>
      have hread : read zone text now = .ok {} := by
        simp [read, hnil, hrelative, hrun, hclock, bind, Except.bind, pure, Except.pure]
      exact iff_of_true ⟨_, hread, heard_empty⟩ fun ⟨_, h, _⟩ => nomatch h
    | some clock =>
      obtain ⟨result, hresult, hcases⟩ := @instantFor_ok zone now parsed clock
      have hread : read zone text now = .ok
          (answered zone now (fold text) (tokenize (fold text).text) parsed result) := by
        simp [read, hnil, hrelative, hrun, hclock, hresult, bind, Except.bind, pure, Except.pure]
      have hspan := And.intro (hfits.span (by simp [hclock])) hfits.last
      -- A date and a weekday are compared with the present moment; a time of day alone is not.
      rcases hcases with ⟨hahead, hnot⟩ | ⟨hdate, hweekday, rfl⟩
      · refine iff_of_true ⟨_, hread, heard_answered hrelative hspan hahead⟩ ?_
        rintro ⟨_, -, hdate, hweekday, -⟩
        exact hnot ⟨hdate, hweekday⟩
      rcases @onDay_cases zone now parsed _ (hfits.inContext hclock) hfits.offset with
        ⟨hoffset, hseconds, moment, hle, hmoment⟩ | ⟨hnot, hahead, -⟩
      · refine iff_of_false ?_ (not_not.mpr ⟨clock, rfl, hdate, hweekday, hoffset, hseconds⟩)
        rintro ⟨reading, hread', hheard⟩
        obtain rfl := Except.ok.inj (hread.symm.trans hread')
        exact not_heard_answered hdate hle hmoment hheard
      · refine iff_of_true ⟨_, hread, heard_answered hrelative hspan hahead⟩ ?_
        rintro ⟨clock', hclock', -, -, hbound⟩
        obtain rfl := Option.some.inj hclock'
        exact hnot hbound

/-- Ten minutes before midnight, tomorrow at a quarter to twelve in the small hours is five minutes
ago. -/
theorem heard_too_early : ¬∃ reading,
    read 0 (ascii "manana a las 12 menos cuarto de la madrugada") 85800 = .ok reading ∧
      Heard 0 (ascii "manana a las 12 menos cuarto de la madrugada") 85800 reading := by
  rintro ⟨reading, hread, hheard⟩
  have htime : (read 0 (ascii "manana a las 12 menos cuarto de la madrugada") 85800).toOption.bind
      (fun reading => reading.time) =
        some { fireAt := 85500, phraseBegin := 0, phraseEnd := 44 } := by
    decide +kernel
  rw [hread] at htime
  exact absurd (hheard.future _ htime) (by decide)

end CallTime

end Extract

end ArgusBackend
