import ArgusBackend.Productivity.Exceptions
import Mathlib.Data.Int.Interval

/-!
# The occurrences in a window

`occurrencesWithin` lists the occurrences of a series that take place in a window.  It goes through
those that the rule has in the window, with their exceptions, and adds the others that an exception
moves into it.

* `place_all`, `addMoved_all` : what the two loops find;
* `mem_entries` : together they find the occurrences that take place in the window;
* `window_exact` : the list is exact, as long as it is not too long.
-/

namespace ArgusBackend

namespace Productivity

open Numerals
open Text.JsonDiff (Value)

/-- A series and a window of time. -/
structure SeriesWindowInput where
  rule : Option Bytes
  startsAt : ℤ
  endsAt : Option ℤ
  exceptions : Bytes
  «from» : ℤ
  «to» : ℤ

/-- An occurrence as it is shown. -/
structure SeriesOccurrence where
  occurrence : ℤ
  startsAt : ℤ
  endsAt : Option ℤ
  title : Option Bytes := none
  location : Option Bytes := none
  repeats : Bool := false
  deriving DecidableEq

namespace Recurrence

/-- The most occurrences that are shown. -/
def kMaxSeriesOccurrences : ℕ := 512

/-- An occurrence with its exception. -/
def shaped (input : SeriesWindowInput) (occurrence : ℤ) (exception : Option OccurrenceException) :
    SeriesOccurrence :=
  let startsAt := (exception.bind OccurrenceException.startsAt).getD occurrence
  { occurrence
    startsAt
    endsAt := (exception.bind OccurrenceException.endsAt).or
      (input.endsAt.map fun endsAt => startsAt + (endsAt - input.startsAt))
    title := exception.bind OccurrenceException.title
    location := exception.bind OccurrenceException.location
    repeats := true }

/-- The moment is in the window. -/
def within (t : ℤ) (input : SeriesWindowInput) : Prop := input.from ≤ t ∧ t ≤ input.to

instance (t : ℤ) (input : SeriesWindowInput) : Decidable (within t input) :=
  inferInstanceAs (Decidable (_ ∧ _))

/-- The loop of `startsWithin`, with the room that is left. -/
def startsFrom (zone : ℤ) (rule : RecurrenceRule) (input : SeriesWindowInput) :
    ℕ → Option ℤ → List ℤ
  | room + 1, some next =>
    if next ≤ input.to then
      next :: startsFrom zone rule input room
        (firstOccurrenceAfter zone rule input.startsAt next)
    else []
  | _, _ => []

/-- The occurrences that begin in the window. -/
def startsWithin (zone : ℤ) (rule : RecurrenceRule) (input : SeriesWindowInput) : List ℤ :=
  if input.startsAt > input.to then []
  else
    startsFrom zone rule input kMaxSeriesOccurrences
      (if input.startsAt ≥ input.from then occurrenceAt zone rule input.startsAt 0
      else firstOccurrenceAfter zone rule input.startsAt (input.from - 1))

/-- One turn of the loop over the occurrences, which uses up their exceptions. -/
def place (input : SeriesWindowInput) (s : List SeriesOccurrence × List OccurrenceException)
    (occurrence : ℤ) : List SeriesOccurrence × List OccurrenceException :=
  match exceptionAt s.2 occurrence with
  | none => (s.1 ++ [shaped input occurrence none], s.2)
  | some exception =>
    let exceptions := s.2.eraseP fun known => known.occurrence = occurrence
    if exception.cancelled then (s.1, exceptions)
    else
      let entry := shaped input occurrence (some exception)
      if within entry.startsAt input then (s.1 ++ [entry], exceptions) else (s.1, exceptions)

/-- One turn of the loop over the exceptions that are left. -/
def addMoved (input : SeriesWindowInput) (found : List SeriesOccurrence)
    (exception : OccurrenceException) : List SeriesOccurrence :=
  match exception.startsAt with
  | none => found
  | some startsAt =>
    if exception.cancelled ∨ exception.occurrence < input.startsAt then found
    else if ¬within startsAt input ∨ found.length ≥ kMaxSeriesOccurrences then found
    else found ++ [shaped input exception.occurrence (some exception)]

/-- `occurrencesWithin` -/
def occurrencesWithin (parse : Bytes → Option (Value Scalar)) (zone : ℤ)
    (input : SeriesWindowInput) : List SeriesOccurrence :=
  if input.from > input.to then []
  else
    match input.rule.bind parseRecurrenceRule with
    | none =>
      if within input.startsAt input then
        [{ occurrence := input.startsAt, startsAt := input.startsAt, endsAt := input.endsAt }]
      else []
    | some rule =>
      let placed := (startsWithin zone rule input).foldl (place input)
        ([], parseOccurrenceExceptions parse input.exceptions)
      -- entries that start at the same time may come in any order
      (placed.2.foldl (addMoved input) placed.1).mergeSort fun a b => a.startsAt ≤ b.startsAt

/-- The occurrences that take place in the window. -/
def listed (input : SeriesWindowInput) (exceptions : List OccurrenceException) (series : Set ℤ) :
    Set ℤ :=
  {t | t ∈ series ∧ ∃ startsAt, takesPlace exceptions t = some startsAt ∧ within startsAt input}

/-- The entry of an occurrence, if it takes place in the window. -/
def entryOf (input : SeriesWindowInput) (exceptions : List OccurrenceException) (t : ℤ) :
    Option SeriesOccurrence :=
  (takesPlace exceptions t).bind fun startsAt =>
    if within startsAt input then some (shaped input t (exceptionAt exceptions t)) else none

section Starts

variable {zone t : ℤ} {rule : RecurrenceRule} {input : SeriesWindowInput} {T : Timeline ℤ}

lemma startsFrom_eq (hT : Unfolds zone rule input.startsAt T) (room k : ℕ) :
    startsFrom zone rule input room (some (T.nth k)) = T.upTo input.to room k := by
  induction room generalizing k with
  | zero => rfl
  | succ room ih => rw [startsFrom, Timeline.upTo, hT.next, Timeline.next_nth, ih]

lemma Unfolds.startsAt_le (hT : Unfolds zone rule input.startsAt T) (ht : t ∈ T.moments) :
    input.startsAt ≤ t := by
  obtain ⟨k, rfl⟩ := ht
  exact hT.anchor_le.trans (T.strictMono.monotone (Nat.zero_le k))

/-- The loop begins at the first occurrence that the window may have. -/
lemma starts_at (hT : Unfolds zone rule input.startsAt T) :
    ∃ k : ℕ, (if input.startsAt ≥ input.from then occurrenceAt zone rule input.startsAt 0
        else firstOccurrenceAfter zone rule input.startsAt (input.from - 1)) = some (T.nth k) ∧
      ∀ t ∈ T.moments, T.nth k ≤ t ↔ input.from ≤ t := by
  split_ifs with hinside
  · refine ⟨0, hT.occurrence 0, fun t ht => iff_of_true ?_ (hinside.trans (hT.startsAt_le ht))⟩
    obtain ⟨k, rfl⟩ := ht
    exact T.strictMono.monotone (Nat.zero_le k)
  · obtain ⟨k, hk⟩ := Timeline.next_mem (T := T) (input.from - 1)
    refine ⟨k, by rw [hT.next, hk], fun t ht => ?_⟩
    have hlt := Timeline.lt_next (T := T) (input.from - 1)
    rw [hk]
    exact ⟨fun hle => by omega, fun hle => Timeline.next_le ht (by omega)⟩

/-- The loop goes through the occurrences in the window. -/
lemma startsWithin_spec (hT : Unfolds zone rule input.startsAt T)
    (hfew : {t | t ∈ T.moments ∧ within t input}.encard < kMaxSeriesOccurrences) :
    (∀ t, t ∈ startsWithin zone rule input ↔ t ∈ T.moments ∧ within t input) ∧
      (startsWithin zone rule input).Nodup := by
  unfold startsWithin
  by_cases hover : input.startsAt > input.to
  · rw [if_pos hover]
    refine ⟨fun t => iff_of_false List.not_mem_nil ?_, List.nodup_nil⟩
    rintro ⟨ht, -, hto⟩
    exact absurd (hT.startsAt_le ht) (by omega)
  · rw [if_neg hover]
    obtain ⟨k, hk, hfrom⟩ := starts_at hT
    have hwindow (t : ℤ) : t ∈ T.moments ∧ T.nth k ≤ t ∧ t ≤ input.to ↔
        t ∈ T.moments ∧ within t input := by
      refine and_congr_right fun ht => ?_
      rw [hfrom t ht, within]
    rw [hk, startsFrom_eq hT]
    refine ⟨fun t => ?_, Timeline.pairwise_upTo.imp fun hlt => hlt.ne⟩
    rw [Timeline.mem_upTo_of_few (by simpa only [hwindow] using hfew), hwindow]

end Starts

section Found

variable {t u startsAt : ℤ} {input : SeriesWindowInput} {e : OccurrenceException}
  {exceptions rest : List OccurrenceException} {entry : SeriesOccurrence}
  {found : List SeriesOccurrence} {starts : List ℤ}

lemma exceptionAt_without (h : u ≠ t) :
    exceptionAt (without exceptions t) u = exceptionAt exceptions u := by
  unfold exceptionAt without
  rw [List.find?_filter]
  congr 1
  funext known
  by_cases hknown : known.occurrence = u
  · simp [hknown, h]
  · simp [hknown]

lemma entryOf_without (h : u ≠ t) :
    entryOf input (without exceptions t) u = entryOf input exceptions u := by
  unfold entryOf takesPlace
  rw [exceptionAt_without h]

/-- What was found about an occurrence is erased. -/
lemma eraseP_eq_without (h : Normal exceptions) :
    exceptions.eraseP (fun known => known.occurrence = t) = without exceptions t := by
  induction exceptions with
  | nil => rfl
  | cons e exceptions ih =>
    obtain ⟨hnew, h⟩ := List.nodup_cons.1 h
    unfold without
    by_cases he : e.occurrence = t
    · rw [List.eraseP_cons_of_pos (by simpa using he), List.filter_cons_of_neg (by simpa using he),
        List.filter_eq_self.2]
      intro known hmem
      have hother : known.occurrence ≠ t := fun hsame =>
        hnew (List.mem_map.2 ⟨known, hmem, hsame.trans he.symm⟩)
      simpa using hother
    · rw [List.eraseP_cons_of_neg (by simpa using he), List.filter_cons_of_pos (by simpa using he),
        ih h, without]

lemma without_eq_self (h : exceptionAt exceptions t = none) :
    without exceptions t = exceptions := by
  refine List.filter_eq_self.2 fun known hmem => ?_
  simpa using List.find?_eq_none.1 h known hmem

lemma place_eq (hnormal : Normal exceptions) (ht : within t input) :
    place input (found, exceptions) t =
      (found ++ (entryOf input exceptions t).toList, without exceptions t) := by
  unfold place entryOf takesPlace
  dsimp only
  cases he : exceptionAt exceptions t with
  | none =>
    dsimp only
    rw [Option.bind_some, if_pos ht, without_eq_self he]
    rfl
  | some e =>
    dsimp only
    rw [eraseP_eq_without hnormal]
    split_ifs with hcancelled hin
    · simp
    · have hstarts : within (e.startsAt.getD t) input := hin
      simp [hstarts]
    · have hstarts : ¬within (e.startsAt.getD t) input := hin
      simp [hstarts]

/-- **What the first loop finds**, and the exceptions that it leaves. -/
lemma place_all (hnormal : Normal exceptions) (hnodup : starts.Nodup)
    (hwithin : ∀ t ∈ starts, within t input) :
    starts.foldl (place input) (found, exceptions) =
      (found ++ starts.filterMap (entryOf input exceptions),
        exceptions.filter fun e => e.occurrence ∉ starts) := by
  induction starts generalizing found exceptions with
  | nil => simp
  | cons t starts ih =>
    obtain ⟨hnew, hnodup⟩ := List.nodup_cons.1 hnodup
    have hsame : starts.filterMap (entryOf input (without exceptions t)) =
        starts.filterMap (entryOf input exceptions) := by
      refine List.filterMap_congr fun u hu => entryOf_without ?_
      rintro rfl
      exact hnew hu
    rw [List.foldl_cons, place_eq hnormal (hwithin t List.mem_cons_self),
      ih (hnormal.without t) hnodup fun u hu => hwithin u (List.mem_cons_of_mem t hu), hsame]
    refine Prod.ext ?_ ?_
    · cases hentry : entryOf input exceptions t <;> simp [hentry]
    · simp only [without, List.filter_filter]
      congr 1
      funext e
      simp [not_or, Bool.and_comm]

/-- An exception that is left belongs to an occurrence outside the window. -/
lemma addMoved_eq (hnormal : Normal exceptions) (hmem : e ∈ exceptions)
    (hstarts : input.startsAt ≤ e.occurrence) (hout : ¬within e.occurrence input)
    (hroom : (found ++ (entryOf input exceptions e.occurrence).toList).length ≤
      kMaxSeriesOccurrences) :
    addMoved input found e = found ++ (entryOf input exceptions e.occurrence).toList := by
  have hfind := (exceptionAt_eq_some hnormal).2 ⟨hmem, rfl⟩
  unfold entryOf takesPlace at hroom ⊢
  unfold addMoved
  rw [hfind] at hroom ⊢
  cases hmoved : e.startsAt with
  | none =>
    by_cases hcancelled : e.cancelled <;> simp [hcancelled, hmoved, hout]
  | some startsAt =>
    by_cases hcancelled : e.cancelled
    · simp [hcancelled]
    · by_cases hin : within startsAt input
      · have hfew : found.length < kMaxSeriesOccurrences := by
          simpa [hcancelled, hmoved, hin] using hroom
        simp [hcancelled, hmoved, hin, hstarts.not_gt, hfew]
      · simp [hcancelled, hmoved, hin]

/-- **What the second loop adds.** -/
lemma addMoved_all (hnormal : Normal exceptions)
    (hrest : ∀ e ∈ rest, e ∈ exceptions ∧ input.startsAt ≤ e.occurrence ∧
      ¬within e.occurrence input)
    (hroom : (found ++ (rest.map OccurrenceException.occurrence).filterMap
      (entryOf input exceptions)).length ≤ kMaxSeriesOccurrences) :
    rest.foldl (addMoved input) found = found ++
      (rest.map OccurrenceException.occurrence).filterMap (entryOf input exceptions) := by
  induction rest generalizing found with
  | nil => simp
  | cons e rest ih =>
    obtain ⟨hmem, hstarts, hout⟩ := hrest e List.mem_cons_self
    have hsplit : found ++ ((e :: rest).map OccurrenceException.occurrence).filterMap
        (entryOf input exceptions) = found ++ (entryOf input exceptions e.occurrence).toList ++
          (rest.map OccurrenceException.occurrence).filterMap (entryOf input exceptions) := by
      cases hentry : entryOf input exceptions e.occurrence <;> simp [hentry]
    rw [hsplit] at hroom ⊢
    have hnow := (List.length_append ▸ Nat.le_add_right _ _ : _ ≤ _).trans hroom
    rw [List.foldl_cons, addMoved_eq hnormal hmem hstarts hout hnow]
    exact ih (fun e he => hrest e (List.mem_cons_of_mem _ he)) hroom

lemma entryOf_eq_some : entryOf input exceptions t = some entry ↔
    ∃ startsAt, takesPlace exceptions t = some startsAt ∧ within startsAt input ∧
      shaped input t (exceptionAt exceptions t) = entry := by
  simp [entryOf, Option.bind_eq_some_iff]

lemma occurrence_of_entryOf (h : entryOf input exceptions t = some entry) :
    entry.occurrence = t := by
  obtain ⟨_, -, -, rfl⟩ := entryOf_eq_some.1 h
  rfl

lemma startsAt_of_entryOf (h : entryOf input exceptions t = some entry) :
    takesPlace exceptions t = some entry.startsAt := by
  obtain ⟨startsAt, hplace, -, rfl⟩ := entryOf_eq_some.1 h
  rw [hplace]
  unfold takesPlace at hplace
  cases he : exceptionAt exceptions t with
  | none =>
    rw [he] at hplace
    exact hplace.symm
  | some e =>
    rw [he] at hplace
    dsimp only at hplace
    split_ifs at hplace
    exact hplace.symm

lemma endsAt_of_entryOf (h : entryOf input exceptions t = some entry) :
    entry.endsAt = ((exceptionAt exceptions t).bind OccurrenceException.endsAt).or
      (input.endsAt.map fun endsAt => entry.startsAt + (endsAt - input.startsAt)) := by
  obtain ⟨_, -, -, rfl⟩ := entryOf_eq_some.1 h
  rfl

lemma mem_listed {series : Set ℤ} : t ∈ listed input exceptions series ↔
    t ∈ series ∧ ∃ entry, entryOf input exceptions t = some entry := by
  simp [listed, entryOf, Option.bind_eq_some_iff]

lemma nodup_entries {candidates : List ℤ} (h : candidates.Nodup) :
    ((candidates.filterMap (entryOf input exceptions)).map SeriesOccurrence.occurrence).Nodup := by
  rw [List.map_filterMap]
  refine h.filterMap fun t u occurrence ht hu => ?_
  obtain ⟨entry, hentry, rfl⟩ := Option.map_eq_some_iff.1 ht
  obtain ⟨other, hother, hsame⟩ := Option.map_eq_some_iff.1 hu
  rw [← occurrence_of_entryOf hentry, ← hsame, occurrence_of_entryOf hother]

end Found

section Window

variable {parse : Bytes → Option (Value Scalar)} {zone : ℤ} {rule : RecurrenceRule} {text : Bytes}
  {input : SeriesWindowInput} {exceptions : List OccurrenceException} {T : Timeline ℤ}

/-- The occurrences that the two loops look at. -/
def candidates (zone : ℤ) (rule : RecurrenceRule) (input : SeriesWindowInput)
    (exceptions : List OccurrenceException) : List ℤ :=
  let starts := startsWithin zone rule input
  starts ++ (exceptions.filter fun e => e.occurrence ∉ starts).map OccurrenceException.occurrence

lemma nodup_candidates (hnormal : Normal exceptions)
    (hnodup : (startsWithin zone rule input).Nodup) :
    (candidates zone rule input exceptions).Nodup := by
  refine List.nodup_append.2 ⟨hnodup, hnormal.sublist (List.filter_sublist.map _), ?_⟩
  rintro t hstarts _ hmem rfl
  obtain ⟨e, he, rfl⟩ := List.mem_map.1 hmem
  exact (of_decide_eq_true (List.mem_filter.1 he).2) hstarts

/-- The loops look at occurrences of the series, and at all that take place in the window. -/
lemma mem_candidates
    (hstarts : ∀ t, t ∈ startsWithin zone rule input ↔ t ∈ T.moments ∧ within t input)
    (hnormal : Normal exceptions) (hreal : ∀ e ∈ exceptions, e.occurrence ∈ T.moments) :
    (∀ t ∈ candidates zone rule input exceptions, t ∈ T.moments) ∧
      ∀ t ∈ listed input exceptions T.moments, t ∈ candidates zone rule input exceptions := by
  constructor
  · intro t ht
    rcases List.mem_append.1 ht with ht | ht
    · exact ((hstarts t).1 ht).1
    · obtain ⟨e, he, rfl⟩ := List.mem_map.1 ht
      exact hreal e (List.mem_filter.1 he).1
  · rintro t ⟨ht, startsAt, hplace, hin⟩
    by_cases hstart : t ∈ startsWithin zone rule input
    · exact List.mem_append_left _ hstart
    · refine List.mem_append_right _ ?_
      cases he : exceptionAt exceptions t with
      | none =>
        -- Without an exception it takes place in its own time.
        rw [takesPlace, he, Option.some.injEq] at hplace
        exact absurd ((hstarts t).2 ⟨ht, hplace ▸ hin⟩) hstart
      | some e =>
        obtain ⟨hmem, rfl⟩ := (exceptionAt_eq_some hnormal).1 he
        exact List.mem_map_of_mem (List.mem_filter.2 ⟨hmem, decide_eq_true hstart⟩)

lemma mem_entries (hnormal : Normal exceptions)
    (hstarts : ∀ t, t ∈ startsWithin zone rule input ↔ t ∈ T.moments ∧ within t input)
    (hreal : ∀ e ∈ exceptions, e.occurrence ∈ T.moments) {t : ℤ} :
    (∃ entry ∈ (candidates zone rule input exceptions).filterMap (entryOf input exceptions),
        entry.occurrence = t) ↔ t ∈ listed input exceptions T.moments := by
  obtain ⟨hsound, hall⟩ := mem_candidates hstarts hnormal hreal
  constructor
  · rintro ⟨entry, hentry, rfl⟩
    obtain ⟨u, hu, hentry⟩ := List.mem_filterMap.1 hentry
    rw [occurrence_of_entryOf hentry]
    exact mem_listed.2 ⟨hsound u hu, entry, hentry⟩
  · intro ht
    obtain ⟨-, entry, hentry⟩ := mem_listed.1 ht
    exact ⟨entry, List.mem_filterMap.2 ⟨t, hall t ht, hentry⟩, occurrence_of_entryOf hentry⟩

/-- There are as many entries as occurrences that they are of. -/
lemma length_entries (hnodup : (candidates zone rule input exceptions).Nodup)
    (hmem : ∀ t, (∃ entry ∈ (candidates zone rule input exceptions).filterMap
      (entryOf input exceptions), entry.occurrence = t) ↔ t ∈ listed input exceptions T.moments) :
    ((candidates zone rule input exceptions).filterMap (entryOf input exceptions)).length =
      (listed input exceptions T.moments).encard := by
  have hset : listed input exceptions T.moments =
      (((candidates zone rule input exceptions).filterMap (entryOf input exceptions)).map
        SeriesOccurrence.occurrence).toFinset := by
    ext t
    rw [← hmem, Finset.mem_coe, List.mem_toFinset, List.mem_map]
  rw [hset, Set.encard_coe_eq_coe_finsetCard, List.toFinset_card_of_nodup (nodup_entries hnodup),
    List.length_map]

lemma occurrencesWithin_eq (hT : Unfolds zone rule input.startsAt T)
    (hrule : input.rule.bind parseRecurrenceRule = some rule) (hwindow : input.from ≤ input.to)
    (hexceptions : parseOccurrenceExceptions parse input.exceptions = exceptions)
    (hreal : ∀ e ∈ exceptions, e.occurrence ∈ T.moments)
    (hstarts : ∀ t, t ∈ startsWithin zone rule input ↔ t ∈ T.moments ∧ within t input)
    (hnodup : (startsWithin zone rule input).Nodup)
    (hroom : ((candidates zone rule input exceptions).filterMap
      (entryOf input exceptions)).length ≤ kMaxSeriesOccurrences) :
    occurrencesWithin parse zone input =
      ((candidates zone rule input exceptions).filterMap (entryOf input exceptions)).mergeSort
        fun a b => a.startsAt ≤ b.startsAt := by
  have hnormal : Normal exceptions := hexceptions ▸ normal_parse parse input.exceptions
  have hrest : ∀ e ∈ exceptions.filter fun e => e.occurrence ∉ startsWithin zone rule input,
      e ∈ exceptions ∧ input.startsAt ≤ e.occurrence ∧ ¬within e.occurrence input := by
    intro e he
    obtain ⟨hmem, hout⟩ := List.mem_filter.1 he
    have hin := hreal e hmem
    exact ⟨hmem, hT.startsAt_le hin, fun h => of_decide_eq_true hout ((hstarts _).2 ⟨hin, h⟩)⟩
  unfold candidates at hroom ⊢
  rw [List.filterMap_append] at hroom ⊢
  rw [occurrencesWithin, if_neg hwindow.not_gt, hrule]
  dsimp only
  rw [hexceptions, place_all hnormal hnodup fun t ht => ((hstarts t).1 ht).2, List.nil_append,
    addMoved_all hnormal hrest hroom]

/-- **The window is listed exactly.** -/
theorem window_exact (hzone : IsOffset zone) (hrule : input.rule = some text)
    (haccepted : parseRecurrenceRule text = some rule) (hanchor : 0 ≤ input.startsAt)
    (hwindow : input.from ≤ input.to)
    (hexceptions : parseOccurrenceExceptions parse input.exceptions = exceptions)
    (hreal : ∀ e ∈ exceptions, e.occurrence ∈ series zone rule input.startsAt)
    (hfew : {t | t ∈ series zone rule input.startsAt ∧ within t input}.encard <
      kMaxSeriesOccurrences)
    (hresults : (listed input exceptions (series zone rule input.startsAt)).encard <
      kMaxSeriesOccurrences) :
    (occurrencesWithin parse zone input).Pairwise (fun a b => a.startsAt ≤ b.startsAt) ∧
      ((occurrencesWithin parse zone input).map SeriesOccurrence.occurrence).Nodup ∧
      (∀ t, (∃ entry ∈ occurrencesWithin parse zone input, entry.occurrence = t) ↔
        t ∈ listed input exceptions (series zone rule input.startsAt)) ∧
      ∀ entry ∈ occurrencesWithin parse zone input,
        takesPlace exceptions entry.occurrence = some entry.startsAt ∧
        entry.endsAt = ((exceptionAt exceptions entry.occurrence).bind
          OccurrenceException.endsAt).or
            (input.endsAt.map fun endsAt => entry.startsAt + (endsAt - input.startsAt)) := by
  obtain ⟨T, hT⟩ := exists_unfolds (accepted_of_parse haccepted) hzone hanchor
  rw [← hT.moments_eq] at hreal hfew hresults ⊢
  have hnormal : Normal exceptions := hexceptions ▸ normal_parse parse input.exceptions
  obtain ⟨hstarts, hnodup⟩ := startsWithin_spec hT hfew
  have hcandidates := nodup_candidates hnormal hnodup
  have hmem (t : ℤ) := mem_entries hnormal hstarts hreal (t := t)
  have hlength := length_entries hcandidates hmem
  set entries := (candidates zone rule input exceptions).filterMap (entryOf input exceptions)
  have hroom : entries.length ≤ kMaxSeriesOccurrences := by
    rw [← hlength] at hresults
    exact_mod_cast hresults.le
  have hfound := occurrencesWithin_eq hT (by rw [hrule, Option.bind_some, haccepted]) hwindow
    hexceptions hreal hstarts hnodup hroom
  have hperm : (occurrencesWithin parse zone input).Perm entries := by
    rw [hfound]
    exact List.mergeSort_perm _ _
  refine ⟨?_, (hperm.map _).nodup_iff.2 (nodup_entries hcandidates), fun t => ?_, fun entry h => ?_⟩
  · rw [hfound]
    simpa using List.pairwise_mergeSort
      (fun _ _ _ hab hbc => decide_eq_true ((of_decide_eq_true hab).trans (of_decide_eq_true hbc)))
      (fun a b => by simpa using le_total a.startsAt b.startsAt) entries
  · simp only [hperm.mem_iff, hmem]
  · obtain ⟨t, -, hentry⟩ := List.mem_filterMap.1 (hperm.mem_iff.1 h)
    rw [occurrence_of_entryOf hentry]
    exact ⟨startsAt_of_entryOf hentry, endsAt_of_entryOf hentry⟩

/-- The second day of a daily series is moved into the first minutes. -/
theorem window_exact_moved : ∃ entry ∈ occurrencesWithin
      (fun _ => some (.arr [.obj [("occurrence".toList, .scalar (.int 86400)),
        ("startsAt".toList, .scalar (.int 50))]])) 0
      ⟨some (ascii "FREQ=DAILY"), 0, some 60,
        ascii "[\x7b\"occurrence\": 86400, \"startsAt\": 50\x7d]", 0, 100⟩,
    entry.occurrence = 86400 := by
  have hparse : parseOccurrenceExceptions (fun _ => some (.arr [.obj
        [("occurrence".toList, .scalar (.int 86400)), ("startsAt".toList, .scalar (.int 50))]]))
      (ascii "[\x7b\"occurrence\": 86400, \"startsAt\": 50\x7d]") =
        [⟨86400, false, some 50, none, none, none⟩] := by
    rw [parseOccurrenceExceptions, if_neg (by decide)]
    exact List.mergeSort_singleton _
  have hreal : (86400 : ℤ) ∈ series 0 {} 0 := ⟨1, by decide⟩
  -- Nothing else can take place in so short a window.
  have hcard {s : Set ℤ} (h : s ⊆ (insert 86400 (Finset.Icc 0 100) : Finset ℤ)) :
      s.encard < kMaxSeriesOccurrences := by
    refine (Set.encard_le_encard h).trans_lt ?_
    rw [Set.encard_coe_eq_coe_finsetCard]
    exact_mod_cast show (insert 86400 (Finset.Icc 0 100) : Finset ℤ).card < 512 by decide
  let input : SeriesWindowInput := ⟨some (ascii "FREQ=DAILY"), 0, some 60,
    ascii "[\x7b\"occurrence\": 86400, \"startsAt\": 50\x7d]", 0, 100⟩
  obtain ⟨-, -, hmem, -⟩ := window_exact
    (show IsOffset 0 from ⟨by decide, by decide⟩) (show input.rule = _ from rfl) parse_daily le_rfl
    (by decide) hparse
    (by simpa using hreal)
    (hcard fun t ht => by
      obtain ⟨-, hfrom, hto⟩ := ht
      exact Finset.mem_insert_of_mem (Finset.mem_Icc.2 ⟨hfrom, hto⟩))
    (hcard fun t ht => by
      obtain ⟨-, startsAt, hplace, hfrom, hto⟩ := ht
      by_cases hmoved : t = 86400
      · exact Finset.mem_insert.2 (.inl hmoved)
      · have hown : exceptionAt [⟨86400, false, some 50, none, none, none⟩] t = none := by
          simpa [exceptionAt] using Ne.symm hmoved
        rw [takesPlace, hown, Option.some.injEq] at hplace
        exact Finset.mem_insert_of_mem (Finset.mem_Icc.2 ⟨hplace ▸ hfrom, hplace ▸ hto⟩))
  exact (hmem 86400).2 ⟨hreal, 50, by decide, by decide⟩

end Window

end Recurrence

end Productivity

end ArgusBackend
