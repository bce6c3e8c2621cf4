import ArgusBackend.Productivity.Search
import ArgusBackend.Text.JsonDiff

/-!
# Exceptions of a series

Single occurrences of a series may be cancelled, moved or renamed.

* `parseOccurrenceExceptions`, `withException` : the list of exceptions, at most one for each
  occurrence (`normal_parse`, `normal_withException`);
* `takesPlace` : when an occurrence takes place, with the exceptions in mind;
* `nextFiring` : the next time that a reminder goes off.  Its loop meets every exception once at
  most (`fireFrom_spec`), so that it comes to an end (`next_firing_sound`).
-/

namespace ArgusBackend

namespace Productivity

open Text.JsonDiff (Name Value)

/-- JSON that is neither null nor nested. -/
inductive Scalar where
  | bool (value : Bool)
  | int (value : ℤ)
  | real (value : ℚ)
  | str (value : Bytes)
  deriving DecidableEq

/-- What is different about one occurrence. -/
structure OccurrenceException where
  occurrence : ℤ
  cancelled : Bool := false
  startsAt : Option ℤ := none
  endsAt : Option ℤ := none
  title : Option Bytes := none
  location : Option Bytes := none
  deriving DecidableEq

/-- The occurrence is as in the series again. -/
def OccurrenceException.restores (e : OccurrenceException) : Bool :=
  !e.cancelled && e.startsAt.isNone && e.endsAt.isNone && e.title.isNone && e.location.isNone

namespace Recurrence

/-! ### The list of exceptions -/

/-- `isInt64` and `asInt64`; a number with a fraction of zero is an integer. -/
def integerOf : Value Scalar → Option ℤ
  | .scalar (.int n) => if -2 ^ 63 ≤ n ∧ n < 2 ^ 63 then some n else none
  | .scalar (.real x) => if x.den = 1 ∧ -2 ^ 63 ≤ x.num ∧ x.num < 2 ^ 63 then some x.num else none
  | _ => none

/-- The text of a value. -/
def textOf : Value Scalar → Option Bytes
  | .scalar (.str text) => some text
  | _ => none

/-- `isBool() && asBool()` -/
def isTrue : Value Scalar → Bool
  | .scalar (.bool value) => value
  | _ => false

/-- The exception of a JSON value. -/
def exceptionOf (item : Value Scalar) : Option OccurrenceException :=
  match item with
  | .obj _ =>
    match integerOf (item.member "occurrence".toList) with
    | none => none
    | some occurrence =>
      if occurrence ≤ 0 then none
      else
        let exception : OccurrenceException :=
          if isTrue (item.member "cancelled".toList) then { occurrence, cancelled := true }
          else
            { occurrence
              startsAt := integerOf (item.member "startsAt".toList)
              endsAt := integerOf (item.member "endsAt".toList)
              title := textOf (item.member "title".toList)
              location := textOf (item.member "location".toList) }
        if exception.restores then none else some exception
  | _ => none

/-- Exceptions in the order of their occurrences. -/
def sortByOccurrence (exceptions : List OccurrenceException) : List OccurrenceException :=
  exceptions.mergeSort fun a b => a.occurrence ≤ b.occurrence

/-- `erase_if`, of what is known about an occurrence. -/
def without (exceptions : List OccurrenceException) (occurrence : ℤ) : List OccurrenceException :=
  exceptions.filter fun known => known.occurrence ≠ occurrence

/-- One turn of the loop over the items. -/
def readItem (exceptions : List OccurrenceException) (item : Value Scalar) :
    List OccurrenceException :=
  match exceptionOf item with
  | none => exceptions
  | some exception => without exceptions exception.occurrence ++ [exception]

/-- `parse` is the reader of JSON; it gives none where that one fails or throws. -/
def parseOccurrenceExceptions (parse : Bytes → Option (Value Scalar)) (text : Bytes) :
    List OccurrenceException :=
  if text = [] then []
  else
    match parse text with
    | some (.arr items) => sortByOccurrence (items.foldl readItem [])
    | _ => []

/-- The exception of an occurrence. -/
def exceptionAt (exceptions : List OccurrenceException) (occurrence : ℤ) :
    Option OccurrenceException :=
  exceptions.find? fun known => known.occurrence = occurrence

/-- An exception takes the place of the one before, or restores the occurrence. -/
def withException (exceptions : List OccurrenceException) (change : OccurrenceException) :
    List OccurrenceException :=
  let others := without exceptions change.occurrence
  sortByOccurrence (if change.restores then others else others ++ [change])

/-- An occurrence has one exception at most. -/
def Normal (exceptions : List OccurrenceException) : Prop :=
  (exceptions.map OccurrenceException.occurrence).Nodup

section Normal

variable {exceptions : List OccurrenceException} {e change : OccurrenceException} {t : ℤ}

lemma normal_sort (h : Normal exceptions) : Normal (sortByOccurrence exceptions) :=
  ((List.mergeSort_perm _ _).map _).nodup_iff.2 h

lemma Normal.without (h : Normal exceptions) (t : ℤ) : Normal (without exceptions t) :=
  h.sublist (List.filter_sublist.map _)

lemma Normal.put (h : Normal exceptions) (e : OccurrenceException) :
    Normal (Recurrence.without exceptions e.occurrence ++ [e]) := by
  unfold Normal
  rw [List.map_append, List.nodup_append]
  refine ⟨h.without _, List.nodup_singleton _, ?_⟩
  rintro _ hmem _ hself rfl
  obtain ⟨known, hknown, rfl⟩ := List.mem_map.1 hmem
  exact (of_decide_eq_true (List.mem_filter.1 hknown).2) (List.mem_singleton.1 hself)

lemma Normal.readItem (h : Normal exceptions) (item : Value Scalar) :
    Normal (readItem exceptions item) := by
  unfold Recurrence.readItem
  cases exceptionOf item with
  | none => exact h
  | some e => exact h.put e

theorem normal_parse (parse : Bytes → Option (Value Scalar)) (text : Bytes) :
    Normal (parseOccurrenceExceptions parse text) := by
  have hloop (items : List (Value Scalar)) : Normal (items.foldl readItem []) :=
    List.foldlRecOn items readItem List.nodup_nil fun _ h item _ => Normal.readItem h item
  unfold parseOccurrenceExceptions
  split_ifs
  · exact List.nodup_nil
  · split
    · exact normal_sort (hloop _)
    · exact List.nodup_nil

theorem normal_withException (h : Normal exceptions) (change : OccurrenceException) :
    Normal (withException exceptions change) := by
  unfold withException
  dsimp only
  split_ifs
  · exact normal_sort (h.without _)
  · exact normal_sort (h.put change)

lemma exceptionAt_eq_some (h : Normal exceptions) :
    exceptionAt exceptions t = some e ↔ e ∈ exceptions ∧ e.occurrence = t := by
  constructor
  · intro hfind
    exact ⟨List.mem_of_find?_eq_some hfind, by simpa using List.find?_some hfind⟩
  · rintro ⟨hmem, rfl⟩
    obtain ⟨known, hknown⟩ : ∃ known, exceptionAt exceptions e.occurrence = some known := by
      refine Option.isSome_iff_exists.1 (List.find?_isSome.2 ⟨e, hmem, ?_⟩)
      exact decide_eq_true rfl
    have hsame : known.occurrence = e.occurrence := by simpa using List.find?_some hknown
    rw [hknown, List.inj_on_of_nodup_map h (List.mem_of_find?_eq_some hknown) hmem hsame]

end Normal

/-! ### The next firing -/

/-- The next reminder: of which occurrence, and when. -/
structure NextFiring where
  occurrence : ℤ
  «at» : ℤ
  deriving DecidableEq

/-- One turn of the loop that looks for occurrences that were put off. -/
def putOff (after moment : ℤ) (behind : Option NextFiring) (exception : OccurrenceException) :
    Option NextFiring :=
  match exception.startsAt with
  | none => behind
  | some startsAt =>
    if exception.cancelled then behind
    else if exception.occurrence ≤ after ∨ exception.occurrence > moment then behind
    else if startsAt ≤ moment then behind
    else
      match behind with
      | none => some ⟨exception.occurrence, startsAt⟩
      | some best => if startsAt < best.at then some ⟨exception.occurrence, startsAt⟩ else behind

/-- The loop over the occurrences, with the steps that are left. -/
def fireFrom (zone : ℤ) (rule : RecurrenceRule) (anchor moment : ℤ)
    (exceptions : List OccurrenceException) : ℕ → ℤ → Option NextFiring
  | 0, _ => none
  | steps + 1, cursor =>
    (firstOccurrenceAfter zone rule anchor cursor).bind fun next =>
      match exceptionAt exceptions next with
      | none => some ⟨next, next⟩
      | some exception =>
        if exception.cancelled then fireFrom zone rule anchor moment exceptions steps next
        else
          match exception.startsAt with
          | none => some ⟨next, next⟩
          | some startsAt =>
            if startsAt > moment then some ⟨next, startsAt⟩
            else fireFrom zone rule anchor moment exceptions steps next

/-- `nextFiring` -/
def nextFiring (zone : ℤ) (rule : RecurrenceRule) (anchor after moment : ℤ)
    (exceptions : List OccurrenceException) : Option NextFiring :=
  match exceptions.foldl (putOff after moment) none with
  | some behind => some behind
  | none => fireFrom zone rule anchor moment exceptions (exceptions.length + 1) (max after moment)

/-- When an occurrence takes place, unless it is cancelled. -/
def takesPlace (exceptions : List OccurrenceException) (occurrence : ℤ) : Option ℤ :=
  match exceptionAt exceptions occurrence with
  | none => some occurrence
  | some e => if e.cancelled then none else some (e.startsAt.getD occurrence)

section Firing

variable {zone anchor after moment cursor : ℤ} {rule : RecurrenceRule} {text : Bytes}
  {exceptions : List OccurrenceException} {e : OccurrenceException} {T : Timeline ℤ}
  {behind : Option NextFiring} {steps : ℕ}

/-- What was put off is an exception of an occurrence that is still to come. -/
def PutOff (after moment : ℤ) (exceptions : List OccurrenceException) (firing : NextFiring) :
    Prop :=
  ∃ e ∈ exceptions, e.occurrence = firing.occurrence ∧ e.cancelled = false ∧
    e.startsAt = some firing.at ∧ after < firing.occurrence ∧ moment < firing.at

lemma putOff_spec (hmem : e ∈ exceptions)
    (hbehind : ∀ firing ∈ behind, PutOff after moment exceptions firing) :
    ∀ firing ∈ putOff after moment behind e, PutOff after moment exceptions firing := by
  intro firing hfiring
  unfold putOff at hfiring
  cases hstarts : e.startsAt with
  | none =>
    rw [hstarts] at hfiring
    exact hbehind firing hfiring
  | some startsAt =>
    rw [hstarts] at hfiring
    dsimp only at hfiring
    split_ifs at hfiring with hcancelled hrange hover
    · exact hbehind firing hfiring
    · exact hbehind firing hfiring
    · exact hbehind firing hfiring
    · have hnew : PutOff after moment exceptions ⟨e.occurrence, startsAt⟩ :=
        ⟨e, hmem, rfl, by simpa using hcancelled, hstarts, by dsimp only; omega,
          by dsimp only; omega⟩
      cases behind with
      | none => exact Option.some.inj hfiring ▸ hnew
      | some best =>
        dsimp only at hfiring
        split_ifs at hfiring
        · exact Option.some.inj hfiring ▸ hnew
        · exact hbehind firing hfiring

lemma takesPlace_of_mem (hnormal : Normal exceptions) (hmem : e ∈ exceptions) :
    takesPlace exceptions e.occurrence =
      if e.cancelled then none else some (e.startsAt.getD e.occurrence) := by
  rw [takesPlace, (exceptionAt_eq_some hnormal).2 ⟨hmem, rfl⟩]

/-- **The loop meets every exception once at most**, so that it ends when it has more steps than
there are exceptions ahead. -/
theorem fireFrom_spec (hT : Unfolds zone rule anchor T) (hmoment : moment ≤ cursor)
    (hsteps : Timeline.ahead (exceptions.map OccurrenceException.occurrence) cursor < steps) :
    ∃ firing, fireFrom zone rule anchor moment exceptions steps cursor = some firing ∧
      firing.occurrence ∈ T.moments ∧ cursor < firing.occurrence ∧
      takesPlace exceptions firing.occurrence = some firing.at ∧ moment < firing.at := by
  induction steps generalizing cursor with
  | zero => exact absurd hsteps (Nat.not_lt_zero _)
  | succ steps ih =>
    have hlt := Timeline.lt_next (T := T) cursor
    have hlater := hmoment.trans_lt hlt
    have hmem := Timeline.next_mem (T := T) cursor
    rw [fireFrom, hT.next, Option.bind_some]
    -- An exception that is passed by is not ahead any more.
    have hpass {e : OccurrenceException} (he : exceptionAt exceptions (T.next cursor) = some e) :
        ∃ firing, fireFrom zone rule anchor moment exceptions steps (T.next cursor) =
            some firing ∧ firing.occurrence ∈ T.moments ∧ cursor < firing.occurrence ∧
          takesPlace exceptions firing.occurrence = some firing.at ∧ moment < firing.at := by
      have hlisted : T.next cursor ∈ exceptions.map OccurrenceException.occurrence :=
        List.mem_map.2 ⟨e, List.mem_of_find?_eq_some he, by simpa using List.find?_some he⟩
      have hfewer := Timeline.ahead_next_lt hlisted
      obtain ⟨firing, hfire, hin, hnext, hplace⟩ := ih hlater.le (by omega)
      exact ⟨firing, hfire, hin, hlt.trans hnext, hplace⟩
    cases he : exceptionAt exceptions (T.next cursor) with
    | none => exact ⟨_, rfl, hmem, hlt, by simp [takesPlace, he], hlater⟩
    | some e =>
      dsimp only
      split_ifs with hcancelled
      · exact hpass he
      · cases hstarts : e.startsAt with
        | none => exact ⟨_, rfl, hmem, hlt, by simp [takesPlace, he, hcancelled, hstarts], hlater⟩
        | some startsAt =>
          dsimp only
          split_ifs with hahead
          · exact ⟨_, rfl, hmem, hlt, by simp [takesPlace, he, hcancelled, hstarts], hahead⟩
          · exact hpass he

/-- **The next firing is sound, and there always is one.** -/
theorem next_firing_sound (hzone : IsOffset zone) (hrule : parseRecurrenceRule text = some rule)
    (hanchor : 0 ≤ anchor) (after moment : ℤ) (hnormal : Normal exceptions) :
    (fireFrom zone rule anchor moment exceptions (exceptions.length + 1)
      (max after moment)).isSome ∧
    ∃ firing, nextFiring zone rule anchor after moment exceptions = some firing ∧
      (firing.occurrence ∈ series zone rule anchor ∨
        ∃ e ∈ exceptions, e.occurrence = firing.occurrence) ∧
      after < firing.occurrence ∧ takesPlace exceptions firing.occurrence = some firing.at ∧
      moment < firing.at := by
  obtain ⟨T, hT⟩ := exists_unfolds (accepted_of_parse hrule) hzone hanchor
  have hsteps := Timeline.ahead_le (exceptions.map OccurrenceException.occurrence)
    (max after moment)
  rw [List.length_map] at hsteps
  obtain ⟨firing, hfire, hin, hnext, hplace, hlater⟩ :=
    fireFrom_spec hT (le_max_right after moment) (Nat.lt_succ_of_le hsteps)
  refine ⟨Option.isSome_iff_exists.2 ⟨firing, hfire⟩, ?_⟩
  have hbehind : ∀ firing ∈ exceptions.foldl (putOff after moment) none,
      PutOff after moment exceptions firing :=
    List.foldlRecOn (motive := fun behind =>
        ∀ firing ∈ behind, PutOff after moment exceptions firing)
      exceptions (putOff after moment) nofun fun _ h _ hmem => putOff_spec hmem h
  unfold nextFiring
  cases hfold : exceptions.foldl (putOff after moment) none with
  | none =>
    refine ⟨firing, hfire, .inl (hT.moments_eq ▸ hin), ?_, hplace, hlater⟩
    exact (le_max_left after moment).trans_lt hnext
  | some behind =>
    obtain ⟨e, hmem, heq, hcancelled, hstarts, hafter, hlater⟩ := hbehind behind hfold
    refine ⟨behind, rfl, .inr ⟨e, hmem, heq⟩, hafter, ?_, hlater⟩
    rw [← heq, takesPlace_of_mem hnormal hmem, hcancelled, hstarts]
    rfl

/-- The second day is cancelled and the third one was early, so that the fourth one is next. -/
theorem next_firing_sound_fourth : ∃ firing,
    nextFiring 0 {} 0 0 0 [⟨86400, true, none, none, none, none⟩,
      ⟨172800, false, some 0, none, none, none⟩] = some firing ∧ 0 < firing.occurrence := by
  have hnormal : Normal [⟨86400, true, none, none, none, none⟩,
      ⟨172800, false, some 0, none, none, none⟩] := by
    unfold Normal
    decide
  obtain ⟨-, firing, hfire, -, hafter, -⟩ := next_firing_sound
    (show IsOffset 0 from ⟨by decide, by decide⟩) parse_daily le_rfl 0 0 hnormal
  exact ⟨firing, hfire, hafter⟩

end Firing

end Recurrence

end Productivity

end ArgusBackend
