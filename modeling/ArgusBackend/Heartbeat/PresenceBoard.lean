import ArgusBackend.Library.Table
import Mathlib.Data.List.Nodup
import Mathlib.Data.List.Sort

/-!
# The presence board

The board holds the presence of the users, as the live updates and the refills from the directory
tell it.  Every live update gets a number; a refill takes the last one before it reads the directory
and leaves alone what was updated since.

* `apply`, `mark`, `fill` : the code;
* `lookup_apply`, `lookup_fill` : what becomes of the slot of a user;
* `apply_changed`, `mem_fill`, `sorted_fill` : what the callers are told.
-/

namespace ArgusBackend

namespace Heartbeat

/-- The presence of a user. -/
structure PresenceEntry where
  userId : ℤ := 0
  overall : String := ""
  since : ℤ := 0
  deriving DecidableEq, Repr

/-- A presence that is not known becomes `unknown`. -/
def normalizePresence (presence : String) : String :=
  if presence = "home" ∨ presence = "away" then presence else "unknown"

/-- The entry as the board keeps it. -/
def normalizedOf (entry : PresenceEntry) : PresenceEntry :=
  { entry with overall := normalizePresence entry.overall }

/-- Two entries say the same. -/
def sameState (left right : PresenceEntry) : Bool :=
  left.overall = right.overall && left.since = right.since

/-- An entry and the number of its update. -/
structure Slot where
  entry : PresenceEntry
  appliedSeq : ℕ := 0
  deriving DecidableEq, Repr

/-- The entries by user, and how many updates there were. -/
structure PresenceBoard where
  entries_ : Table ℤ Slot := ∅
  sequence_ : ℕ := 0

namespace PresenceBoard

/-- `apply`, and whether anything changed. -/
def apply (board : PresenceBoard) (entry : PresenceEntry) : Bool × PresenceBoard :=
  if entry.userId ≤ 0 then (false, board)
  else
    let normalized := normalizedOf entry
    let seq := board.sequence_ + 1
    let applied : PresenceBoard :=
      ⟨board.entries_.insert entry.userId { entry := normalized, appliedSeq := seq }, seq⟩
    match board.entries_.lookup entry.userId with
    | none => (true, applied)
    | some found =>
      if sameState found.entry normalized then
        (false, ⟨board.entries_.insert entry.userId { found with appliedSeq := seq }, seq⟩)
      else (true, applied)

/-- `mark`: what a fill later compares with. -/
def mark (board : PresenceBoard) : ℕ := board.sequence_

/-- The slot that one turn of the loop over the list writes, if any. -/
def fillOne (readMark : ℕ) (entries_ : Table ℤ Slot) (entry : PresenceEntry) : Option Slot :=
  if entry.userId ≤ 0 then none
  else
    match entries_.lookup entry.userId with
    | none => some { entry := normalizedOf entry, appliedSeq := 0 }
    | some found =>
      -- a live update is newer than the list
      if found.appliedSeq > readMark || sameState found.entry (normalizedOf entry) then none
      else some { found with entry := normalizedOf entry }

/-- The loop over the list, with the users it changes. -/
def fillListed (readMark : ℕ) : List PresenceEntry → Table ℤ Slot → Table ℤ Slot × List ℤ
  | [], entries_ => (entries_, [])
  | entry :: rest, entries_ =>
    match fillOne readMark entries_ entry with
    | none => fillListed readMark rest entries_
    | some slot =>
      let filled := fillListed readMark rest (entries_.insert entry.userId slot)
      (filled.1, entry.userId :: filled.2)

/-- The users of a list. -/
def listed (entries : List PresenceEntry) : List ℤ :=
  (entries.map PresenceEntry.userId).filter fun userId => 0 < userId

/-- The users that the list leaves out, unless a live update came since. -/
def unlisted (readMark : ℕ) (entries : List PresenceEntry) (entries_ : Table ℤ Slot) : List ℤ :=
  (entries_.entries.filter fun item =>
    item.1 ∉ listed entries ∧ ¬item.2.appliedSeq > readMark).map Sigma.fst

/-- `fill`, and the users for whom anything changed. -/
def fill (board : PresenceBoard) (entries : List PresenceEntry) (readMark : ℕ) :
    List ℤ × PresenceBoard :=
  let filled := fillListed readMark entries board.entries_
  let erased := unlisted readMark entries filled.1
  ((filled.2 ++ erased).mergeSort,
    { board with entries_ := erased.foldl (fun entries_ userId => entries_.erase userId) filled.1 })

/-- The entry of a user. -/
def shown (board : PresenceBoard) (u : ℤ) : Option PresenceEntry :=
  (board.entries_.lookup u).map Slot.entry

/-- What a refill makes of the slot of a user, who stands in its list or not. -/
def refilled (readMark : ℕ) : Option Slot → Option PresenceEntry → Option Slot
  | none, none => none
  | none, some entry => some { entry := normalizedOf entry, appliedSeq := 0 }
  | some slot, none => if readMark < slot.appliedSeq then some slot else none
  | some slot, some entry =>
    if readMark < slot.appliedSeq then some slot else some { slot with entry := normalizedOf entry }

/-- The entry of a user in a list. -/
def listedAs (entries : List PresenceEntry) (u : ℤ) : Option PresenceEntry :=
  entries.find? fun entry => 0 < entry.userId ∧ entry.userId = u

/-- The slots stand under their users. -/
def Keyed (entries_ : Table ℤ Slot) : Prop :=
  ∀ u slot, entries_.lookup u = some slot → slot.entry.userId = u ∧ 0 < u

variable {board : PresenceBoard} {entries_ : Table ℤ Slot} {entries : List PresenceEntry}
  {entry : PresenceEntry} {slot : Slot} {readMark : ℕ} {u : ℤ}

theorem eq_of_sameState {left right : PresenceEntry} (h : sameState left right = true)
    (hid : left.userId = right.userId) : left = right := by
  obtain ⟨leftId, leftOverall, leftSince⟩ := left
  obtain ⟨rightId, rightOverall, rightSince⟩ := right
  simp only [sameState, Bool.and_eq_true, decide_eq_true_eq] at h
  obtain ⟨rfl, rfl⟩ := h
  exact congrArg (fun id => PresenceEntry.mk id leftOverall leftSince) hid

theorem sameState_self (entry : PresenceEntry) : sameState entry entry = true := by
  simp [sameState]

theorem Keyed.insert (hkeyed : Keyed entries_) (hid : slot.entry.userId = u) (hpos : 0 < u) :
    Keyed (entries_.insert u slot) := by
  intro u' slot' hslot
  by_cases hu : u' = u
  · subst hu
    rw [AList.lookup_insert, Option.some.injEq] at hslot
    exact hslot ▸ ⟨hid, hpos⟩
  · rw [AList.lookup_insert_ne hu] at hslot
    exact hkeyed u' slot' hslot

/-! ### Live updates -/

theorem apply_nonpos (h : entry.userId ≤ 0) : board.apply entry = (false, board) := if_pos h

theorem lookup_apply (hkeyed : Keyed board.entries_) (hpos : 0 < entry.userId) :
    (board.apply entry).2.entries_.lookup u =
      if u = entry.userId then some ⟨normalizedOf entry, board.sequence_ + 1⟩
      else board.entries_.lookup u := by
  rw [apply, if_neg (not_le.2 hpos)]
  cases hfound : board.entries_.lookup entry.userId with
  | none =>
    split_ifs with hu
    · rw [hu]
      exact AList.lookup_insert _
    · exact AList.lookup_insert_ne hu
  | some found =>
    dsimp only
    by_cases hsame : sameState found.entry (normalizedOf entry) = true
    · have heq := eq_of_sameState hsame (hkeyed _ _ hfound).1
      rw [if_pos hsame]
      split_ifs with hu
      · rw [hu, ← heq]
        exact AList.lookup_insert _
      · exact AList.lookup_insert_ne hu
    · rw [if_neg hsame]
      split_ifs with hu
      · rw [hu]
        exact AList.lookup_insert _
      · exact AList.lookup_insert_ne hu

theorem sequence_apply (hpos : 0 < entry.userId) :
    (board.apply entry).2.sequence_ = board.sequence_ + 1 := by
  rw [apply, if_neg (not_le.2 hpos)]
  cases board.entries_.lookup entry.userId with
  | none => rfl
  | some found =>
    dsimp only
    split_ifs <;> rfl

/-- The caller is told whether the entry changed. -/
theorem apply_changed (hkeyed : Keyed board.entries_) :
    (board.apply entry).1 = true ↔
      (board.apply entry).2.shown entry.userId ≠ board.shown entry.userId := by
  by_cases hpos : 0 < entry.userId
  · rw [shown, shown, lookup_apply hkeyed hpos, if_pos rfl, apply, if_neg (not_le.2 hpos)]
    cases hfound : board.entries_.lookup entry.userId with
    | none => simp
    | some found =>
      dsimp only
      by_cases hsame : sameState found.entry (normalizedOf entry) = true
      · have heq := eq_of_sameState hsame (hkeyed _ _ hfound).1
        rw [if_pos hsame]
        simp [heq]
      · have hne : normalizedOf entry ≠ found.entry := fun heq =>
          hsame (heq ▸ sameState_self _)
        rw [if_neg hsame]
        simpa using hne
  · rw [apply_nonpos (not_lt.1 hpos)]
    simp

/-! ### Refills -/

theorem listedAs_cons : listedAs (entry :: entries) u =
    if 0 < entry.userId ∧ entry.userId = u then some entry else listedAs entries u := by
  rw [listedAs, List.find?_cons]
  split_ifs with h
  · rw [decide_eq_true h]
  · rw [decide_eq_false h]
    rfl

theorem listedAs_eq_none : listedAs entries u = none ↔ u ∉ listed entries := by
  simp only [listedAs, listed, List.find?_eq_none, List.mem_filter, List.mem_map,
    decide_eq_true_eq, not_and, not_lt]
  constructor
  · rintro h ⟨entry, hentry, rfl⟩
    exact not_lt.1 fun hpos => h entry hentry hpos rfl
  · rintro h entry hentry hpos rfl
    exact absurd hpos (not_lt.2 (h ⟨entry, hentry, rfl⟩))

theorem listedAs_eq_some (hnodup : (entries.map PresenceEntry.userId).Nodup) :
    listedAs entries u = some entry ↔ entry ∈ entries ∧ entry.userId = u ∧ 0 < u := by
  constructor
  · intro h
    rw [listedAs] at h
    have hfound := List.find?_some h
    obtain ⟨hpos, rfl⟩ := of_decide_eq_true hfound
    exact ⟨List.mem_of_find?_eq_some h, rfl, hpos⟩
  · rintro ⟨hentry, rfl, hpos⟩
    cases h : listedAs entries entry.userId with
    | none =>
      rw [listedAs, List.find?_eq_none] at h
      exact absurd (decide_eq_true ⟨hpos, rfl⟩) (h entry hentry)
    | some entry' =>
      rw [listedAs] at h
      have hfound := List.find?_some h
      obtain ⟨-, hid⟩ := of_decide_eq_true hfound
      rw [List.inj_on_of_nodup_map hnodup (List.mem_of_find?_eq_some h) hentry hid]

/-- One turn of the loop writes the slot that the user gets, unless it stands there. -/
theorem fillOne_spec (readMark : ℕ) (hkeyed : Keyed entries_) (hpos : 0 < entry.userId) :
    (fillOne readMark entries_ entry).or (entries_.lookup entry.userId) =
        refilled readMark (entries_.lookup entry.userId) (some entry) ∧
      ((fillOne readMark entries_ entry).isSome = true ↔
        (refilled readMark (entries_.lookup entry.userId) (some entry)).map Slot.entry ≠
          (entries_.lookup entry.userId).map Slot.entry) := by
  rw [fillOne, if_neg (not_le.2 hpos)]
  cases hfound : entries_.lookup entry.userId with
  | none => simp [refilled]
  | some found =>
    by_cases hseq : readMark < found.appliedSeq
    · simp [refilled, hseq]
    · by_cases hsame : sameState found.entry (normalizedOf entry) = true
      · have heq := eq_of_sameState hsame (hkeyed _ _ hfound).1
        simp [refilled, hseq, ← heq, sameState_self]
      · have hne : normalizedOf entry ≠ found.entry := fun heq =>
          hsame (heq ▸ sameState_self _)
        simp [refilled, hseq, hsame, hne]

theorem userId_fillOne (h : fillOne readMark entries_ entry = some slot) :
    slot.entry.userId = entry.userId ∧ 0 < entry.userId := by
  unfold fillOne at h
  split_ifs at h with hpos
  refine ⟨?_, not_le.1 hpos⟩
  split at h
  next => exact Option.some.inj h ▸ rfl
  next found hfound =>
    split_ifs at h
    exact Option.some.inj h ▸ rfl

/-- What the loop leaves, and the users it changes. -/
theorem fillListed_spec (readMark : ℕ) (hkeyed : Keyed entries_)
    (hnodup : (entries.map PresenceEntry.userId).Nodup) (u : ℤ) :
    (fillListed readMark entries entries_).1.lookup u =
        (match listedAs entries u with
        | none => entries_.lookup u
        | some entry => refilled readMark (entries_.lookup u) (some entry)) ∧
      (u ∈ (fillListed readMark entries entries_).2 ↔
        ((fillListed readMark entries entries_).1.lookup u).map Slot.entry ≠
          (entries_.lookup u).map Slot.entry) := by
  induction entries generalizing entries_ with
  | nil => simp [fillListed, listedAs]
  | cons entry rest ih =>
    rw [List.map_cons, List.nodup_cons] at hnodup
    obtain ⟨hnot, hnodup⟩ := hnodup
    have hrest : listedAs rest entry.userId = none := by
      rw [listedAs_eq_none]
      exact fun hmem => hnot (List.mem_filter.1 hmem).1
    unfold fillListed
    split
    next hone =>
      obtain ⟨hlookup, hchanged⟩ := ih hkeyed hnodup
      refine ⟨?_, hchanged⟩
      rw [hlookup, listedAs_cons]
      split_ifs with hu
      · obtain ⟨hpos, rfl⟩ := hu
        obtain ⟨hslot, -⟩ := fillOne_spec readMark hkeyed hpos
        rw [hone, Option.none_or] at hslot
        rw [hrest]
        exact hslot
      · rfl
    next slot hone =>
      obtain ⟨hid, hpos⟩ := userId_fillOne hone
      obtain ⟨hlookup, hchanged⟩ := ih (hkeyed.insert hid hpos) hnodup
      obtain ⟨hslot, hsome⟩ := fillOne_spec readMark hkeyed hpos
      rw [hone, Option.some_or] at hslot
      dsimp only
      -- no later turn of the loop is about the same user
      by_cases hu : u = entry.userId
      · subst hu
        rw [hrest] at hlookup
        dsimp only at hlookup
        rw [AList.lookup_insert] at hlookup
        rw [hlookup, listedAs_cons, if_pos ⟨hpos, rfl⟩]
        refine ⟨hslot, iff_of_true List.mem_cons_self ?_⟩
        rw [hslot]
        exact hsome.1 (by rw [hone]; rfl)
      · rw [AList.lookup_insert_ne hu] at hlookup hchanged
        rw [hlookup] at hchanged ⊢
        refine ⟨?_, ?_⟩
        · rw [listedAs_cons, if_neg (fun h => hu h.2.symm)]
        · rw [List.mem_cons, or_iff_right hu]
          exact hchanged

theorem sublist_fillListed (readMark : ℕ) (entries : List PresenceEntry)
    (entries_ : Table ℤ Slot) :
    (fillListed readMark entries entries_).2.Sublist (listed entries) := by
  induction entries generalizing entries_ with
  | nil => exact List.Sublist.refl _
  | cons entry rest ih =>
    rw [listed, List.map_cons, List.filter_cons]
    unfold fillListed
    split
    next =>
      split_ifs
      · exact (ih entries_).cons _
      · exact ih entries_
    next slot hone =>
      rw [if_pos (decide_eq_true (userId_fillOne hone).2)]
      exact (ih _).cons_cons _

theorem mem_unlisted : u ∈ unlisted readMark entries entries_ ↔
    u ∉ listed entries ∧ ∃ slot, entries_.lookup u = some slot ∧ slot.appliedSeq ≤ readMark := by
  simp only [unlisted, List.mem_map, List.mem_filter, decide_eq_true_eq, not_lt, gt_iff_lt]
  constructor
  · rintro ⟨⟨u, slot⟩, ⟨hmem, hnot, hseq⟩, rfl⟩
    exact ⟨hnot, slot, AList.mem_lookup_iff.2 hmem, hseq⟩
  · rintro ⟨hnot, slot, hslot, hseq⟩
    exact ⟨⟨u, slot⟩, ⟨AList.mem_lookup_iff.1 hslot, hnot, hseq⟩, rfl⟩

/-- What a refill makes of the slot of a user. -/
theorem lookup_fill (readMark : ℕ) (hkeyed : Keyed board.entries_)
    (hnodup : (entries.map PresenceEntry.userId).Nodup) (u : ℤ) :
    (board.fill entries readMark).2.entries_.lookup u =
      refilled readMark (board.entries_.lookup u) (listedAs entries u) := by
  obtain ⟨hlookup, -⟩ := fillListed_spec readMark hkeyed hnodup u
  simp only [fill, Table.lookup_foldl_erase, mem_unlisted, hlookup, ← listedAs_eq_none]
  cases hlisted : listedAs entries u with
  | none =>
    dsimp only
    cases board.entries_.lookup u with
    | none => simp [refilled]
    | some slot =>
      by_cases hseq : readMark < slot.appliedSeq
      · simp [refilled, hseq]
      · simp [refilled, hseq, not_lt.1 hseq]
  | some entry => exact if_neg fun h => nomatch h.1

/-- The caller is told the users whose entries changed. -/
theorem mem_fill (hkeyed : Keyed board.entries_)
    (hnodup : (entries.map PresenceEntry.userId).Nodup) (u : ℤ) :
    u ∈ (board.fill entries readMark).1 ↔
      (board.fill entries readMark).2.shown u ≠ board.shown u := by
  obtain ⟨hlookup, hchanged⟩ := fillListed_spec readMark hkeyed hnodup u
  rw [shown, shown, lookup_fill readMark hkeyed hnodup, fill, List.mem_mergeSort, List.mem_append, hchanged,
    mem_unlisted, hlookup, ← listedAs_eq_none]
  cases hlisted : listedAs entries u with
  | none =>
    cases board.entries_.lookup u with
    | none => simp [refilled]
    | some slot =>
      by_cases hseq : readMark < slot.appliedSeq
      · simp [refilled, hseq]
      · simp [refilled, hseq, not_lt.1 hseq]
  | some entry => simp

theorem sorted_fill (board : PresenceBoard) (entries : List PresenceEntry) (readMark : ℕ) :
    (board.fill entries readMark).1.Pairwise (· ≤ ·) := by
  have h := @List.pairwise_mergeSort ℤ (fun a b => decide (a ≤ b))
    (by simpa using fun a b c => le_trans) (by simpa using le_total)
    ((fillListed readMark entries board.entries_).2 ++
      unlisted readMark entries (fillListed readMark entries board.entries_).1)
  simp only [decide_eq_true_eq] at h
  exact h

theorem nodup_fill (hnodup : (entries.map PresenceEntry.userId).Nodup) :
    (board.fill entries readMark).1.Nodup := by
  have hsub := sublist_fillListed readMark entries board.entries_
  rw [fill, (List.mergeSort_perm _ _).nodup_iff, List.nodup_append]
  refine ⟨(hnodup.filter _).sublist hsub, ?_, ?_⟩
  · have hkeys := (fillListed readMark entries board.entries_).1.nodupKeys
    exact List.Nodup.sublist (List.filter_sublist.map _) hkeys
  · rintro u hu u' hu' rfl
    exact (mem_unlisted.1 hu').1 (hsub.subset hu)

theorem refilled_eq_some {before : Option Slot} {e : Option PresenceEntry}
    (h : refilled readMark before e = some slot) :
    (∃ entry, e = some entry ∧ slot.entry = normalizedOf entry ∧
        (before = none ∧ slot.appliedSeq = 0 ∨
          ∃ old, before = some old ∧ old.appliedSeq = slot.appliedSeq ∧
            old.appliedSeq ≤ readMark)) ∨
      (before = some slot ∧ readMark < slot.appliedSeq) := by
  cases before with
  | none =>
    cases e with
    | none => cases h
    | some entry =>
      obtain rfl := Option.some.inj h
      exact .inl ⟨entry, rfl, rfl, .inl ⟨rfl, rfl⟩⟩
  | some old =>
    cases e with
    | none =>
      rw [refilled] at h
      split_ifs at h with hseq
      obtain rfl := Option.some.inj h
      exact .inr ⟨rfl, hseq⟩
    | some entry =>
      rw [refilled] at h
      split_ifs at h with hseq
      · obtain rfl := Option.some.inj h
        exact .inr ⟨rfl, hseq⟩
      · obtain rfl := Option.some.inj h
        exact .inl ⟨entry, rfl, rfl, .inr ⟨old, rfl, rfl, not_lt.1 hseq⟩⟩

/-- A listed user has a slot, with the number it had. -/
theorem refilled_listed (readMark : ℕ) (before : Option Slot) (entry : PresenceEntry) :
    ∃ slot, refilled readMark before (some entry) = some slot ∧
      ∀ old, before = some old → slot.appliedSeq = old.appliedSeq := by
  cases before with
  | none => exact ⟨_, rfl, fun old h => nomatch h⟩
  | some old =>
    rw [refilled]
    split_ifs
    · exact ⟨old, rfl, fun old' h => congrArg Slot.appliedSeq (Option.some.inj h)⟩
    · refine ⟨_, rfl, fun old' h => ?_⟩
      rw [← Option.some.inj h]

theorem Keyed.fill (hkeyed : Keyed board.entries_)
    (hnodup : (entries.map PresenceEntry.userId).Nodup) :
    Keyed (board.fill entries readMark).2.entries_ := by
  intro u slot hslot
  rw [lookup_fill readMark hkeyed hnodup] at hslot
  rcases refilled_eq_some hslot with ⟨entry, hentry, hnormal, -⟩ | ⟨hold, -⟩
  · obtain ⟨-, hid, hpos⟩ := (listedAs_eq_some hnodup).1 hentry
    rw [hnormal]
    exact ⟨hid, hpos⟩
  · exact hkeyed u slot hold

theorem Keyed.apply (hkeyed : Keyed board.entries_) : Keyed (board.apply entry).2.entries_ := by
  by_cases hpos : 0 < entry.userId
  · intro u slot hslot
    rw [lookup_apply hkeyed hpos] at hslot
    split_ifs at hslot with hu
    · rw [← Option.some.inj hslot, hu]
      exact ⟨rfl, hpos⟩
    · exact hkeyed u slot hslot
  · rw [apply_nonpos (not_lt.1 hpos)]
    exact hkeyed

end PresenceBoard

end Heartbeat

end ArgusBackend
