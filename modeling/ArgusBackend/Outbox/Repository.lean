import Mathlib.Data.Int.Notation
import Mathlib.Data.List.Nodup
import Mathlib.Data.List.Pairwise

/-!
# The table of an outbox

`Table` is `change_outbox`: its rows in the order of their rowids, each rowid used once, each msg
id (other than the empty one of a row older than msg ids) held by one row.  The operations are the
statements of `outbox_query` as `OutboxRepository` runs them.

* `Table.insertEvent_isSome` : a row is inserted unless its msg id is taken;
* `Table.findFingerprint_eq` : the fingerprint found for a msg id is that of the row holding it;
* `Table.pending_markSent`, `Table.pending_recordAttempt` : what marking the oldest pending row
  does to the pending ones.
-/

namespace ArgusBackend

namespace Outbox

/-- The states of a row. -/
inductive OutboxStatus where
  | pending
  | sent
  deriving DecidableEq, Repr

/-- What becomes of an event. -/
inductive OutboxDisposition where
  | enqueued
  | replay
  | conflict
  deriving DecidableEq, Repr

/-- The columns of a new row. -/
structure OutboxInsert where
  eventId : String
  subject : String
  fingerprint : String
  payload : String
  createdAt : ℤ
  deriving DecidableEq, Repr

/-- A row of `change_outbox`. -/
structure StoredRow where
  rowid : ℕ
  eventId : String
  subject : String
  fingerprint : String
  payload : String
  status : OutboxStatus
  attempts : ℕ
  createdAt : ℤ
  sentAt : ℤ
  deriving DecidableEq, Repr

/-- A row as `pendingBatch` reads it. -/
structure OutboxRow where
  id : ℕ
  eventId : String
  subject : String
  payload : String
  attempts : ℕ
  deriving DecidableEq, Repr

/-- What the worker reads of a row. -/
def StoredRow.read (r : StoredRow) : OutboxRow where
  id := r.rowid
  eventId := r.eventId
  subject := r.subject
  payload := r.payload
  attempts := r.attempts

/-- `change_outbox`, its rows in the order of their rowids. -/
structure Table where
  rows : List StoredRow
  nextRowid : ℕ
  sorted : rows.Pairwise fun r r' => r.rowid < r'.rowid
  fresh : ∀ r ∈ rows, r.rowid < nextRowid
  unique : rows.Pairwise fun r r' => r.eventId = r'.eventId → r.eventId = ""

namespace Table

/-- No row was ever there. -/
def empty : Table where
  rows := []
  nextRowid := 1
  sorted := List.Pairwise.nil
  fresh := by simp
  unique := List.Pairwise.nil

variable (t : Table)

/-- The row with a rowid, updated; an update changes neither the rowid nor the msg id. -/
def modify (p : StoredRow → Bool) (f : StoredRow → StoredRow)
    (hrowid : ∀ r, (f r).rowid = r.rowid) (hevent : ∀ r, (f r).eventId = r.eventId) : Table where
  rows := t.rows.map fun r => if p r then f r else r
  nextRowid := t.nextRowid
  sorted := by
    refine List.pairwise_map.2 (t.sorted.imp fun {r r'} h => ?_)
    have hid : ∀ r, (if p r then f r else r).rowid = r.rowid := fun r => by
      split_ifs <;> simp [hrowid]
    simpa [hid] using h
  fresh := by
    intro _ hr'
    obtain ⟨r, hr, rfl⟩ := List.mem_map.1 hr'
    have := t.fresh r hr
    split_ifs <;> simpa [hrowid] using this
  unique := by
    refine List.pairwise_map.2 (t.unique.imp fun {r r'} h => ?_)
    have hid : ∀ r, (if p r then f r else r).eventId = r.eventId := fun r => by
      split_ifs <;> simp [hevent]
    simpa [hid] using h

/-- `INSERT_EVENT`; none when the row is ignored because its msg id is taken. -/
def insertEvent (input : OutboxInsert) : Option Table :=
  if h : ∀ r ∈ t.rows, r.eventId = input.eventId → r.eventId = "" then
    some
      { rows := t.rows ++
          [{ rowid := t.nextRowid
             eventId := input.eventId
             subject := input.subject
             fingerprint := input.fingerprint
             payload := input.payload
             status := .pending
             attempts := 0
             createdAt := input.createdAt
             sentAt := 0 }]
        nextRowid := t.nextRowid + 1
        sorted := by
          refine List.pairwise_append.2 ⟨t.sorted, List.pairwise_singleton _ _, ?_⟩
          intro r hr r' hr'
          obtain rfl := List.mem_singleton.1 hr'
          exact t.fresh r hr
        fresh := by
          intro r hr
          rcases List.mem_append.1 hr with hr | hr
          · exact Nat.lt_succ_of_lt (t.fresh r hr)
          · obtain rfl := List.mem_singleton.1 hr
            exact Nat.lt_succ_self _
        unique := by
          refine List.pairwise_append.2 ⟨t.unique, List.pairwise_singleton _ _, ?_⟩
          intro r hr r' hr'
          obtain rfl := List.mem_singleton.1 hr'
          exact h r hr }
  else none

/-- `FIND_FINGERPRINT` -/
def findFingerprint (eventId : String) : Option String :=
  (t.rows.find? fun r => r.eventId = eventId).map (·.fingerprint)

/-- The rows `PENDING_BATCH` selects from, as it reads them. -/
def pending : List OutboxRow :=
  (t.rows.filter fun r => r.status = .pending).map StoredRow.read

/-- `PENDING_BATCH`; a limit of zero or less reads nothing. -/
def pendingBatch (limit : ℤ) : List OutboxRow :=
  if limit ≤ 0 then [] else t.pending.take limit.toNat

/-- Whether a row is the pending row with a rowid. -/
def isPending (id : ℕ) (r : StoredRow) : Bool := r.rowid = id ∧ r.status = .pending

/-- `MARK_SENT`, and whether it changed a row. -/
def markSent (id : ℕ) (now : ℤ) : Bool × Table :=
  (t.rows.any (isPending id),
    t.modify (isPending id)
      (fun r => { r with status := .sent, sentAt := now, attempts := r.attempts + 1 })
      (fun _ => rfl) fun _ => rfl)

/-- `RECORD_ATTEMPT`, and whether it changed a row. -/
def recordAttempt (id : ℕ) : Bool × Table :=
  (t.rows.any (isPending id),
    t.modify (isPending id) (fun r => { r with attempts := r.attempts + 1 })
      (fun _ => rfl) fun _ => rfl)

/-- Whether `PURGE_SENT` deletes a row. -/
def settledBy (olderThanMs : ℤ) (r : StoredRow) : Bool :=
  r.status = .sent ∧ r.sentAt ≤ olderThanMs

/-- `PURGE_SENT`, and the rows it deleted. -/
def purgeSent (olderThanMs : ℤ) : List StoredRow × Table :=
  (t.rows.filter (settledBy olderThanMs),
    { rows := t.rows.filter fun r => !settledBy olderThanMs r
      nextRowid := t.nextRowid
      sorted := t.sorted.filter _
      fresh := fun r hr => t.fresh r (List.mem_of_mem_filter hr)
      unique := t.unique.filter _ })

/-! ### What the statements do -/

variable {t}

theorem insertEvent_isSome {input : OutboxInsert} (hid : input.eventId ≠ "") :
    (t.insertEvent input).isSome ↔ ∀ r ∈ t.rows, r.eventId ≠ input.eventId := by
  simp only [insertEvent]
  split_ifs with h
  · refine ⟨fun _ r hr heq => hid ?_, fun _ => rfl⟩
    rw [← heq]
    exact h r hr heq
  · refine ⟨fun hnone => by simp at hnone, fun hfree => absurd ?_ h⟩
    intro r hr heq
    exact absurd heq (hfree r hr)

/-- What a successful insert leaves. -/
theorem of_insertEvent {input : OutboxInsert} {t' : Table} (h : t.insertEvent input = some t') :
    ∃ r : StoredRow, t'.rows = t.rows ++ [r] ∧ t'.nextRowid = t.nextRowid + 1 ∧
      r.rowid = t.nextRowid ∧ r.status = .pending ∧ r.eventId = input.eventId ∧
      r.subject = input.subject ∧ r.payload = input.payload ∧
      r.fingerprint = input.fingerprint := by
  simp only [insertEvent] at h
  split_ifs at h
  obtain rfl := Option.some.inj h
  exact ⟨_, rfl, rfl, rfl, rfl, rfl, rfl, rfl, rfl⟩

theorem eq_of_eventId {r r' : StoredRow} (hr : r ∈ t.rows) (hr' : r' ∈ t.rows)
    (hevent : r.eventId = r'.eventId) (hne : r.eventId ≠ "") : r = r' := by
  by_contra hne'
  have hunique : t.rows.Pairwise fun r r' => r.eventId = r'.eventId → r.eventId = "" := t.unique
  have hsymm : Std.Symm fun r r' : StoredRow => r.eventId = r'.eventId → r.eventId = "" :=
    ⟨fun r r' h heq => heq ▸ h heq.symm⟩
  exact hne (hunique.forall hr hr' hne' hevent)

theorem findFingerprint_eq {r : StoredRow} (hr : r ∈ t.rows) (hne : r.eventId ≠ "") :
    t.findFingerprint r.eventId = some r.fingerprint := by
  rw [findFingerprint]
  cases hfind : t.rows.find? (fun r' => r'.eventId = r.eventId) with
  | none =>
    have := List.find?_eq_none.1 hfind r hr
    simp at this
  | some r' =>
    have hevent : r'.eventId = r.eventId := by simpa using List.find?_some hfind
    rw [eq_of_eventId (List.mem_of_find?_eq_some hfind) hr hevent (hevent ▸ hne)]
    rfl

theorem mem_pending {row : OutboxRow} :
    row ∈ t.pending ↔ ∃ r ∈ t.rows, r.status = .pending ∧ r.read = row := by
  simp [pending, and_assoc]

theorem purgeSent_pending (olderThanMs : ℤ) : (t.purgeSent olderThanMs).2.pending = t.pending := by
  simp only [purgeSent, pending, List.filter_filter]
  congr 1
  refine List.filter_congr fun r _ => ?_
  cases hr : r.status <;> simp [settledBy, hr]

section Oldest

variable {row : OutboxRow} {rest : List OutboxRow}

/-- The oldest pending row splits the table in rows that are sent and the others. -/
theorem split_of_pending (h : t.pending = row :: rest) :
    ∃ sent r later, t.rows = sent ++ r :: later ∧ (∀ r' ∈ sent, r'.status = .sent) ∧
      r.status = .pending ∧ r.read = row ∧
      (later.filter fun r => r.status = .pending).map StoredRow.read = rest := by
  obtain ⟨r, tail, hfilter, hread, htail⟩ := List.map_eq_cons_iff.1 h
  obtain ⟨sent, later, hrows, hsent, hr, hlater⟩ := List.filter_eq_cons_iff.1 hfilter
  refine ⟨sent, r, later, hrows, ?_, by simpa using hr, hread, by rw [hlater, htail]⟩
  intro r' hr'
  have := hsent r' hr'
  cases hstatus : r'.status <;> simp_all

variable {sent later : List StoredRow} {r : StoredRow}

/-- An update of the oldest pending row leaves every other row. -/
theorem modify_isPending {f : StoredRow → StoredRow} {hrowid : ∀ r, (f r).rowid = r.rowid}
    {hevent : ∀ r, (f r).eventId = r.eventId} (hrows : t.rows = sent ++ r :: later)
    (hr : r.status = .pending) :
    (t.modify (isPending r.rowid) f hrowid hevent).rows = sent ++ f r :: later := by
  have hsorted := t.sorted
  rw [hrows, List.pairwise_append, List.pairwise_cons] at hsorted
  obtain ⟨-, ⟨hlater, -⟩, hsent⟩ := hsorted
  have hkeep : ∀ l : List StoredRow, (∀ r' ∈ l, r'.rowid ≠ r.rowid) →
      (l.map fun r' => if isPending r.rowid r' then f r' else r') = l := by
    intro l hl
    conv_rhs => rw [← List.map_id l]
    refine List.map_congr_left fun r' hr' => ?_
    simp [isPending, hl r' hr']
  simp only [modify, hrows, List.map_append, List.map_cons]
  rw [hkeep sent fun r' hr' => Nat.ne_of_lt (hsent r' hr' r (by simp)),
    hkeep later fun r' hr' => Nat.ne_of_gt (hlater r' hr')]
  simp [isPending, hr]

theorem pending_markSent (h : t.pending = row :: rest) (now : ℤ) :
    (t.markSent row.id now).2.pending = rest := by
  obtain ⟨sent, r, later, hrows, hsent, hr, rfl, hlater⟩ := split_of_pending h
  have hnone : sent.filter (fun r => r.status = .pending) = [] :=
    List.filter_eq_nil_iff.2 fun r' hr' => by simp [hsent r' hr']
  simp only [markSent, StoredRow.read, pending, modify_isPending hrows hr, List.filter_append,
    hnone, List.nil_append]
  exact hlater

/-- A row that is sent after the oldest pending row has been marked was sent before, or is it. -/
theorem sent_markSent (h : t.pending = row :: rest) {now : ℤ} {r' : StoredRow}
    (hr' : r' ∈ (t.markSent row.id now).2.rows) (hsent' : r'.status = .sent) :
    (r' ∈ t.rows ∧ r'.status = .sent) ∨ r'.rowid = row.id := by
  obtain ⟨sent, r, later, hrows, hsent, hr, rfl, hlater⟩ := split_of_pending h
  simp only [markSent, StoredRow.read, modify_isPending hrows hr, List.mem_append,
    List.mem_cons] at hr'
  rcases hr' with hr' | rfl | hr'
  · exact .inl ⟨by simp [hrows, hr'], hsent'⟩
  · exact .inr rfl
  · exact .inl ⟨by simp [hrows, hr'], hsent'⟩

theorem pending_recordAttempt (h : t.pending = row :: rest) :
    (t.recordAttempt row.id).2.pending = { row with attempts := row.attempts + 1 } :: rest := by
  obtain ⟨sent, r, later, hrows, hsent, hr, rfl, hlater⟩ := split_of_pending h
  have hnone : sent.filter (fun r => r.status = .pending) = [] :=
    List.filter_eq_nil_iff.2 fun r' hr' => by simp [hsent r' hr']
  simp only [recordAttempt, StoredRow.read, pending, modify_isPending hrows hr,
    List.filter_append, hnone, List.nil_append]
  rw [List.filter_cons_of_pos (by simpa using hr), List.map_cons, hlater]
  rfl

theorem sent_recordAttempt (h : t.pending = row :: rest) {r' : StoredRow}
    (hr' : r' ∈ (t.recordAttempt row.id).2.rows) (hsent' : r'.status = .sent) : r' ∈ t.rows := by
  obtain ⟨sent, r, later, hrows, hsent, hr, rfl, hlater⟩ := split_of_pending h
  simp only [recordAttempt, StoredRow.read, modify_isPending hrows hr, List.mem_append,
    List.mem_cons] at hr'
  rcases hr' with hr' | rfl | hr'
  · simp [hrows, hr']
  · simp [hr] at hsent'
  · simp [hrows, hr']

end Oldest

end Table

end Outbox

end ArgusBackend
