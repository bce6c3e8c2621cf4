import ArgusBackend.Library.Relay
import ArgusBackend.Library.Runs
import ArgusBackend.Outbox.Repository

/-!
# The transactional outbox

`record` and `append` write rows inside the transactions of the services; the flush loop reads
batches of pending rows, publishes each and marks it sent; settled rows are purged between passes.
Any number of transactions commit in between, publishes and marks fail, and the process crashes.

* `Follows` is the invariant: the notes of a run are a history of `Relay`, whose waiting items are
  the pending rows of the table;
* `outbox_delivers` : what the broker sees of every run, and what `record` answers.
-/

namespace ArgusBackend

namespace Outbox

open Relay (offered delivered settled)

/-- The longest payload. -/
def kMaxPayloadBytes : ℕ := 256 * 1024

/-- What an outbox is configured with. -/
structure OutboxConfig where
  defaultSubject : String
  legacyIdPrefix : String
  batch : ℤ
  keepSentMs : ℤ
  purgeEveryMs : ℤ
  purgeRetryMs : ℤ
  deriving DecidableEq, Repr

/-- What a write throws: the configured refusal, the same with status 503, or an exception of the
repository with its text. -/
inductive OutboxError where
  | refusal
  | unavailable
  | invalidArgument (what : String)
  | runtimeError (what : String)
  deriving DecidableEq, Repr

/-- An event to be recorded under its own id. -/
structure OutboxRecordInput where
  eventId : String
  subject : String
  payload : String
  deriving DecidableEq, Repr

/-- An event to be recorded under a new id. -/
structure OutboxAppendInput where
  idPrefix : String
  subject : String
  payload : String
  deriving DecidableEq, Repr

/-- One message as the broker stores it, with the row it was published for. -/
structure Letter where
  row : ℕ
  subject : String
  msgId : String
  payload : String
  deriving DecidableEq, Repr

/-- What is sent and acknowledged. -/
abbrev Note := Relay.Note Letter ℕ

/-! ### Writing -/

section Writing

variable (fingerprint : String → String)

/-- `OutboxRepository::insert` -/
def insert (t : Table) (input : OutboxInsert) : Except OutboxError (OutboxDisposition × Table) :=
  if input.eventId = "" ∨ input.subject = "" ∨ input.payload = "" then
    .error (.invalidArgument "a change outbox row needs a msg id, a subject and a payload")
  else
    match t.insertEvent input with
    | some t' => .ok (.enqueued, t')
    | none =>
      match t.findFingerprint input.eventId with
      | none =>
        .error (.runtimeError "the change outbox ignored an insert it holds no row for")
      | some stored => .ok (if stored = input.fingerprint then .replay else .conflict, t)

/-- A payload that is too long is refused. -/
def refuseOversized (bytes : ℕ) : Except OutboxError Unit :=
  if bytes ≤ kMaxPayloadBytes then .ok () else .error .refusal

/-- `record` -/
def record (t : Table) (input : OutboxRecordInput) (now : ℤ) :
    Except OutboxError (OutboxDisposition × Table) := do
  refuseOversized input.payload.utf8ByteSize
  insert t
    { eventId := input.eventId
      subject := input.subject
      fingerprint := fingerprint input.payload
      payload := input.payload
      createdAt := now }

/-- The hexadecimal digits. -/
def kHex : List Char := "0123456789abcdef".toList

/-- An id of 16 random bytes. -/
def uniqueId (idPrefix : String) (entropy : Vector UInt8 16) : String :=
  idPrefix ++ String.ofList (entropy.toList.flatMap fun byte =>
    [kHex.getD (byte.toNat / 16) '0', kHex.getD (byte.toNat % 16) '0'])

/-- `append` -/
def append (t : Table) (input : OutboxAppendInput) (entropy : Option (Vector UInt8 16)) (now : ℤ) :
    Except OutboxError (OutboxDisposition × Table) := do
  refuseOversized input.payload.utf8ByteSize
  match entropy with
  | none => .error .unavailable
  | some entropy =>
    let (disposition, t) ← insert t
      { eventId := uniqueId input.idPrefix entropy
        subject := input.subject
        fingerprint := fingerprint input.payload
        payload := input.payload
        createdAt := now }
    if disposition = .enqueued then .ok (disposition, t) else .error .refusal

/-- One write of a transaction. -/
inductive Call where
  | record (input : OutboxRecordInput) (now : ℤ)
  | append (input : OutboxAppendInput) (entropy : Option (Vector UInt8 16)) (now : ℤ)

/-- The table after one write; a write that throws leaves it as it was. -/
def Call.perform (t : Table) (call : Call) : Table :=
  let answer := match call with
    | .record input now => Outbox.record fingerprint t input now
    | .append input entropy now => Outbox.append fingerprint t input entropy now
  match answer with
  | .ok (_, t') => t'
  | .error _ => t

end Writing

/-! ### Publishing -/

/-- `legacyId` -/
def legacyId (idPrefix : String) (rowId : ℕ) : String := idPrefix ++ toString rowId

/-- The message `flush` publishes for a row. -/
def OutboxConfig.letter (c : OutboxConfig) (row : OutboxRow) : Letter where
  row := row.id
  subject := if row.subject = "" then c.defaultSubject else row.subject
  msgId := if row.eventId = "" then legacyId c.legacyIdPrefix row.id else row.eventId
  payload := row.payload

/-- Where the flush loop stands: between passes, about to flush the rest of its batch, or about to
mark the row it has published. -/
inductive Worker where
  | idle
  | sending (rest : List OutboxRow)
  | marking (row : OutboxRow) (rest : List OutboxRow)
  deriving DecidableEq, Repr

/-- The rows of the batch that are not marked yet. -/
@[simp] def Worker.batch : Worker → List OutboxRow
  | .idle => []
  | .sending rest => rest
  | .marking row rest => row :: rest

/-- The table, the worker, and when the next purge is due. -/
structure State where
  table : Table
  worker : Worker := .idle
  nextPurgeMs : ℤ := 0

/-- What becomes of a publish: the broker stored it and said so, or it failed, possibly after the
broker stored it; a failure is counted unless that write fails too. -/
inductive Publish where
  | acked
  | failed (stored counted : Bool)
  deriving DecidableEq, Repr

/-- One step of the services, of the flush loop, or of the process. -/
inductive Action where
  /-- a transaction commits; what it wrote appears at once -/
  | commit (calls : List Call)
  /-- a pass reads its batch -/
  | pendingBatch
  /-- a pass ends between two rows: none is left, the outbox is stopping or the bus is down -/
  | leave
  | publish (result : Publish)
  /-- `markSent` for the row just published, which the database may refuse -/
  | markSent (now : ℤ) (written : Bool)
  /-- `purgeSettled`, whose delete the database may refuse -/
  | purgeSettled (now : ℤ) (written : Bool)
  /-- the process dies and a new one starts on the same table -/
  | crash

variable (fingerprint : String → String) (c : OutboxConfig)

/-- What one step does, and the notes it leaves: the rows it commits, the messages the broker
stores, the rows it marks sent and the rowids it deletes. -/
def act (s : State) : Action → State × List Note
  | .commit calls =>
    let table := calls.foldl (Call.perform fingerprint) s.table
    ({ s with table },
      (table.rows.drop s.table.rows.length).map fun r => .offered (c.letter r.read))
  | .pendingBatch =>
    match s.worker with
    | .idle => ({ s with worker := .sending (s.table.pendingBatch c.batch) }, [])
    | _ => (s, [])
  | .leave =>
    match s.worker with
    | .sending _ => ({ s with worker := .idle }, [])
    | _ => (s, [])
  | .publish result =>
    match s.worker with
    | .sending (row :: rest) =>
      match result with
      | .acked => ({ s with worker := .marking row rest }, [.delivered (c.letter row)])
      | .failed stored counted =>
        -- a failed publish ends the pass: every later row waits behind this one
        ({ s with
            worker := .idle
            table := if counted then (s.table.recordAttempt row.id).2 else s.table },
          if stored then [.delivered (c.letter row)] else [])
    | _ => (s, [])
  | .markSent now written =>
    match s.worker with
    | .marking row rest =>
      if written ∧ (s.table.markSent row.id now).1 then
        ({ s with worker := .sending rest, table := (s.table.markSent row.id now).2 },
          [.settled (c.letter row)])
      else ({ s with worker := .idle }, [])
    | _ => (s, [])
  | .purgeSettled now written =>
    match s.worker with
    | .idle =>
      if now < s.nextPurgeMs then (s, [])
      else if written then
        let (purged, table) := s.table.purgeSent (now - c.keepSentMs)
        ({ s with table, nextPurgeMs := now + c.purgeEveryMs },
          purged.map fun r => .other r.rowid)
      else ({ s with nextPurgeMs := now + c.purgeRetryMs }, [])
    | _ => (s, [])
  | .crash => ({ s with worker := .idle, nextPurgeMs := 0 }, [])

/-- One action at a time. -/
def Step (s : State) (notes : List Note) (s' : State) : Prop :=
  ∃ a : Action, act fingerprint c s a = (s', notes)

/-- A table before the first pass over it: all its rows are pending.  Rows older than msg ids may
be among them. -/
structure Start (t : Table) : Prop where
  pending : ∀ r ∈ t.rows, r.status = .pending

/-- The rows a table starts with, as notes. -/
def commits (t : Table) : List Note := t.rows.map fun r => .offered (c.letter r.read)

/-! ### What commits write -/

/-- A transaction only adds pending rows, at new rowids. -/
structure Grows (t t' : Table) : Prop where
  rows : ∃ new : List StoredRow, t'.rows = t.rows ++ new ∧
    ∀ r ∈ new, r.status = .pending ∧ t.nextRowid ≤ r.rowid
  nextRowid : t.nextRowid ≤ t'.nextRowid

theorem Grows.refl (t : Table) : Grows t t := ⟨⟨[], by simp⟩, Nat.le_refl _⟩

theorem Grows.trans {t t' t'' : Table} (h : Grows t t') (h' : Grows t' t'') : Grows t t'' := by
  obtain ⟨new, hnew, hpending⟩ := h.rows
  obtain ⟨new', hnew', hpending'⟩ := h'.rows
  refine ⟨⟨new ++ new', by rw [hnew', hnew, List.append_assoc], ?_⟩,
    Nat.le_trans h.nextRowid h'.nextRowid⟩
  intro r hr
  rcases List.mem_append.1 hr with hr | hr
  · exact hpending r hr
  · obtain ⟨hstatus, hrowid⟩ := hpending' r hr
    exact ⟨hstatus, Nat.le_trans h.nextRowid hrowid⟩

theorem Grows.pending {t t' : Table} (h : Grows t t') :
    t'.pending = t.pending ++ (t'.rows.drop t.rows.length).map StoredRow.read := by
  obtain ⟨new, hnew, hpending⟩ := h.rows
  have hall : new.filter (fun r => r.status = .pending) = new :=
    List.filter_eq_self.2 fun r hr => by simp [(hpending r hr).1]
  simp [Table.pending, hnew, hall]

section Writes

variable {fingerprint} {t : Table}

theorem grows_insert {input : OutboxInsert} {d : OutboxDisposition} {t' : Table}
    (h : insert t input = .ok (d, t')) : Grows t t' := by
  simp only [insert] at h
  split_ifs at h
  cases hinsert : t.insertEvent input with
  | some t'' =>
    rw [hinsert] at h
    cases h
    obtain ⟨r, hrows, hnext, hrowid, hr, -⟩ := Table.of_insertEvent hinsert
    exact ⟨⟨[r], hrows, by simp [hr, hrowid]⟩, by omega⟩
  | none =>
    rw [hinsert] at h
    cases hfind : t.findFingerprint input.eventId with
    | none =>
      simp only [hfind] at h
      cases h
    | some stored =>
      simp only [hfind] at h
      cases h
      exact Grows.refl t

theorem grows_record {input : OutboxRecordInput} {now : ℤ} {d : OutboxDisposition} {t' : Table}
    (h : record fingerprint t input now = .ok (d, t')) : Grows t t' := by
  simp only [record, refuseOversized] at h
  split_ifs at h
  · exact grows_insert h
  · cases h

theorem grows_append {input : OutboxAppendInput} {entropy : Option (Vector UInt8 16)} {now : ℤ}
    {d : OutboxDisposition} {t' : Table}
    (h : append fingerprint t input entropy now = .ok (d, t')) : Grows t t' := by
  simp only [append, refuseOversized] at h
  split_ifs at h
  · cases entropy with
    | none => cases h
    | some entropy =>
      simp only [bind, Except.bind] at h
      split at h
      · cases h
      · rename_i answer hinsert
        split_ifs at h
        cases h
        exact grows_insert hinsert
  · cases h

theorem grows_perform (call : Call) : Grows t (call.perform fingerprint t) := by
  cases call with
  | record input now =>
    simp only [Call.perform]
    cases h : record fingerprint t input now with
    | error e => exact Grows.refl t
    | ok answer => exact grows_record h
  | append input entropy now =>
    simp only [Call.perform]
    cases h : append fingerprint t input entropy now with
    | error e => exact Grows.refl t
    | ok answer => exact grows_append h

theorem grows_foldl (calls : List Call) : Grows t (calls.foldl (Call.perform fingerprint) t) := by
  induction calls generalizing t with
  | nil => exact Grows.refl t
  | cons call calls ih => exact (grows_perform call).trans ih

theorem insert_of_mem {input : OutboxInsert} {r : StoredRow} (hr : r ∈ t.rows)
    (hevent : r.eventId = input.eventId) {d : OutboxDisposition} {t' : Table}
    (h : insert t input = .ok (d, t')) :
    t' = t ∧ d = if r.fingerprint = input.fingerprint then .replay else .conflict := by
  simp only [insert] at h
  split_ifs at h with hempty
  have hne : input.eventId ≠ "" := fun heq => hempty (.inl heq)
  have hinsert : t.insertEvent input = none := by
    rw [← Option.not_isSome_iff_eq_none, Table.insertEvent_isSome hne]
    exact fun hfree => hfree r hr hevent
  have hfind : t.findFingerprint input.eventId = some r.fingerprint :=
    hevent ▸ Table.findFingerprint_eq hr (hevent ▸ hne)
  simp only [hinsert, hfind] at h
  cases h
  exact ⟨rfl, rfl⟩

/-- `record` with a msg id that a row holds: it writes nothing, and it tells a replay from a
conflict by the fingerprints. -/
theorem record_of_mem {input : OutboxRecordInput} {now : ℤ} {r : StoredRow} (hr : r ∈ t.rows)
    (hevent : r.eventId = input.eventId) {d : OutboxDisposition} {t' : Table}
    (h : record fingerprint t input now = .ok (d, t')) :
    t' = t ∧ d = if r.fingerprint = fingerprint input.payload then .replay else .conflict := by
  simp only [record, refuseOversized] at h
  split_ifs at h
  · exact insert_of_mem hr hevent h
  · cases h

/-- A complete row within the size limit gets an answer. -/
theorem record_isOk {input : OutboxRecordInput} {now : ℤ}
    (hsize : input.payload.utf8ByteSize ≤ kMaxPayloadBytes) (hevent : input.eventId ≠ "")
    (hsubject : input.subject ≠ "") (hpayload : input.payload ≠ "") :
    ∃ answer, record fingerprint t input now = .ok answer := by
  simp only [record, refuseOversized, if_pos hsize, bind, Except.bind, insert, hevent, hsubject,
    hpayload, or_self, if_false]
  split
  · exact ⟨_, rfl⟩
  · rename_i hinsert
    split
    · rename_i hfind
      refine absurd hinsert (Option.isSome_iff_ne_none.1 ?_)
      rw [Table.insertEvent_isSome hevent]
      intro r hr heq
      have := Table.findFingerprint_eq hr (heq ▸ hevent)
      simp_all
    · exact ⟨_, rfl⟩

end Writes

/-! ### What every run leaves -/

/-- A row is deleted only after it has been marked sent. -/
def Marked (h : List Note) (rowid : ℕ) : Prop := ∃ letter ∈ settled h, letter.row = rowid

/-- The invariant of a run from `start`: its notes are a history of a relay whose waiting items
are the pending rows, and the flush loop holds the oldest of them. -/
structure Follows (start : Table) (h : List Note) (s : State) : Prop where
  history : Relay.History Marked (s.table.pending.map c.letter) (commits c start ++ h)
  batch : s.worker.batch <+: s.table.pending
  acked : ∀ row rest, s.worker = .marking row rest →
    c.letter row ∈ delivered (commits c start ++ h)
  sent : ∀ r ∈ s.table.rows, r.status = .sent → Marked (commits c start ++ h) r.rowid
  sorted : (offered (commits c start ++ h)).Pairwise fun l l' => l.row < l'.row
  fresh : ∀ letter ∈ offered (commits c start ++ h), letter.row < s.table.nextRowid

section Runs

variable {fingerprint} {c} {start : Table} {h : List Note} {s : State}

theorem Marked.append {rowid : ℕ} (hmarked : Marked h rowid) (notes : List Note) :
    Marked (h ++ notes) rowid := by
  obtain ⟨letter, hletter, hrow⟩ := hmarked
  exact ⟨letter, by simp [hletter], hrow⟩

theorem offered_commits (t : Table) :
    offered (commits c t) = t.rows.map fun r => c.letter r.read := by
  simp [commits, offered, List.filterMap_map, Function.comp_def, Relay.Note.offered?]

theorem follows_start (hstart : Start start) : Follows c start [] { table := start } := by
  have hpending : start.pending = start.rows.map StoredRow.read := by
    rw [Table.pending, List.filter_eq_self.2 fun r hr => by simp [hstart.pending r hr]]
  refine ⟨?_, List.nil_prefix, ?_, ?_, ?_, ?_⟩
  · have hnil : Relay.History Marked [] ([] : List Note) := .start
    have := hnil.offers (start.rows.map fun r => c.letter r.read)
    simpa [commits, hpending, Function.comp_def] using this
  · intro row rest hworker
    cases hworker
  · intro r hr hsent
    rw [hstart.pending r hr] at hsent
    cases hsent
  · simp only [List.append_nil, offered_commits]
    exact List.pairwise_map.2 start.sorted
  · simp only [List.append_nil, offered_commits]
    intro letter hletter
    obtain ⟨r, hr, rfl⟩ := List.mem_map.1 hletter
    exact start.fresh r hr

/-- A step that only lets go of rows of its batch. -/
theorem Follows.drop_batch (hf : Follows c start h s) {worker : Worker} {nextPurgeMs : ℤ}
    (hbatch : worker.batch <+: s.table.pending)
    (hacked : ∀ row rest, worker = .marking row rest →
      c.letter row ∈ delivered (commits c start ++ h)) :
    Follows c start h { s with worker, nextPurgeMs } :=
  ⟨hf.history, hbatch, hacked, hf.sent, hf.sorted, hf.fresh⟩

theorem Follows.idle (hf : Follows c start h s) (nextPurgeMs : ℤ) :
    Follows c start h { s with worker := .idle, nextPurgeMs } :=
  hf.drop_batch List.nil_prefix nofun

theorem follows_commit (hf : Follows c start h s) (calls : List Call) :
    Follows c start (h ++ (act fingerprint c s (.commit calls)).2)
      (act fingerprint c s (.commit calls)).1 := by
  have hgrows : Grows s.table (calls.foldl (Call.perform fingerprint) s.table) :=
    grows_foldl calls
  simp only [act]
  generalize calls.foldl (Call.perform fingerprint) s.table = t at hgrows
  obtain ⟨new, hnew, hpending⟩ := hgrows.rows
  have hnotes : (t.rows.drop s.table.rows.length).map (fun r => Relay.Note.offered (μ := ℕ)
      (c.letter r.read)) = (new.map fun r => c.letter r.read).map .offered := by
    simp [hnew, Function.comp_def]
  have hoffered : offered ((new.map fun r => c.letter r.read).map Relay.Note.offered : List Note) =
      new.map fun r => c.letter r.read := by
    simp [offered, List.filterMap_map, Function.comp_def, Relay.Note.offered?]
  rw [hnotes]
  refine ⟨?_, ?_, ?_, ?_, ?_, ?_⟩
  · have := hf.history.offers (new.map fun r => c.letter r.read)
    simpa [hgrows.pending, hnew, Function.comp_def] using this
  · rw [hgrows.pending]
    exact hf.batch.trans (List.prefix_append _ _)
  · intro row rest hworker
    rw [← List.append_assoc, Relay.delivered_append]
    exact List.mem_append_left _ (hf.acked row rest hworker)
  · intro r hr hsent
    rw [← List.append_assoc]
    rcases List.mem_append.1 (hnew ▸ hr : r ∈ s.table.rows ++ new) with hr | hr
    · exact (hf.sent r hr hsent).append _
    · rw [(hpending r hr).1] at hsent
      cases hsent
  -- the new rows have rowids above all the old ones, and below the next one
  · have hsorted := t.sorted
    rw [hnew] at hsorted
    rw [← List.append_assoc, Relay.offered_append, hoffered]
    refine List.pairwise_append.2 ⟨hf.sorted, List.pairwise_map.2 ?_, ?_⟩
    · exact (List.pairwise_append.1 hsorted).2.1
    · intro l hl l' hl'
      obtain ⟨r, hr, rfl⟩ := List.mem_map.1 hl'
      exact Nat.lt_of_lt_of_le (hf.fresh l hl) (hpending r hr).2
  · intro l hl
    rw [← List.append_assoc, Relay.offered_append, hoffered] at hl
    rcases List.mem_append.1 hl with hl | hl
    · exact Nat.lt_of_lt_of_le (hf.fresh l hl) hgrows.nextRowid
    · obtain ⟨r, hr, rfl⟩ := List.mem_map.1 hl
      exact t.fresh r (by simp [hnew, hr])

theorem follows_publish (hf : Follows c start h s) (result : Publish) :
    Follows c start (h ++ (act fingerprint c s (.publish result)).2)
      (act fingerprint c s (.publish result)).1 := by
  simp only [act]
  split
  · rename_i row rest hworker
    obtain ⟨tail, hpending⟩ := hf.batch
    rw [hworker, Worker.batch, List.cons_append] at hpending
    have hhist := hf.history
    rw [← hpending, List.map_cons] at hhist
    have hdelivered := hhist.delivered
    rw [← List.map_cons, hpending, List.append_assoc] at hdelivered
    cases result with
    | acked =>
      refine ⟨hdelivered, ?_, ?_, ?_, ?_, ?_⟩
      · exact ⟨tail, by rw [← hpending]; rfl⟩
      · intro row' rest' hmarking
        cases hmarking
        simp
      · intro r hr hsent
        rw [← List.append_assoc]
        exact (hf.sent r hr hsent).append _
      · simpa using hf.sorted
      · simpa using hf.fresh
    | failed stored counted =>
      -- the message may have been stored, and the attempt may have been counted
      have hnoted : Follows c start
          (h ++ if stored then [.delivered (c.letter row)] else [])
          { s with worker := .idle } := by
        cases stored with
        | false => simpa using hf.idle s.nextPurgeMs
        | true =>
          refine ⟨hdelivered, List.nil_prefix, nofun, ?_, ?_, ?_⟩
          · intro r hr hsent
            rw [if_pos rfl, ← List.append_assoc]
            exact (hf.sent r hr hsent).append _
          · simpa using hf.sorted
          · simpa using hf.fresh
      cases counted with
      | false => exact hnoted
      | true =>
        refine ⟨?_, List.nil_prefix, nofun, ?_, hnoted.sorted, hnoted.fresh⟩
        · have := hnoted.history
          simp only [← hpending, List.map_cons] at this
          simpa [Table.pending_recordAttempt hpending.symm, OutboxConfig.letter] using this
        · intro r hr hsent
          exact hnoted.sent r (Table.sent_recordAttempt hpending.symm hr hsent) hsent
  · simpa using hf

theorem follows_markSent (hf : Follows c start h s) (now : ℤ) (written : Bool) :
    Follows c start (h ++ (act fingerprint c s (.markSent now written)).2)
      (act fingerprint c s (.markSent now written)).1 := by
  simp only [act]
  split
  · rename_i row rest hworker
    obtain ⟨tail, hpending⟩ := hf.batch
    rw [hworker, Worker.batch, List.cons_append] at hpending
    split_ifs with hwritten
    · have hhist := hf.history
      rw [← hpending, List.map_cons] at hhist
      have hsettled := hhist.settled (hf.acked row rest hworker)
      rw [List.append_assoc] at hsettled
      refine ⟨?_, ?_, nofun, ?_, ?_, ?_⟩
      · simpa only [Table.pending_markSent hpending.symm] using hsettled
      · rw [Table.pending_markSent hpending.symm]
        exact List.prefix_append _ _
      · intro r hr hsent
        rw [← List.append_assoc]
        rcases Table.sent_markSent hpending.symm hr hsent with ⟨hr, hsent⟩ | hrow
        · exact (hf.sent r hr hsent).append _
        · exact ⟨c.letter row, by simp, by simpa [OutboxConfig.letter] using hrow.symm⟩
      · simpa using hf.sorted
      · simpa [Table.markSent, Table.modify] using hf.fresh
    · simpa using hf.idle s.nextPurgeMs
  · simpa using hf

theorem follows_purgeSettled (hf : Follows c start h s) (now : ℤ) (written : Bool) :
    Follows c start (h ++ (act fingerprint c s (.purgeSettled now written)).2)
      (act fingerprint c s (.purgeSettled now written)).1 := by
  simp only [act]
  split
  · rename_i hworker
    split_ifs
    · simpa using hf
    · -- only sent rows are deleted, and each of them has been marked
      have hguard : ∀ rowid ∈ (s.table.purgeSent (now - c.keepSentMs)).1.map (·.rowid),
          Marked (commits c start ++ h) rowid := by
        intro rowid hrowid
        obtain ⟨r, hr, rfl⟩ := List.mem_map.1 hrowid
        obtain ⟨hr, hsettled⟩ := List.mem_filter.1 hr
        have hsent : r.status = .sent ∧ r.sentAt ≤ now - c.keepSentMs := by
          simpa [Table.settledBy] using hsettled
        exact hf.sent r hr hsent.1
      have hhist := hf.history.others ((s.table.purgeSent (now - c.keepSentMs)).1.map (·.rowid))
        fun rowid hrowid before => (hguard rowid hrowid).append _
      have hnone : offered ((s.table.purgeSent (now - c.keepSentMs)).1.map fun r =>
          (Relay.Note.other r.rowid : Note)) = [] := by
        simp [offered, Relay.Note.offered?]
      rw [List.map_map] at hhist
      refine ⟨?_, by simp [hworker], by simp [hworker], ?_, ?_, ?_⟩
      · simpa only [Table.purgeSent_pending, List.append_assoc, Function.comp_def] using hhist
      · intro r hr hsent
        rw [← List.append_assoc]
        exact (hf.sent r (List.mem_of_mem_filter hr) hsent).append _
      · rw [← List.append_assoc, Relay.offered_append, hnone, List.append_nil]
        exact hf.sorted
      · rw [← List.append_assoc, Relay.offered_append, hnone, List.append_nil]
        exact hf.fresh
    · simpa using hf.drop_batch hf.batch hf.acked
  · simpa using hf

theorem follows_act (hf : Follows c start h s) (a : Action) :
    Follows c start (h ++ (act fingerprint c s a).2) (act fingerprint c s a).1 := by
  cases a with
  | commit calls => exact follows_commit hf calls
  | pendingBatch =>
    simp only [act]
    split
    · have hread : s.table.pendingBatch c.batch <+: s.table.pending := by
        rw [Table.pendingBatch]
        split_ifs
        · exact List.nil_prefix
        · exact List.take_prefix _ _
      have hsending : Follows c start h
          { s with worker := .sending (s.table.pendingBatch c.batch) } :=
        hf.drop_batch hread nofun
      simpa using hsending
    · simpa using hf
  | leave =>
    simp only [act]
    split
    · simpa using hf.idle s.nextPurgeMs
    · simpa using hf
  | publish result => exact follows_publish hf result
  | markSent now written => exact follows_markSent hf now written
  | purgeSettled now written => exact follows_purgeSettled hf now written
  | crash => simpa [act] using hf.idle 0

theorem follows_of_run (hstart : Start start)
    (hrun : Run (Step fingerprint c) { table := start } h s) : Follows c start h s := by
  refine hrun.invariant (follows_start hstart) ?_
  rintro h s notes s' hf ⟨a, ha⟩
  have hact : Follows c start (h ++ (act fingerprint c s a).2) (act fingerprint c s a).1 :=
    follows_act hf a
  rwa [ha] at hact

end Runs

/-- What the broker and the table have seen after the notes `h` of a run from `start`. -/
structure Delivery (start : Table) (h : List Note) (s : State) : Prop where
  /-- the first arrivals of distinct msg ids are in the order of the rowids -/
  order : (Relay.firsts Letter.msgId (delivered h)).Pairwise fun l l' => l.row < l'.row
  /-- when a row arrives, every earlier row has arrived -/
  earlier : ∀ h₁ letter h₂, h = h₁ ++ .delivered letter :: h₂ →
    ∀ letter' ∈ offered (commits c start ++ h), letter'.row < letter.row →
      letter' ∈ delivered h₁
  /-- every arrival for a row is the one message of that row -/
  same : ∀ letter ∈ delivered h, letter ∈ offered (commits c start ++ h) ∧
    ∀ letter' ∈ delivered h, letter'.row = letter.row → letter' = letter
  /-- a committed row that is not marked sent is pending in the table -/
  kept : ∀ letter ∈ offered (commits c start ++ h), letter ∈ settled h ∨
    ∃ r ∈ s.table.rows, r.status = .pending ∧ c.letter r.read = letter
  /-- a row is deleted only after it has been marked sent -/
  purged : ∀ h₁ rowid h₂, h = h₁ ++ .other rowid :: h₂ → Marked h₁ rowid

theorem delivered_commits (t : Table) : delivered (commits c t) = [] := by
  simp [commits, delivered, Relay.Note.delivered?]

theorem settled_commits (t : Table) : settled (commits c t) = [] := by
  simp [commits, settled, Relay.Note.settled?]

theorem Follows.delivery {start : Table} {h : List Note} {s : State} (hf : Follows c start h s) :
    Delivery c start h s := by
  have hpairwise := hf.history.delivered_pairwise hf.sorted
  rw [Relay.delivered_append, delivered_commits, List.nil_append] at hpairwise
  have hoffered := hf.history.offered_eq
  rw [Relay.settled_append, settled_commits, List.nil_append] at hoffered
  refine ⟨Relay.pairwise_firsts hpairwise, ?_, ?_, ?_, ?_⟩
  · rintro h₁ letter h₂ rfl letter' hletter' hlt
    have hhist := hf.history
    have hsorted := hf.sorted
    rw [← List.append_assoc] at hhist hsorted hletter'
    have := hhist.delivered_before (fun _ _ => Nat.lt_asymm) hsorted hletter' hlt
    rwa [Relay.delivered_append, delivered_commits, List.nil_append] at this
  · intro letter hletter
    have hmem : ∀ letter ∈ delivered h, letter ∈ offered (commits c start ++ h) := by
      intro letter hletter
      rw [hoffered]
      rcases hf.history.settled_or_head (by simp [hletter] : letter ∈ delivered _) with hs | hw
      · rw [Relay.settled_append, settled_commits, List.nil_append] at hs
        exact List.mem_append_left _ hs
      · exact List.mem_append_right _ (List.mem_of_mem_head? hw)
    refine ⟨hmem letter hletter, fun letter' hletter' hrow => ?_⟩
    have hnodup : ((offered (commits c start ++ h)).map Letter.row).Nodup :=
      List.pairwise_map.2 (hf.sorted.imp Nat.ne_of_lt)
    exact List.inj_on_of_nodup_map hnodup (hmem letter' hletter') (hmem letter hletter) hrow
  · intro letter hletter
    rw [hoffered] at hletter
    rcases List.mem_append.1 hletter with hs | hw
    · exact .inl hs
    · obtain ⟨row, hrow, rfl⟩ := List.mem_map.1 hw
      obtain ⟨r, hr, hstatus, rfl⟩ := Table.mem_pending.1 hrow
      exact .inr ⟨r, hr, hstatus, rfl⟩
  · rintro h₁ rowid h₂ rfl
    have hhist := hf.history
    rw [← List.append_assoc] at hhist
    obtain ⟨letter, hletter, hrow⟩ := hhist.guarded
    rw [Relay.settled_append, settled_commits, List.nil_append] at hletter
    exact ⟨letter, hletter, hrow⟩

/-- The outbox delivers every committed row in order: this holds of every run from a table whose
rows are all pending.  A record under a msg id that is taken writes nothing, and answers a replay
when the fingerprints agree and a conflict otherwise; it does answer when its row is complete and
within the size limit. -/
theorem outbox_delivers {start : Table} (hstart : Start start) :
    (∀ h s, Run (Step fingerprint c) { table := start } h s → Delivery c start h s) ∧
    ∀ (t : Table) (input : OutboxRecordInput) (now : ℤ), ∀ r ∈ t.rows,
      r.eventId = input.eventId →
      (∀ d t', record fingerprint t input now = .ok (d, t') →
        t' = t ∧
          d = if r.fingerprint = fingerprint input.payload then .replay else .conflict) ∧
      (input.payload.utf8ByteSize ≤ kMaxPayloadBytes → input.eventId ≠ "" →
        input.subject ≠ "" → input.payload ≠ "" →
        ∃ answer, record fingerprint t input now = .ok answer) := by
  refine ⟨fun h s hrun => (follows_of_run hstart hrun).delivery, ?_⟩
  intro t input now r hr hevent
  exact ⟨fun d t' hrecord => record_of_mem hr hevent hrecord, record_isOk⟩

/-! ### A run -/

/-- A row from before there were msg ids, and one that was recorded. -/
def olderTable : Table where
  rows := [⟨1, "", "", "", "old", .pending, 0, 0, 0⟩,
    ⟨2, "e2", "argus.row", "two", "two", .pending, 0, 0, 0⟩]
  nextRowid := 3
  sorted := by decide
  fresh := by decide
  unique := by decide

/-- An outbox that sends two rows at a time. -/
def pairsConfig : OutboxConfig where
  defaultSubject := "argus.change"
  legacyIdPrefix := "change-"
  batch := 2
  keepSentMs := 60000
  purgeEveryMs := 1000
  purgeRetryMs := 100

/-- A row is recorded twice.  The broker stores the first message and its answer is lost, the process
dies between a publish and its mark, and what was marked first is purged in the end. -/
def lostAnswers : List Action :=
  [.commit [.record ⟨"e3", "argus.row", "three"⟩ 5, .record ⟨"e3", "argus.row", "three"⟩ 6],
    .pendingBatch, .publish (.failed true true),
    .pendingBatch, .publish .acked, .markSent 10 true, .publish .acked, .crash,
    .pendingBatch, .publish .acked, .markSent 11 true, .publish .acked, .markSent 12 true, .leave,
    .purgeSettled 60010 true]

/-- Rows 1 and 2 arrive twice, and a record under the msg id of row 2 conflicts with it. -/
theorem outbox_delivers_repeats :
    (∃ h s, Run (Step (fun payload => payload) pairsConfig) { table := olderTable } h s ∧
      ((delivered h).map Letter.row = [1, 1, 2, 2, 3] ∧ .other 1 ∈ h) ∧
      Delivery pairsConfig olderTable h s) ∧
    record (fun payload => payload) olderTable ⟨"e2", "argus.row", "other"⟩ 7 =
      .ok (.conflict, olderTable) := by
  have hstart : Start olderTable := ⟨by decide⟩
  obtain ⟨hdelivers, hrecord⟩ := outbox_delivers (fun payload => payload) pairsConfig hstart
  constructor
  · have hplayed : ∃ h s, Run (Step (fun payload => payload) pairsConfig)
        { table := olderTable } h s ∧
        (delivered h).map Letter.row = [1, 1, 2, 2, 3] ∧ .other 1 ∈ h :=
      Run.exists_of_play (fun s a => some (act (fun payload => payload) pairsConfig s a))
        lostAnswers (fun s a s' notes htaken => ⟨a, Option.some.inj htaken⟩) (by decide +kernel)
    obtain ⟨h, s, hrun, hfacts⟩ := hplayed
    exact ⟨h, s, hrun, hfacts, hdelivers h s hrun⟩
  · obtain ⟨hsame, hanswers⟩ := hrecord olderTable ⟨"e2", "argus.row", "other"⟩ 7 _
      (List.mem_cons_of_mem _ List.mem_cons_self) rfl
    obtain ⟨⟨d, t'⟩, hok⟩ :=
      hanswers (by decide +kernel) (by decide) (by decide) (by decide)
    obtain ⟨rfl, rfl⟩ := hsame d t' hok
    exact hok

end Outbox

end ArgusBackend
