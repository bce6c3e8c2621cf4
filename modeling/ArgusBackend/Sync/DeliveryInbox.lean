import ArgusBackend.Library.Lanes
import ArgusBackend.Response.Wire

/-!
# The inbox of notification deliveries

The broker delivers a message until it is acked or termed, so the consumer may see a delivery many
times.  It keeps a row for every delivery id: a row is received until the delivery was dispatched,
two contents came under one id, or the dispatch failed too often.  The messages of the stream are
handled one after the other, and a try may be cut short anywhere.

* `DeliveryInbox` : the table, statement by statement;
* `receive`, `handle` : what the consumer does with a message;
* `workshop` : the tries of the consumer's lane.
-/

namespace ArgusBackend

namespace Sync

namespace Delivery

open Response (Json)

/-- A delivery as it is in the stream. -/
structure NotificationDeliveryEvent where
  deliveryId : ℤ
  notificationId : ℤ
  userId : ℤ
  type : String := ""
  title : String := ""
  body : String := ""
  data : Json := .obj []
  createdAt : ℤ := 0

/-- The JSON of a delivery, of which the fingerprint is taken. -/
def NotificationDeliveryEvent.toJson (event : NotificationDeliveryEvent) : Json :=
  .obj [("deliveryId", .int event.deliveryId), ("notificationId", .int event.notificationId),
    ("userId", .int event.userId), ("type", .str event.type), ("title", .str event.title),
    ("body", .str event.body),
    ("data", match event.data with | .null => .obj [] | data => data),
    ("createdAt", .int event.createdAt)]

/-- The states of a row. -/
inductive NotificationDeliveryReceipt where
  | received | dispatched | conflict | deadLettered
  deriving DecidableEq, Repr

/-- A row of the inbox; its status may be one that cannot be read. -/
structure ReceiptRow where
  fingerprint : String
  attempts : ℤ := 0
  status : Option NotificationDeliveryReceipt := some .received
  deriving DecidableEq, Repr

/-- The rows by delivery id. -/
abbrev DeliveryInbox := ℤ → Option ReceiptRow

namespace DeliveryInbox

variable (inbox : DeliveryInbox)

/-- The row of an id is set. -/
def put (deliveryId : ℤ) (row : ReceiptRow) : DeliveryInbox :=
  fun id => if id = deliveryId then some row else inbox id

/-- An `UPDATE` of the row of an id, if it is there and meets a condition, and whether it was. -/
def update (deliveryId : ℤ) (p : ReceiptRow → Bool) (f : ReceiptRow → ReceiptRow) :
    Bool × DeliveryInbox :=
  match (inbox deliveryId).filter p with
  | none => (false, inbox)
  | some row => (true, inbox.put deliveryId (f row))

/-- `INSERT_RECEIPT`, and whether there was no row. -/
def insertReceipt (deliveryId : ℤ) (fingerprint : String) : Bool × DeliveryInbox :=
  match inbox deliveryId with
  | some _ => (false, inbox)
  | none => (true, inbox.put deliveryId { fingerprint })

/-- `ADOPT_FINGERPRINT` -/
def adoptFingerprint (deliveryId : ℤ) (fingerprint : String) : DeliveryInbox :=
  (inbox.update deliveryId (fun row => row.status = some .received || row.status = some .dispatched)
    fun row => { row with fingerprint }).2

/-- `NOTE_ATTEMPT`, and the attempts after it. -/
def noteAttempt (deliveryId : ℤ) : Option ℤ × DeliveryInbox :=
  ((inbox deliveryId).map (·.attempts + 1),
    (inbox.update deliveryId (fun _ => true) fun row => { row with attempts := row.attempts + 1 }).2)

/-- `MARK_DISPATCHED`, and whether the row was received. -/
def markDispatched (deliveryId : ℤ) : Bool × DeliveryInbox :=
  inbox.update deliveryId (·.status = some .received) fun row =>
    { row with status := some .dispatched }

/-- `MARK_DEAD_LETTERED`, and whether the row was received. -/
def markDeadLettered (deliveryId : ℤ) : Bool × DeliveryInbox :=
  inbox.update deliveryId (·.status = some .received) fun row =>
    { row with status := some .deadLettered }

/-- `MARK_CONFLICT` -/
def markConflict (deliveryId : ℤ) (fingerprint : String) : DeliveryInbox :=
  (inbox.update deliveryId (fun row => row.status = some .received || row.status = some .dispatched)
    fun row => { row with status := some .conflict, fingerprint }).2

/-- `FORCE_DEAD_LETTERED` -/
def forceDeadLettered (deliveryId : ℤ) : DeliveryInbox :=
  (inbox.update deliveryId (fun _ => true) fun row => { row with status := some .deadLettered }).2

section Lemmas

variable {inbox} {id id' : ℤ} {row : ReceiptRow}

@[simp] theorem put_self : inbox.put id row id = some row := if_pos rfl

theorem put_ne (hne : id' ≠ id) : inbox.put id row id' = inbox id' := if_neg hne

theorem update_eq {p : ReceiptRow → Bool} {f : ReceiptRow → ReceiptRow} (hrow : inbox id = some row)
    (hp : p row = true) : inbox.update id p f = (true, inbox.put id (f row)) := by
  rw [update, hrow, Option.filter_some_pos hp]

end Lemmas

end DeliveryInbox

/-! ### One statement at a time -/

/-- What the broker is told of a message. -/
inductive DurableDisposition where
  | ack | term | nak
  deriving DecidableEq, Repr

/-- What is left of a run: a message was looked at, dispatched, or its dispatch threw an exception
with a text, and what the broker was told. -/
inductive Note where
  | seen (message : ℕ)
  | dispatched (message : ℕ)
  | threw (message : ℕ) (text : String)
  | settled (message : ℕ) (disposition : DurableDisposition)
  deriving DecidableEq, Repr

/-- What a try awaits. -/
inductive Op where
  /-- the select of `receive`, which looks at a message first -/
  | select (message : ℕ) (deliveryId : ℤ)
  | insert (deliveryId : ℤ) (fingerprint : String)
  /-- a row without a fingerprint is given one; only a table from before fingerprints has such rows,
  as `insert` never leaves it out -/
  | adopt (deliveryId : ℤ) (fingerprint : String)
  | markConflict (deliveryId : ℤ) (fingerprint : String)
  | forceDeadLettered (deliveryId : ℤ)
  | dispatch (message : ℕ)
  | noteAttempt (deliveryId : ℤ)
  | markDispatched (deliveryId : ℤ)
  | markDeadLettered (deliveryId : ℤ)
  | settle (message : ℕ) (disposition : DurableDisposition)
  deriving DecidableEq

/-- What each of them answers. -/
@[reducible] def Op.Ans : Op → Type
  | .select _ _ => Option ReceiptRow
  | .insert _ _ | .markDispatched _ | .markDeadLettered _ => Bool
  | .dispatch _ => Option String
  | .noteAttempt _ => ℤ
  | _ => Unit

/-- What a statement or the dispatch does; `error` is the text of what the dispatch throws. -/
def exec (error : Option String) (op : Op) (inbox : DeliveryInbox) :
    op.Ans × List Note × DeliveryInbox :=
  match op with
  | .select message deliveryId => (inbox deliveryId, [.seen message], inbox)
  | .insert deliveryId fingerprint =>
    ((inbox.insertReceipt deliveryId fingerprint).1, [],
      (inbox.insertReceipt deliveryId fingerprint).2)
  | .adopt deliveryId fingerprint => ((), [], inbox.adoptFingerprint deliveryId fingerprint)
  | .markConflict deliveryId fingerprint => ((), [], inbox.markConflict deliveryId fingerprint)
  | .forceDeadLettered deliveryId => ((), [], inbox.forceDeadLettered deliveryId)
  | .dispatch message =>
    (error, [match error with
      | none => .dispatched message
      | some text => .threw message text], inbox)
  | .noteAttempt deliveryId =>
    ((inbox.noteAttempt deliveryId).1.getD (-1), [], (inbox.noteAttempt deliveryId).2)
  | .markDispatched deliveryId =>
    ((inbox.markDispatched deliveryId).1, [], (inbox.markDispatched deliveryId).2)
  | .markDeadLettered deliveryId =>
    ((inbox.markDeadLettered deliveryId).1, [], (inbox.markDeadLettered deliveryId).2)
  | .settle message disposition => ((), [.settled message disposition], inbox)

/-- A task of the consumer. -/
abbrev DeliveryTask := Task Op Op.Ans

/-- Await an operation. -/
def ask (op : Op) : DeliveryTask op.Ans := Task.call op

/-! ### The consumer -/

section Consumer

-- the messages of the stream, `deliveryFingerprint` of an event's JSON, and the configuration
variable (stream : ℕ → NotificationDeliveryEvent) (fingerprint : Json → String)
  (poisonMaxAttempts : ℤ)

/-- The delivery id of a message. -/
def idOf (message : ℕ) : ℤ := (stream message).deliveryId

/-- The fingerprint of a message. -/
def printOf (message : ℕ) : String := fingerprint (stream message).toJson

/-- What `receive` makes of the row of an id. -/
def receiveRow (id : ℤ) (print : String) (row : ReceiptRow) : DeliveryTask Bool :=
  match row.status with
  | none => do
    ask (.forceDeadLettered id)
    pure true
  | some .received => do
    if row.fingerprint = "" then
      ask (.adopt id print)
      pure false
    else if row.fingerprint = print then
      pure false
    else
      ask (.markConflict id print)
      pure true
  | some .dispatched => do
    if row.fingerprint ≠ "" ∧ row.fingerprint ≠ print then
      ask (.markConflict id print)
      pure true
    else if row.fingerprint = "" then
      ask (.adopt id print)
      pure true
    else
      pure true
  | some _ => pure true

/-- `DeliveryInboxRepository::receive`; whether the event is a duplicate. -/
def receive (message : ℕ) : DeliveryTask Bool := do
  if idOf stream message ≤ 0 then
    pure true
  else
    let existing ← ask (.select message (idOf stream message))
    match existing with
    | some row => receiveRow (idOf stream message) (printOf stream fingerprint message) row
    | none =>
      let inserted ← ask (.insert (idOf stream message) (printOf stream fingerprint message))
      pure !inserted

/-- `NotificationDeliveryConsumer::handle` -/
def handleEvent (message : ℕ) : DeliveryTask DurableDisposition := do
  let id := idOf stream message
  if id ≤ 0 ∨ (stream message).notificationId ≤ 0 ∨ (stream message).userId ≤ 0 then
    pure .term
  else
    let duplicate ← receive stream fingerprint message
    if duplicate then
      pure .ack
    else
      let error ← ask (.dispatch message)
      -- an exception leaves its text, and nothing else
      if error.getD "" ≠ "" then
        let attempts ← ask (.noteAttempt id)
        if 0 ≤ attempts ∧ poisonMaxAttempts ≤ attempts then
          let dead ← ask (.markDeadLettered id)
          pure (if dead then .term else .nak)
        else
          pure .nak
      else
        let settled ← ask (.markDispatched id)
        if settled then
          pure .ack
        else
          Task.throw

/-- A try: whatever throws on the way, the message is delivered again. -/
def handle (message : ℕ) : DeliveryTask Unit := do
  let disposition ← (handleEvent stream fingerprint poisonMaxAttempts message).attempt
  ask (.settle message (disposition.getD .nak))

/-- How far a try has come with its message, and what it knows of the row. -/
inductive Phase where
  | fresh (message : ℕ)
  | missing (message : ℕ)
  | unreadable (message : ℕ)
  /-- the row has another content -/
  | clash (message : ℕ)
  /-- the message is to be dispatched -/
  | bound (message : ℕ)
  | dispatched (message : ℕ)
  | failed (message : ℕ)
  | attempted (message : ℕ) (attempts : ℤ)
  /-- the row takes no more dispatches -/
  | closed (message : ℕ)
  | aborted (message : ℕ)
  | over (message : ℕ)
  deriving DecidableEq, Repr

/-- The message of a try. -/
def Phase.message : Phase → ℕ
  | .fresh m | .missing m | .unreadable m | .clash m | .bound m | .dispatched m | .failed m
  | .attempted m _ | .closed m | .aborted m | .over m => m

/-- What a try knows once it has read the row. -/
def Phase.ofRow (message : ℕ) : Option ReceiptRow → Phase
  | none => .missing message
  | some row =>
    match row.status with
    | none => .unreadable message
    | some .received =>
      if row.fingerprint = printOf stream fingerprint message then .bound message
      else .clash message
    | some .dispatched =>
      if row.fingerprint = printOf stream fingerprint message then .closed message
      else .clash message
    | some _ => .closed message

/-- How far a try has come once an operation is answered, or has thrown. -/
def Phase.after (k : Phase) : (op : Op) → Option op.Ans → Phase
  | .select _ _, some row => Phase.ofRow stream fingerprint k.message row
  | .insert _ _, some _ | .adopt _ _, some _ => .bound k.message
  | .markConflict _ _, some _ | .forceDeadLettered _, some _ => .closed k.message
  | .dispatch _, some error =>
    if error.getD "" ≠ "" then .failed k.message else .dispatched k.message
  | .noteAttempt _, some attempts => .attempted k.message attempts
  | .markDispatched _, some _ | .markDeadLettered _, some _ => .closed k.message
  | .settle _ _, some _ => .over k.message
  | _, none => .aborted k.message

/-- The statements may throw; what the dispatch throws is in its answer. -/
def fallible : Op → Bool
  | .dispatch _ | .settle _ _ => false
  | _ => true

/-- The tries of the consumer. -/
def workshop :
    Workshop DeliveryInbox Note Phase (Option String) ℕ Op Op.Ans where
  exec := exec
  program := handle stream fingerprint poisonMaxAttempts
  first := .fresh
  after := Phase.after stream fingerprint
  fallible := fallible

end Consumer

/-- The inbox, and the try that is under way. -/
abbrev Consumer := Lane DeliveryInbox Phase ℕ Op Op.Ans

end Delivery

end Sync

end ArgusBackend
