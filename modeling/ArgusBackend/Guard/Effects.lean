import ArgusBackend.Library.Lanes
import ArgusBackend.Library.Table

/-!
# Effects of the guard

`GuardService::performEffect` carries out one effect of an observation: it plans an intent in the
outbox, checks the hourly budget of the camera, calls the camera or the notification service under
the id of the command, and settles the action row and the outbox row.  The observations of a camera
are served one after the other, and a try may be cut short anywhere.

* `GuardStore` : the outbox, the actions, and what the remote side has taken up;
* `performEffect` : one try;
* `workshop` : the tries of a camera's lane.
-/

namespace ArgusBackend

namespace Guard

/-! ### Vocabulary -/

/-- What an action of the guard does. -/
inductive GuardActionKind where
  | notify | greet | reply | announce | listen | alarm | sirenArm | sirenDisarm
  deriving DecidableEq

/-- The text of a kind, which is a part of the command ids. -/
def guardActionKindToString : GuardActionKind → String
  | .notify => "notify"
  | .greet => "greet"
  | .reply => "reply"
  | .announce => "announce"
  | .listen => "listen"
  | .alarm => "alarm"
  | .sirenArm => "siren_arm"
  | .sirenDisarm => "siren_disarm"

/-- The state of an intent in the outbox. -/
inductive GuardIntentStatus where
  | pending | inFlight | retryableFailed | succeeded | duplicateSucceeded | rejected | conflict
  | indeterminate
  deriving DecidableEq

/-- An intent in such a state is carried on by a later try. -/
def guardIntentStatusIsResumable (status : GuardIntentStatus) : Bool :=
  status = .pending || status = .inFlight || status = .retryableFailed

/-- An intent in such a state is over, and its stored result is the answer of a later try. -/
def guardIntentStatusIsTerminal (status : GuardIntentStatus) : Bool :=
  !guardIntentStatusIsResumable status

/-- The grades of danger. -/
inductive GuardDanger where
  | none | low | medium | high | critical
  deriving DecidableEq

/-- The grade as the number that the levels of the configuration are compared with. -/
def guardDangerRank : GuardDanger → ℕ
  | .none => 0
  | .low => 1
  | .medium => 2
  | .high => 3
  | .critical => 4

/-- The languages that `normalizeLang` leaves. -/
inductive Lang where
  | en | es
  deriving DecidableEq

/-- The tag of a language in the data of a notification. -/
def Lang.toString : Lang → String
  | .en => "en"
  | .es => "es"

/-! ### Notifications -/

/-- The members of a JSON object, with their values as texts. -/
abbrev Data := List (String × String)

/-- A notification in the language and with the detail that its users may see. -/
structure Delivery where
  lang : Lang
  redacted : Bool
  userIds : List ℤ
  title : String
  body : String
  deriving DecidableEq

/-- What is kept in the payload of an intent. -/
structure Payload where
  data : Data
  batches : List Delivery
  deriving DecidableEq

/-- What the notification service is asked to create. -/
structure CreateNotificationsRequest where
  commandId : String
  userIds : List ℤ
  title : String
  body : String
  data : Data
  deriving DecidableEq

/-- The data of one delivery: its language, and no visitor if it is redacted. -/
def localized (data : Data) (delivery : Delivery) : Data :=
  let data := data.filter (fun m => m.1 ≠ "lang") ++ [("lang", delivery.lang.toString)]
  if delivery.redacted then data.filter fun m => m.1 ≠ "visitor" else data

/-- What stands behind the command's id in the id of one of several requests. -/
def suffixOf (lang : Lang) (redacted : Bool) : String :=
  ":" ++ lang.toString ++ if redacted then ":r" else ""

/-- The request of one delivery; it gets a command id of its own unless there is just one. -/
def requestOf (commandId : String) (p : Payload) (delivery : Delivery) :
    CreateNotificationsRequest where
  commandId := if p.batches.length = 1 then commandId
    else commandId ++ suffixOf delivery.lang delivery.redacted
  userIds := delivery.userIds
  title := delivery.title
  body := delivery.body
  data := localized p.data delivery

/-- A user with the language and the detail in which a notification reaches them. -/
structure Recipient where
  userId : ℤ
  lang : Lang
  redacted : Bool
  deriving DecidableEq

/-- The users who get a notification in the same words. -/
structure RecipientBatch where
  lang : Lang
  redacted : Bool
  userIds : List ℤ
  deriving DecidableEq

/-- The audiences, in the order of a `std::map`. -/
def audiences : List (Lang × Bool) := [(.en, false), (.en, true), (.es, false), (.es, true)]

/-- The recipients by language and redaction, without the empty batches. -/
def batchesOf (users : List Recipient) : List RecipientBatch :=
  audiences.filterMap fun audience =>
    let userIds := (users.filter fun u => (u.lang, u.redacted) = audience).map fun u => u.userId
    if userIds = [] then none else some ⟨audience.1, audience.2, userIds⟩

/-- Whom the directory or the roster gives, and the plan for the response. -/
inductive RecipientResolution where
  | unavailable
  | planned (users : List Recipient) (plan : Option String)
  deriving DecidableEq

/-- The words of a notification. -/
structure NoticeText where
  title : String
  body : String

/-- What a notification is made of, before it is put into the words of each batch. -/
structure NotifyContent where
  notice : String
  data : Data
  deriving DecidableEq

/-- The levels, the budget and the delays that the guard is configured with. -/
structure GuardConfig where
  notifyLevel : ℕ := 2
  announceLevel : ℕ := 3
  alarmLevel : ℕ := 4
  armSiren : Bool := false
  greetEnabled : Bool := false
  maxActionsPerHour : ℤ := 0
  retryBaseMs : ℤ := 1000
  retryMaxMs : ℤ := 60000
  /-- which clients the service has -/
  actions : Bool := true
  notifications : Bool := true
  /-- `guard_copy::render`, of a notice whose visitor may be left out -/
  render : String → Lang → Bool → NoticeText := fun notice _ _ => ⟨notice, ""⟩

/-! ### The store -/

/-- What a try to carry out an action reports. -/
structure EffectResult where
  status : GuardIntentStatus := .pending
  authorized : Bool := false
  accepted : Bool := false
  pending : Bool := false
  indeterminate : Bool := false
  executed : Bool := false
  unattended : Bool := false
  detail : String := ""
  retryAt : ℤ := 0
  deriving DecidableEq

/-- An intent: the state of a command, its result, and what it delivers. -/
structure OutboxRow where
  commandId : String
  status : GuardIntentStatus := .pending
  detail : String := ""
  response : Option EffectResult := none
  payload : Option Payload := none
  attempts : ℕ := 0
  nextAttemptAt : ℤ := 0
  deriving DecidableEq

/-- The record of an action, which the hourly budget counts. -/
structure ActionRow where
  commandId : String
  cameraId : ℤ
  kind : GuardActionKind
  status : GuardIntentStatus
  createdAt : ℤ
  deriving DecidableEq

/-- The two tables of the guard, and what the remote side has done of its commands. -/
structure GuardStore where
  outbox : Table String OutboxRow := ∅
  actions : List ActionRow := []
  /-- the commands that the remote side has carried out, and those it has under way -/
  carriedOut : List String := []
  underWay : List String := []

/-- What a command id is made of before its sequence number. -/
structure CommandIdParts where
  correlation : List Char
  kind : List Char

/-- The parts around the last two colons. -/
def splitCommandId (commandId : String) : Option CommandIdParts :=
  let sequence := commandId.toList.reverse.takeWhile (· ≠ ':')
  let rest := commandId.toList.reverse.dropWhile (· ≠ ':')
  let kind := rest.tail.takeWhile (· ≠ ':')
  let correlation := (rest.tail.dropWhile (· ≠ ':')).tail
  if sequence ≠ [] ∧ sequence.all Char.isDigit ∧ kind ≠ [] ∧ correlation ≠ [] then
    some ⟨correlation.reverse, kind.reverse⟩
  else none

/-- `LIKE 'start%'`, which does not tell ASCII letters of the two cases apart. -/
def likePrefix (start : List Char) (text : String) : Bool :=
  (start.map Char.toLower).isPrefixOf (text.toList.map Char.toLower)

/-- The kinds that the hourly budget counts. -/
def countedKind (kind : GuardActionKind) : Bool :=
  kind = .announce || kind = .alarm || kind = .sirenArm || kind = .notify

/-- The states in which the hourly budget counts an action. -/
def countedStatus (status : GuardIntentStatus) : Bool :=
  status = .succeeded || status = .duplicateSucceeded || status = .inFlight ||
    status = .pending || status = .indeterminate

/-- Whether a remote call leaves its command under way or carried out. -/
inductive Effect where
  | nothing | begun | done
  deriving DecidableEq

namespace GuardStore

variable (s : GuardStore)

/-- The remote side has carried the command out or still has it under way. -/
def Holds (commandId : String) : Prop := commandId ∈ s.carriedOut ∨ commandId ∈ s.underWay

instance (commandId : String) : Decidable (s.Holds commandId) := instDecidableOr

/-- The row with the least id that has the prefix, other than the one that was asked for. -/
def sibling (parts : CommandIdParts) (commandId : String) : Option OutboxRow :=
  let start := parts.correlation ++ ':' :: parts.kind ++ [':']
  (s.outbox.entries.filter fun e => likePrefix start e.1 && e.1 ≠ commandId).foldl
    (fun least e =>
      match least with
      | none => s.outbox.lookup e.1
      | some row => if e.1 < row.commandId then s.outbox.lookup e.1 else some row) none

/-- `INSERT OR IGNORE` of an intent. -/
def insertOutbox (commandId : String) : GuardStore :=
  match s.outbox.lookup commandId with
  | some _ => s
  | none => { s with outbox := s.outbox.insert commandId { commandId } }

/-- The payload is set once; whether the row now has this payload. -/
def setOutboxPayload (commandId : String) (p : Payload) : Bool × GuardStore :=
  match s.outbox.lookup commandId with
  | none => (false, s)
  | some row =>
    if row.payload = none ∨ row.payload = some p then
      (true, { s with outbox := s.outbox.insert commandId { row with payload := some p } })
    else (false, s)

/-- What a camera has spent of its budget since a moment. -/
def effectsSince (cameraId since : ℤ) : ℕ :=
  s.actions.countP fun a =>
    a.cameraId = cameraId && countedKind a.kind && countedStatus a.status && since ≤ a.createdAt

/-- The record of an action, which a later one of the same command brings up to date. -/
def insertAction (action : ActionRow) : GuardStore :=
  if s.actions.any fun a => a.commandId = action.commandId then
    { s with
      actions := s.actions.map fun a =>
        if a.commandId = action.commandId then { a with status := action.status } else a }
  else { s with actions := s.actions ++ [action] }

/-- The result of a try is stored in its row; whether there is one. -/
def updateOutbox (commandId : String) (result : EffectResult) : Bool × GuardStore :=
  match s.outbox.lookup commandId with
  | none => (false, s)
  | some row =>
    (true, { s with
      outbox := s.outbox.insert commandId { row with
        status := result.status, detail := result.detail, response := some result
        attempts := row.attempts + 1, nextAttemptAt := result.retryAt } })

/-- What a remote call leaves under a command's id. -/
def taken (commandId : String) : Effect → GuardStore
  | .nothing => s
  | .begun => { s with underWay := commandId :: s.underWay }
  | .done => { s with carriedOut := commandId :: s.carriedOut }

/-- Commands under way that came to nothing. -/
def letGo (commandIds : List String) : GuardStore :=
  { s with underWay := s.underWay.filter fun id => id ∉ commandIds }

end GuardStore

/-! ### What a try awaits -/

/-- How the camera service answers a command. -/
inductive CameraCommandOutcome where
  | unspecified | succeeded | duplicateSucceeded | inFlight | retryableFailed | rejected | conflict
  | indeterminate
  deriving DecidableEq

/-- The answer to a command, or how the transport failed. -/
structure CameraCommandResult where
  transportOk : Bool := true
  /-- the transport failed with UNAVAILABLE or DEADLINE_EXCEEDED -/
  unavailable : Bool := false
  outcome : CameraCommandOutcome := .succeeded
  /-- of the answer, or of the transport that failed -/
  detail : String := ""
  deriving DecidableEq

namespace CameraCommandResult

variable (ack : CameraCommandResult)

/-- The camera has carried the command out, now or before. -/
def succeeded : Bool :=
  ack.transportOk && (ack.outcome = .succeeded || ack.outcome = .duplicateSucceeded)

/-- The camera still has the command under way. -/
def inFlight : Bool := ack.transportOk && ack.outcome = .inFlight

/-- The command may be sent once more. -/
def retryable : Bool :=
  if ack.transportOk then ack.outcome = .retryableFailed else ack.unavailable

end CameraCommandResult

/-- The state in which the answer of a camera leaves an intent. -/
def cameraIntentStatus (ack : CameraCommandResult) : GuardIntentStatus :=
  if ack.succeeded then
    if ack.outcome = .duplicateSucceeded then .duplicateSucceeded else .succeeded
  else if ack.inFlight then .inFlight
  else if ack.outcome = .indeterminate then .indeterminate
  else if ack.outcome = .conflict then .conflict
  else if ack.outcome = .rejected then .rejected
  else if ack.retryable then .retryableFailed
  else .indeterminate

/-- How the notification service answers. -/
inductive NotificationRpcOutcome where
  | success | conflict | rejected | unavailable
  deriving DecidableEq

/-- The answer of the notification service, and how many notifications it created. -/
structure NotificationCreateResult where
  outcome : NotificationRpcOutcome := .success
  created : ℕ := 0
  deriving DecidableEq

/-- What `performEffect` awaits: statements, the clock and the two remote services. -/
inductive Op where
  /-- the next number of `gCommandSequence`, from which it starts anew after a crash -/
  | drawSequence
  | selectOutbox (commandId : String)
  | selectSibling (parts : CommandIdParts) (commandId : String)
  | insertOutbox (commandId : String)
  | nowMillis
  | effectsSince (cameraId since : ℤ)
  | camera (commandId : String) (kind : GuardActionKind)
  | recipientsFor (data : Data)
  | setOutboxPayload (commandId : String) (p : Payload)
  | createNotifications (commandId : String) (request : CreateNotificationsRequest)
  | insertAction (action : ActionRow)
  | updateOutbox (commandId : String) (result : EffectResult)

/-- What each of them answers. -/
@[reducible] def Op.Ans : Op → Type
  | .drawSequence | .effectsSince _ _ => ℕ
  | .selectOutbox _ | .selectSibling _ _ => Option OutboxRow
  | .nowMillis => ℤ
  | .camera _ _ => CameraCommandResult
  | .recipientsFor _ => RecipientResolution
  | .createNotifications _ _ => NotificationCreateResult
  | .setOutboxPayload _ _ | .updateOutbox _ _ => Bool
  | _ => Unit

/-- What is left behind: a remote call under a command's id, a request of a notification, the
settling of an outbox row for good. -/
inductive Note where
  | called (commandId : String)
  | notified (commandId : String) (request : CreateNotificationsRequest)
  | settled (commandId : String)
  deriving DecidableEq

/-- What the outside answers. -/
structure Outside where
  sequence : ℕ := 0
  nowMs : ℤ := 0
  ack : CameraCommandResult := {}
  recipients : RecipientResolution := .unavailable
  created : NotificationCreateResult := {}
  /-- what a call that was not answered with a success left at the remote side -/
  effect : Effect := .nothing
  /-- what the remote side has let go in the meantime -/
  gone : List String := []

/-- What a call leaves at the remote side goes with its answer. -/
def Outside.cameraEffect (env : Outside) : Effect :=
  if env.ack.succeeded then .done else if env.ack.inFlight then .begun else env.effect

/-- A notification service that reports success has done what it was asked. -/
def Outside.notificationEffect (env : Outside) : Effect :=
  if env.created.outcome = .success then .done else env.effect

/-- The answer of an operation, what is noted of it, and the tables after it. -/
def execNow (env : Outside) (op : Op) (s : GuardStore) : op.Ans × List Note × GuardStore :=
  match op with
  | .drawSequence => (env.sequence, [], s)
  | .selectOutbox commandId => (s.outbox.lookup commandId, [], s)
  | .selectSibling parts commandId => (s.sibling parts commandId, [], s)
  | .insertOutbox commandId => ((), [], s.insertOutbox commandId)
  | .nowMillis => (env.nowMs, [], s)
  | .effectsSince cameraId since => (s.effectsSince cameraId since, [], s)
  | .camera commandId _ => (env.ack, [.called commandId], s.taken commandId env.cameraEffect)
  | .recipientsFor _ => (env.recipients, [], s)
  | .setOutboxPayload commandId p =>
    ((s.setOutboxPayload commandId p).1, [], (s.setOutboxPayload commandId p).2)
  | .createNotifications commandId request =>
    (env.created, [.called commandId, .notified commandId request],
      s.taken commandId env.notificationEffect)
  | .insertAction action => ((), [], s.insertAction action)
  | .updateOutbox commandId result =>
    ((s.updateOutbox commandId result).1,
      if guardIntentStatusIsTerminal result.status then [.settled commandId] else [],
      (s.updateOutbox commandId result).2)

/-- An operation, once what had gone on in the meantime is let go. -/
def exec (env : Outside) (op : Op) (s : GuardStore) : op.Ans × List Note × GuardStore :=
  execNow env op (s.letGo env.gone)

/-- A task of the guard. -/
abbrev GuardTask := Task Op Op.Ans

/-- Await an operation. -/
def ask (op : Op) : GuardTask op.Ans := Task.call op

/-! ### One try -/

/-- The action that is asked for. -/
structure EffectInput where
  kind : GuardActionKind
  danger : GuardDanger
  cameraId : ℤ
  now : ℤ
  correlationId : String
  sequence : ℕ := 0
  greetingEnabled : Bool := false
  replyRequested : Bool := false
  notifyContent : NotifyContent := ⟨"", []⟩
  deriving DecidableEq

/-- The id of a command: of its correlation and kind when it has one, else of a new number. -/
def makeCommandId (input : EffectInput) : GuardTask String := do
  let kind := guardActionKindToString input.kind
  if input.correlationId ≠ "" then
    pure (input.correlationId ++ ":" ++ kind ++ ":" ++ toString input.sequence)
  else
    let sequence ← ask .drawSequence
    pure (toString input.cameraId ++ ":" ++ toString input.now ++ ":" ++ kind ++ ":" ++
      toString sequence)

/-- The kinds whose intents may have been numbered otherwise. -/
def renumberedKind (parts : CommandIdParts) : Bool :=
  let kind := String.ofList parts.kind
  kind = "notify" || kind = "announce" || kind = "alarm" || kind = "siren_arm"

/-- The row of an intent that was numbered otherwise. -/
def adopt (commandId : String) : GuardTask (Option OutboxRow) := do
  match splitCommandId commandId with
  | some parts =>
    if renumberedKind parts then
      ask (.selectSibling parts commandId)
    else
      pure none
  | none => pure none

/-- The row of an intent: one that exists, one of an older command id, or a new one. -/
def planIntent (commandId : String) : GuardTask (Option OutboxRow) := do
  let row ← ask (.selectOutbox commandId)
  match row with
  | some row => pure (some row)
  | none =>
    let legacy ← adopt commandId
    match legacy with
    | some row => pure (some row)
    | none =>
      ask (.insertOutbox commandId)
      ask (.selectOutbox commandId)

/-- Whether an action may be carried out, and why. -/
structure GuardActionDecision where
  authorized : Bool
  reason : String

variable (config : GuardConfig)

/-- The policy: the level that a kind of action asks for, and what else it depends on. -/
def authorize (input : EffectInput) : GuardActionDecision :=
  let rank := guardDangerRank input.danger
  match input.kind with
  | .notify =>
    if rank < config.notifyLevel then ⟨false, "below_notify_level"⟩ else ⟨true, "notify_level"⟩
  | .announce =>
    if rank < config.announceLevel then ⟨false, "below_announce_level"⟩
    else ⟨true, "announce_level"⟩
  | .alarm =>
    if rank < config.alarmLevel then ⟨false, "below_alarm_level"⟩ else ⟨true, "alarm_level"⟩
  | .sirenArm =>
    if config.armSiren = false then ⟨false, "siren_disabled"⟩
    else if rank < config.alarmLevel then ⟨false, "below_alarm_level"⟩
    else ⟨true, "siren_lease"⟩
  | .sirenDisarm => ⟨true, "safety_disarm"⟩
  | .greet =>
    if config.greetEnabled = false ∨ input.greetingEnabled = false then ⟨false, "dialogue_disabled"⟩
    else if guardDangerRank .high ≤ rank then ⟨false, "hard_floor"⟩
    else ⟨true, "dialogue"⟩
  | .reply =>
    if config.greetEnabled = false ∨ input.replyRequested = false then ⟨false, "dialogue_disabled"⟩
    else if guardDangerRank .high ≤ rank then ⟨false, "hard_floor"⟩
    else ⟨true, "dialogue"⟩
  | .listen =>
    if config.greetEnabled = false then ⟨false, "dialogue_disabled"⟩ else ⟨true, "dialogue"⟩

/-- What may be done without the budget. -/
def allowedNow (input : EffectInput) : GuardActionDecision :=
  if (authorize config input).authorized = true ∧ input.kind ≠ .notify ∧ config.actions = false then
    ⟨false, "camera_unavailable"⟩
  else authorize config input

/-- The actions that the hourly budget may stop. -/
def budgeted (input : EffectInput) : Bool :=
  0 < input.cameraId && (input.kind = .notify || input.kind = .announce || input.kind = .alarm ||
    input.kind = .sirenArm)

/-- The check of the hourly budget. -/
def withinBudget (input : EffectInput) (decision : GuardActionDecision) :
    GuardTask GuardActionDecision := do
  if decision.authorized = true ∧ budgeted input = true ∧ 0 < config.maxActionsPerHour then
    -- the rows of this command's earlier tries are counted as well
    let used ← ask (.effectsSince input.cameraId (input.now - 3600))
    if config.maxActionsPerHour ≤ used then
      pure ⟨false, "hourly_cap"⟩
    else
      pure decision
  else
    pure decision

/-- What became of the deliveries of a notification. -/
inductive EffectStatus where
  | succeeded | rejected | indeterminate | inFlight | retryableFailed | noRecipients
  deriving DecidableEq

/-- The loop over the deliveries. -/
def deliver (commandId : String) (p : Payload) : List Delivery → GuardTask EffectStatus
  | [] => pure .succeeded
  | delivery :: rest => do
    let result ← ask (.createNotifications commandId (requestOf commandId p delivery))
    if result.outcome = .conflict ∨ result.outcome = .rejected then
      pure .rejected
    else if result.outcome = .unavailable ∨ result.created ≠ delivery.userIds.length then
      pure .retryableFailed
    else
      deliver commandId p rest

/-- A payload with someone to deliver to in each of its batches. -/
def usable (p : Payload) : Bool :=
  p.batches ≠ [] && p.batches.all fun delivery => delivery.userIds ≠ []

/-- What a notification delivers to its users. -/
def payloadOf (content : NotifyContent) (users : List Recipient) (plan : Option String) : Payload where
  data :=
    match plan with
    | none => content.data
    -- the plan takes the place of the response
    | some plan => content.data.filter (fun m => m.1 ≠ "response") ++ [("response", plan)]
  batches := (batchesOf users).map fun batch =>
    let text := config.render content.notice batch.lang batch.redacted
    ⟨batch.lang, batch.redacted, batch.userIds, text.title, text.body⟩

/-- `notify`; an observation's notice is not a panic, and the rows about its dispatch are left
out. -/
def notify (intent : OutboxRow) (content : NotifyContent) : GuardTask EffectStatus := do
  if config.notifications = false then
    pure .retryableFailed
  else
    match intent.payload with
    | some p =>
      if usable p then
        deliver intent.commandId p p.batches
      else
        pure .retryableFailed
    | none =>
      let resolution ← ask (.recipientsFor content.data)
      match resolution with
      | .unavailable => pure .retryableFailed
      | .planned users plan =>
        let p := payloadOf config content users plan
        if p.batches = [] then
          pure .noRecipients
        else
          let persisted ← ask (.setOutboxPayload intent.commandId p)
          if persisted then
            deliver intent.commandId p p.batches
          else
            pure .retryableFailed

/-- The result of a notification. -/
def notifyResult : EffectStatus → EffectResult
  | .succeeded => { status := .succeeded, accepted := true, detail := "notified" }
  | .rejected => { status := .rejected, detail := "notification_rejected" }
  | .indeterminate =>
    { status := .indeterminate, indeterminate := true, detail := "notification_indeterminate" }
  | .inFlight => { status := .inFlight, pending := true, detail := "notification_in_flight" }
  | .retryableFailed =>
    { status := .retryableFailed, pending := true, detail := "notification_failed" }
  | .noRecipients => { status := .rejected, unattended := true, detail := "no_recipients" }

/-- The result of a command to a camera. -/
def applyCamera (ack : CameraCommandResult) : EffectResult :=
  let status := cameraIntentStatus ack
  { status
    accepted := status = .succeeded || status = .duplicateSucceeded
    pending := guardIntentStatusIsResumable status
    indeterminate := status = .indeterminate
    detail := if ack.transportOk ∧ ack.detail = "" then "ok" else ack.detail }

/-- The effect itself. -/
def execute (intent : OutboxRow) (input : EffectInput) : GuardTask EffectResult := do
  if input.kind = .notify then
    let sent ← notify config intent input.notifyContent
    pure { notifyResult sent with authorized := true, executed := true }
  else
    let ack ← ask (.camera intent.commandId input.kind)
    pure { applyCamera ack with authorized := true, executed := true }

/-- When a try may be repeated: the delay doubles with every attempt, up to its maximum. -/
def retryBackoffAt (attempts : ℕ) (nowMs : ℤ) : ℤ :=
  let delay := config.retryBaseMs * 2 ^ min (attempts - 1) 16
  let delay := if 0 < config.retryMaxMs then min delay config.retryMaxMs else delay
  nowMs + max delay 1

/-- What is recorded of a result that stays open. -/
def resumed (intent : OutboxRow) (nowMs : ℤ) (result : EffectResult) : EffectResult :=
  { result with
    pending := result.pending || guardIntentStatusIsResumable result.status
    retryAt := if result.status = .inFlight ∨ result.status = .retryableFailed then
        retryBackoffAt config intent.attempts nowMs
      else result.retryAt }

/-- The last writes of a try. -/
def settle (intent : OutboxRow) (input : EffectInput) (result : EffectResult) :
    GuardTask EffectResult := do
  ask (.insertAction ⟨intent.commandId, input.cameraId, input.kind, result.status, input.now⟩)
  let updated ← ask (.updateOutbox intent.commandId result)
  if updated then
    pure result
  else
    Task.throw

/-- An intent that is not settled is carried out, unless it is too early. -/
def attempt (intent : OutboxRow) (input : EffectInput) : GuardTask EffectResult := do
  let nowMs ← ask .nowMillis
  if (intent.status = .inFlight ∨ intent.status = .retryableFailed) ∧ nowMs < intent.nextAttemptAt then
    pure { status := intent.status, executed := true, pending := true
           retryAt := intent.nextAttemptAt, detail := intent.detail }
  else
    let decision ← withinBudget config input (allowedNow config input)
    if decision.authorized then
      let result ← execute config intent input
      settle intent input (resumed config intent nowMs result)
    else
      settle intent input { status := .rejected, detail := decision.reason }

/-- A try to carry an action out: the stored result of an intent that is over, else the action
itself. -/
def performEffect (input : EffectInput) : GuardTask EffectResult := do
  let requestedId ← makeCommandId input
  let intent ← planIntent requestedId
  match intent with
  | none => pure { status := .rejected, detail := "intent_unavailable" }
  | some intent =>
    if guardIntentStatusIsTerminal intent.status then
      pure (intent.response.getD { status := intent.status, detail := intent.detail })
    else
      attempt config intent input

/-- How far a try has come. -/
inductive Phase where
  | fresh
  /-- this is the row of its intent -/
  | planned (row : OutboxRow)
  /-- the budget is used up -/
  | capped (row : OutboxRow)
  | settled
  deriving DecidableEq

/-- How far a try has come once an operation is answered, or has thrown. -/
def Phase.after (k : Phase) : (op : Op) → Option op.Ans → Phase
  | .selectOutbox _, some (some row) => .planned row
  | .selectSibling _ _, some (some row) => .planned row
  | .effectsSince _ _, some used =>
    match k with
    | .planned row => if config.maxActionsPerHour ≤ used then .capped row else k
    | _ => k
  | .setOutboxPayload _ p, some true =>
    match k with
    | .planned row => .planned { row with payload := some p }
    | _ => k
  | .updateOutbox _ _, some _ => .settled
  | _, _ => k

/-- The tries of a camera's observations; whatever is awaited may throw. -/
def workshop : Workshop GuardStore Note Phase Outside EffectInput Op Op.Ans where
  exec := exec
  program input := do
    let _ ← performEffect config input
    pure ()
  first _ := .fresh
  after := Phase.after config
  fallible _ := true

end Guard

end ArgusBackend
