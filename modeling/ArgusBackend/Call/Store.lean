import ArgusBackend.Call.Policy
import ArgusBackend.Library.Rows
import Mathlib.Data.List.Sort

/-!
# The tables of calls and responses

`Db` holds the call table, the response table with its members, and the clock.  `Read` and `Write`
are the statements and transactions of `CallRepository` and `CallResponseRepository`, each of which
acts at once; a write leaves notes about what it did.  `Query` stands for what the engine asks of
the outside, whose answers are free.
-/

namespace ArgusBackend

namespace Call

/-- `CallSchema`, a row of the call table. -/
structure CallRow where
  id : ℕ
  userId : ℤ
  dedupeKey : String
  trigger : CallTrigger
  state : CallState
  reason : String
  parentCallId : ℕ := 0
  urgency : String
  lang : String
  title : String
  summary : String
  openingLine : String
  missedLine : String
  data : CallData
  answeredSession : String := ""
  createdAt : ℤ
  expiresAt : ℤ
  pushedAt : ℤ := 0
  answeredAt : ℤ := 0
  endedAt : ℤ := 0
  pushAfter : ℤ
  deriving DecidableEq

/-- The columns of `idx_call_dedupe`, which is unique. -/
def CallRow.key (r : CallRow) : String × ℤ := (r.dedupeKey, r.userId)

/-- The columns of a new call. -/
structure CallCreateInput where
  userId : ℤ
  dedupeKey : String
  trigger : CallTrigger
  state : CallState
  reason : String
  parentCallId : ℕ := 0
  urgency : String
  lang : String
  title : String
  summary : String
  openingLine : String
  missedLine : String
  data : CallData
  createdAt : ℤ
  expiresAt : ℤ
  pushAfter : ℤ
  deriving DecidableEq

/-- The row an input makes under an id. -/
def CallCreateInput.row (input : CallCreateInput) (id : ℕ) : CallRow where
  id := id
  userId := input.userId
  dedupeKey := input.dedupeKey
  trigger := input.trigger
  state := input.state
  reason := input.reason
  parentCallId := input.parentCallId
  urgency := input.urgency
  lang := input.lang
  title := input.title
  summary := input.summary
  openingLine := input.openingLine
  missedLine := input.missedLine
  data := input.data
  createdAt := input.createdAt
  expiresAt := input.expiresAt
  pushAfter := input.pushAfter

/-- `CallResponseSchema`, a row of the response table. -/
structure ResponseRow where
  id : ℕ
  dedupeKey : String
  kind : String
  environmentId : ℤ
  episodeId : ℤ
  cameraId : ℤ
  strategy : String
  state : ResponseState
  step : ℕ
  stepCount : ℕ
  stepSeconds : ℤ
  stepDeadline : ℤ
  responderId : ℤ := 0
  responderName : String := ""
  verdict : Option ResponseVerdict := none
  verdictBy : ℤ := 0
  verdictByName : String := ""
  verdictAt : ℤ := 0
  data : CallData
  createdAt : ℤ
  updatedAt : ℤ
  deriving DecidableEq

/-- A member of a response: their step, and when they were reached. -/
structure CallResponseMember where
  responseId : ℕ
  userId : ℤ
  step : ℕ
  mode : ResponseMemberMode
  mandatory : Bool
  discreet : Bool
  reachedAt : ℤ := 0
  deriving DecidableEq

/-- The columns of a new member. -/
structure CallResponseMemberInput where
  userId : ℤ
  step : ℕ
  mode : ResponseMemberMode
  mandatory : Bool
  discreet : Bool
  deriving DecidableEq

/-- The columns of a new response. -/
structure CallResponseCreateInput where
  dedupeKey : String
  kind : String
  environmentId : ℤ
  episodeId : ℤ
  cameraId : ℤ
  strategy : String
  stepCount : ℕ
  stepSeconds : ℤ
  stepDeadline : ℤ
  data : CallData
  createdAt : ℤ
  deriving DecidableEq

/-- The calls, one for each user and key. -/
abbrev Calls := Rows CallRow.id CallRow.key

/-- The responses, one for each key. -/
abbrev Responses := Rows ResponseRow.id ResponseRow.dedupeKey

/-- The tables, and the clock of the service. -/
structure Db where
  clock : ℤ
  calls : Calls := .empty
  responses : Responses := .empty
  members : List CallResponseMember := []

/-- What writes and requests leave behind. -/
inductive Note where
  /-- a row entered the ringing state -/
  | rang (id : ℕ) (userId : ℤ) (dedupeKey : String)
  /-- a follow-up was queued; whether its parent rang at that moment -/
  | queued (id parent : ℕ) (parentRinging : Bool)
  /-- a claim took a call -/
  | took (id : ℕ) (session : String)
  /-- a call was declined; how many follow-ups were queued under it -/
  | declined (id followups : ℕ)
  | missed (id : ℕ)
  | cancelled (id : ℕ)
  /-- a claim was answered with `Claimed` -/
  | claimed (id : ℕ) (session : String)
  /-- the member was marked reached -/
  | reached (response : ℕ) (userId : ℤ)
  /-- `reach` handed the member to `consider` -/
  | handed (response : ℕ) (userId : ℤ)
  /-- `respond` handed a member it had marked to `consider` -/
  | called (response : ℕ) (userId : ℤ)
  /-- a sweep entered the step; from then on it is to reach the members of the step -/
  | entered (response step : ℕ)
  /-- `respond` or `verdict` is to reach members -/
  | serving (response : ℕ)
  /-- the sweep that entered the step has reached its members -/
  | escalated (response step : ℕ)
  /-- `respond` has reached its recipients -/
  | responded (response : ℕ) (userIds : List ℤ)
  /-- `verdict` has reached the members -/
  | served (response : ℕ)
  | unanswered (response : ℕ)
  /-- the run of a verdict finished -/
  | judged (response : ℕ) (verdict : ResponseVerdict)
  deriving DecidableEq

/-! ### Reads -/

/-- The statements that only read, and the clock. -/
inductive Read where
  | clock
  | exists_ (dedupeKey : String) (userId : ℤ)
  | findRingingFor (userId now : ℤ)
  | ringStats (userId since : ℤ)
  | findById (id : ℕ)
  | findFollowups (parentId : ℕ)
  | findRinging
  | findStale (answeredBefore createdBefore : ℤ)
  | responseById (id : ℕ)
  | responseByKey (dedupeKey : String)
  | members (responseId : ℕ)
  | member (responseId : ℕ) (userId : ℤ)
  | due (now : ℤ) (limit : ℕ)
  deriving DecidableEq

/-- What each of them answers. -/
abbrev Read.Ans : Read → Type
  | .clock => ℤ
  | .exists_ _ _ => Bool
  | .findRingingFor _ _ => Option CallRow
  | .ringStats _ _ => ℤ × ℤ
  | .findById _ => Option CallRow
  | .findFollowups _ => List CallRow
  | .findRinging => List CallRow
  | .findStale _ _ => List CallRow
  | .responseById _ => Option ResponseRow
  | .responseByKey _ => Option ResponseRow
  | .members _ => List CallResponseMember
  | .member _ _ => Option CallResponseMember
  | .due _ _ => List ResponseRow

namespace Db

variable (db : Db)

/-- The queued calls that wait for another call. -/
def followups (parentId : ℕ) : List CallRow :=
  db.calls.rows.filter fun r => r.parentCallId = parentId ∧ r.state = .queued

/-- Members in the order of their steps, and of their users within a step. -/
def membersOf (responseId : ℕ) : List CallResponseMember :=
  (db.members.filter fun m => m.responseId = responseId).insertionSort fun m m' =>
    m.step < m'.step ∨ (m.step = m'.step ∧ m.userId ≤ m'.userId)

end Db

/-- What a statement reads. -/
def Read.answer (db : Db) : (r : Read) → r.Ans
  | .clock => db.clock
  | .exists_ dedupeKey userId =>
    db.calls.rows.any fun r => r.dedupeKey = dedupeKey ∧ r.userId = userId
  | .findRingingFor userId now =>
    (db.calls.rows.filter fun r =>
      r.userId = userId ∧ r.state = .ringing ∧ now < r.expiresAt).getLast?
  | .ringStats userId since =>
    let rows := db.calls.rows.filter fun r => r.userId = userId ∧ r.parentCallId = 0 ∧
      (r.state = .ringing ∨ r.state = .answered ∨ r.state = .completed ∨ r.state = .missed ∨
        r.state = .declined)
    ((rows.map (·.createdAt)).foldl max 0, (rows.filter fun r => since ≤ r.createdAt).length)
  | .findById id => db.calls.find? id
  | .findFollowups parentId => db.followups parentId
  | .findRinging => db.calls.rows.filter fun r => r.state = .ringing
  | .findStale answeredBefore createdBefore => db.calls.rows.filter fun r =>
    (r.state = .answered ∧ r.answeredAt < answeredBefore) ∨
      (r.state = .injected ∧ r.createdAt < createdBefore)
  | .responseById id => db.responses.find? id
  | .responseByKey dedupeKey => db.responses.rows.find? fun r => r.dedupeKey = dedupeKey
  | .members responseId => db.membersOf responseId
  | .member responseId userId =>
    db.members.find? fun m => m.responseId = responseId ∧ m.userId = userId
  | .due now limit =>
    (db.responses.rows.filter fun r => r.state = .active ∧ r.stepDeadline ≤ now).take limit

/-! ### Writes -/

/-- The statements that write, and the passing of time. -/
inductive Write where
  /-- time passes -/
  | tick (seconds : ℕ)
  | create (row : CallCreateInput)
  | openRinging (row : CallCreateInput) (now : ℤ)
  | pushRingOnce (id : ℕ) (now : ℤ)
  | declineRingingAndCancel (call : CallRow) (now : ℤ)
  | missRingingAndCancel (call : CallRow) (now : ℤ)
  | claim (id : ℕ) (userId : ℤ) (sessionId : String) (now : ℤ)
  | end_ (id : ℕ) (userId : ℤ) (state : CallState) (now : ℤ)
  | closeStaleByIds (ids : List ℕ) (now : ℤ)
  | cancelRingingForKey (dedupeKey : String) (exceptUserId onlyUserId : ℤ) (reason : String)
      (now : ℤ)
  | purgeSettled (createdBefore : ℤ)
  | openResponse (input : CallResponseCreateInput) (members : List CallResponseMemberInput)
  | markReached (responseId : ℕ) (userId now : ℤ)
  | advance (id fromStep toStep : ℕ) (deadline now : ℤ)
  | markUnanswered (id : ℕ) (now : ℤ)
  | attend (id : ℕ) (userId : ℤ) (name : String) (now : ℤ)
  | verdict (id : ℕ) (given : ResponseVerdict) (userId : ℤ) (name : String) (now : ℤ)
  | expire (createdBefore now : ℤ)
  | expireKinds (kinds : List String) (now : ℤ)
  | purgeClosed (updatedBefore : ℤ)

/-- What each of them answers. -/
abbrev Write.Ans : Write → Type
  | .tick _ => Unit
  | .create _ => Option ℕ
  | .openRinging _ _ => Option CallRow
  | .pushRingOnce _ _ => Bool
  | .declineRingingAndCancel _ _ => Bool
  | .missRingingAndCancel _ _ => Bool
  | .claim _ _ _ _ => Option (List CallRow)
  | .end_ _ _ _ _ => Bool
  | .closeStaleByIds _ _ => List ℕ
  | .cancelRingingForKey _ _ _ _ _ => List (ℕ × ℤ)
  | .purgeSettled _ => ℕ
  | .openResponse _ _ => Bool
  | .markReached _ _ _ => Bool
  | .advance _ _ _ _ _ => Bool
  | .markUnanswered _ _ => Bool
  | .attend _ _ _ _ => Bool
  | .verdict _ _ _ _ _ => Bool
  | .expire _ _ => List ℕ
  | .expireKinds _ _ => List ℕ
  | .purgeClosed _ => ℕ

/-! #### Statements of the call table -/

namespace Db

/-- Set the state of the calls that meet a condition, with what else changes. -/
def setCalls (db : Db) (p : CallRow → Bool) (state : CallState) (f : CallRow → CallRow)
    (hid : ∀ r, (f r).id = r.id) (hkey : ∀ r, (f r).key = r.key) : Db :=
  { db with
    calls := db.calls.update p (fun r => { f r with state := state }) (fun r => hid r)
      fun r => hkey r }

variable (db : Db)

/-- `MARK_PUSHED` -/
def markPushed (id : ℕ) (now : ℤ) : Db :=
  { db with
    calls := db.calls.update (fun r => r.id = id ∧ r.state = .ringing)
      (fun r => { r with pushedAt := now }) (fun _ => rfl) fun _ => rfl }

/-- `SETTLE_FOLLOWUPS` -/
def settleFollowups (parentId : ℕ) (state : CallState) (now : ℤ) : Db :=
  db.setCalls (fun r => r.parentCallId = parentId ∧ r.state = .queued) state
    (fun r => { r with endedAt := now }) (fun _ => rfl) fun _ => rfl

/-- Whether a call is the ringing one with an id. -/
def ringing (id : ℕ) (r : CallRow) : Bool := r.id = id ∧ r.state = .ringing

/-- The guard of `CLAIM` and of `DECLINE_RINGING`. -/
def ringingFor (id : ℕ) (userId now : ℤ) (r : CallRow) : Bool :=
  r.id = id ∧ r.userId = userId ∧ r.state = .ringing ∧ now < r.expiresAt

/-- The guard of `CANCEL_RINGING_FOR_KEY`. -/
def ringingForKey (dedupeKey : String) (exceptUserId onlyUserId : ℤ) (r : CallRow) : Bool :=
  r.dedupeKey = dedupeKey ∧ r.state = .ringing ∧ r.userId ≠ exceptUserId ∧
    (onlyUserId = 0 ∨ r.userId = onlyUserId)

/-- Change the responses that meet a condition. -/
def setResponses (p : ResponseRow → Bool) (f : ResponseRow → ResponseRow)
    (hid : ∀ r, (f r).id = r.id) (hkey : ∀ r, (f r).dedupeKey = r.dedupeKey) : Db :=
  { db with responses := db.responses.update p f hid hkey }

/-- The states in which a response is not closed. -/
def open_ (r : ResponseRow) : Bool :=
  r.state = .active ∨ r.state = .attended ∨ r.state = .unanswered ∨ r.state = .confirmed

end Db

/-- `INSERT_MEMBERS` for a new response; a second row of one user is ignored. -/
def insertMembers (responseId : ℕ) : List CallResponseMemberInput → List CallResponseMember
  | [] => []
  | m :: rest =>
    { responseId := responseId, userId := m.userId, step := m.step, mode := m.mode,
      mandatory := m.mandatory, discreet := m.discreet } ::
      (insertMembers responseId rest).filter fun m' => m'.userId ≠ m.userId

/-- The states from which a verdict is recorded. -/
def ResponseVerdict.recordedFrom (verdict : ResponseVerdict) (state : ResponseState) : Bool :=
  match verdict with
  | .real => state = .active ∨ state = .attended ∨ state = .unanswered
  | .falseAlarm => state = .active ∨ state = .attended ∨ state = .unanswered ∨ state = .confirmed

/-- The state of a response after a verdict. -/
def ResponseVerdict.state : ResponseVerdict → ResponseState
  | .real => .confirmed
  | .falseAlarm => .falseAlarm

/-- What a write does. -/
def Write.run (db : Db) : (w : Write) → w.Ans × List Note × Db
  | .tick seconds => ((), [], { db with clock := db.clock + seconds })
  | .create input =>
    match db.calls.insert input.row (fun _ => rfl) with
    | none => (none, [], db)
    | some (r, calls) =>
      (some r.id,
        if r.state = .queued then
          [.queued r.id r.parentCallId (db.calls.rows.any (Db.ringing r.parentCallId))]
        else [],
        { db with calls })
  | .openRinging input now =>
    -- `INSERT_RINGING` inserts nothing while another call of the user rings
    if db.calls.rows.any fun r =>
        r.userId = input.userId ∧ r.state = .ringing ∧ input.createdAt < r.expiresAt then
      (none, [], db)
    else
      match db.calls.insert { input with state := .ringing, parentCallId := 0 }.row
          (fun _ => rfl) with
      | none => (none, [], db)
      | some (r, calls) =>
        let notes := [Note.rang r.id r.userId r.dedupeKey]
        if input.pushAfter ≤ now then
          (some { r with pushedAt := now }, notes, { db with calls }.markPushed r.id now)
        else (some r, notes, { db with calls })
  | .pushRingOnce id now => (db.calls.rows.any (Db.ringing id), [], db.markPushed id now)
  | .declineRingingAndCancel call now =>
    if db.calls.rows.any (Db.ringingFor call.id call.userId now) then
      (true, [.declined call.id (db.followups call.id).length],
        db.setCalls (Db.ringingFor call.id call.userId now) .declined
          (fun r => { r with endedAt := now }) (fun _ => rfl) fun _ => rfl)
    else (false, [], db)
  | .missRingingAndCancel call now =>
    if db.calls.rows.any (Db.ringing call.id) then
      (true, [.missed call.id],
        (db.setCalls (Db.ringing call.id) .missed (fun r => { r with endedAt := now })
          (fun _ => rfl) fun _ => rfl).settleFollowups call.id .missed now)
    else (false, [], db)
  | .claim id userId sessionId now =>
    if db.calls.rows.any (Db.ringingFor id userId now) then
      (some (db.followups id), [.took id sessionId],
        (db.setCalls (Db.ringingFor id userId now) .answered
          (fun r => { r with answeredAt := now, answeredSession := sessionId }) (fun _ => rfl)
          fun _ => rfl).settleFollowups id .injected now)
    else (none, [], db)
  | .end_ id userId state now =>
    let p (r : CallRow) : Bool := r.id = id ∧ r.userId = userId ∧ r.state = .answered
    (db.calls.rows.any p, [],
      db.setCalls p state (fun r => { r with endedAt := now }) (fun _ => rfl) fun _ => rfl)
  | .closeStaleByIds ids now =>
    let p (r : CallRow) : Bool := (r.state = .answered ∨ r.state = .injected) ∧ r.id ∈ ids
    ((db.calls.rows.filter p).map (·.id), [],
      db.setCalls p .completed (fun r => { r with endedAt := now }) (fun _ => rfl) fun _ => rfl)
  | .cancelRingingForKey dedupeKey exceptUserId onlyUserId reason now =>
    let cancelled := db.calls.rows.filter (Db.ringingForKey dedupeKey exceptUserId onlyUserId)
    (cancelled.map fun r => (r.id, r.userId), cancelled.map fun r => .cancelled r.id,
      cancelled.foldl (fun db r => db.settleFollowups r.id .missed now)
        (db.setCalls (Db.ringingForKey dedupeKey exceptUserId onlyUserId) .missed
          (fun r => { r with reason := reason, endedAt := now }) (fun _ => rfl) fun _ => rfl))
  | .purgeSettled createdBefore =>
    let p (r : CallRow) : Bool := r.createdAt < createdBefore ∧ r.state ≠ .ringing ∧
      r.state ≠ .queued ∧ r.state ≠ .answered
    ((db.calls.rows.filter p).length, [], { db with calls := db.calls.delete p })
  | .openResponse input members =>
    match db.responses.insert (fun id =>
        { id := id
          dedupeKey := input.dedupeKey
          kind := input.kind
          environmentId := input.environmentId
          episodeId := input.episodeId
          cameraId := input.cameraId
          strategy := input.strategy
          state := .active
          step := 0
          stepCount := input.stepCount
          stepSeconds := input.stepSeconds
          stepDeadline := input.stepDeadline
          data := input.data
          createdAt := input.createdAt
          updatedAt := input.createdAt }) (fun _ => rfl) with
    | none => (false, [], db)
    | some (r, responses) =>
      (true, [], { db with responses, members := db.members ++ insertMembers r.id members })
  | .markReached responseId userId now =>
    let p (m : CallResponseMember) : Bool :=
      m.responseId = responseId ∧ m.userId = userId ∧ m.reachedAt = 0
    (db.members.any p, if db.members.any p then [.reached responseId userId] else [],
      { db with members := db.members.map fun m => if p m then { m with reachedAt := now } else m })
  | .advance id fromStep toStep deadline now =>
    let p (r : ResponseRow) : Bool := r.id = id ∧ r.state = .active ∧ r.step = fromStep
    (db.responses.rows.any p, if db.responses.rows.any p then [.entered id toStep] else [],
      db.setResponses p (fun r =>
        { r with step := toStep, stepDeadline := deadline, updatedAt := now })
        (fun _ => rfl) fun _ => rfl)
  | .markUnanswered id now =>
    let p (r : ResponseRow) : Bool := r.id = id ∧ r.state = .active
    (db.responses.rows.any p, if db.responses.rows.any p then [.unanswered id] else [],
      db.setResponses p (fun r => { r with state := .unanswered, updatedAt := now })
        (fun _ => rfl) fun _ => rfl)
  | .attend id userId name now =>
    let p (r : ResponseRow) : Bool :=
      r.id = id ∧ (r.state = .active ∨ r.state = .unanswered) ∧ r.responderId = 0
    (db.responses.rows.any p, [],
      db.setResponses p (fun r =>
        { r with state := .attended, responderId := userId, responderName := name,
                 updatedAt := now })
        (fun _ => rfl) fun _ => rfl)
  | .verdict id given userId name now =>
    let p (r : ResponseRow) : Bool := r.id = id ∧ given.recordedFrom r.state
    (db.responses.rows.any p, [],
      db.setResponses p (fun r =>
        { r with
          state := given.state
          verdict := some given
          verdictBy := userId
          verdictByName := name
          verdictAt := now
          responderName := if r.responderId = 0 then name else r.responderName
          responderId := if r.responderId = 0 then userId else r.responderId
          updatedAt := now })
        (fun _ => rfl) fun _ => rfl)
  | .expire createdBefore now =>
    let p (r : ResponseRow) : Bool := Db.open_ r ∧ r.createdAt < createdBefore
    ((db.responses.rows.filter p).map (·.id), [],
      db.setResponses p (fun r => { r with state := .expired, updatedAt := now })
        (fun _ => rfl) fun _ => rfl)
  | .expireKinds kinds now =>
    let p (r : ResponseRow) : Bool := Db.open_ r ∧ r.kind ∈ kinds
    ((db.responses.rows.filter p).map (·.id), [],
      db.setResponses p (fun r => { r with state := .expired, updatedAt := now })
        (fun _ => rfl) fun _ => rfl)
  | .purgeClosed updatedBefore =>
    let p (r : ResponseRow) : Bool := ¬responseOpen r.state ∧ r.updatedAt < updatedBefore
    let purged := (db.responses.rows.filter p).map (·.id)
    (purged.length, [],
      { db with
        responses := db.responses.delete p
        members := db.members.filter fun m => ¬m.responseId ∈ purged })

/-! ### What is outside -/

/-- What the directory says of a user. -/
structure CallRecipient where
  found : Bool := false
  name : String := ""
  lang : String := ""
  active : Bool := true
  deriving DecidableEq

/-- A reminder that becomes a call. -/
structure ScheduledCall where
  id : ℕ
  userId : ℤ
  fireAt : ℤ
  lang : String
  topic : String
  deriving DecidableEq

/-- A notification about a call. -/
structure CallNotice where
  userId : ℤ
  type : String
  title : String
  body : String
  commandId : String
  deriving DecidableEq

/-- What other services are asked. -/
inductive Query where
  | findPreferences (userIds : List ℤ)
  | lookupRecipients (userIds : List ℤ)
  | announceAll (userIds : List ℤ)
  | emit (userId : ℤ) (operation reason : String) (id : ℕ)
  | notify (notice : CallNotice)
  /-- close the room of a call; the answer says whether sync answered and whether it closed -/
  | closeRoom (userId : ℤ) (callId : ℕ) (onlyIfEmpty : Bool)
  | scheduledDue (now : ℤ)
  | markFired (id : ℕ) (now : ℤ)
  /-- whether the process's own counter lets a purge through -/
  | purgeDue (now : ℤ)
  deriving DecidableEq

/-- What each of them answers. -/
abbrev Query.Ans : Query → Type
  | .findPreferences _ => ℤ → Option CallPreference
  | .lookupRecipients _ => ℤ → CallRecipient
  | .announceAll _ => List (Option Bool)
  | .emit _ _ _ _ => Bool
  | .notify _ => Bool
  | .closeRoom _ _ _ => Bool × Bool
  | .scheduledDue _ => List ScheduledCall
  | .markFired _ _ => Bool
  | .purgeDue _ => Bool

/-- What the outside answers, whatever it is asked. -/
structure Env where
  preferences : ℤ → Option CallPreference := fun _ => none
  recipients : ℤ → CallRecipient := fun _ => {}
  heard : List (Option Bool) := []
  accepted : Bool := true
  closed : Bool × Bool := (true, true)
  scheduled : List ScheduledCall := []

/-- What the outside answers. -/
def Query.answer (env : Env) : (q : Query) → q.Ans
  | .findPreferences _ => env.preferences
  | .lookupRecipients _ => env.recipients
  | .announceAll _ => env.heard
  | .emit _ _ _ _ => env.accepted
  | .notify _ => env.accepted
  | .closeRoom _ _ _ => env.closed
  | .scheduledDue _ => env.scheduled
  | .markFired _ _ => env.accepted
  | .purgeDue _ => env.accepted

/-! ### Operations -/

/-- What a task awaits: an answer of the outside, a read or a write.  `note` only leaves a note. -/
inductive Op where
  | ask (q : Query)
  | read (r : Read)
  | write (w : Write)
  | note (n : Note)

/-- What each of them answers. -/
abbrev Op.Ans : Op → Type
  | .ask q => q.Ans
  | .read r => r.Ans
  | .write w => w.Ans
  | .note _ => Unit

/-- The answer of an operation, what is noted of it, and the tables after it. -/
def exec (env : Env) : (op : Op) → Db → op.Ans × List Note × Db
  | .ask q, db => (q.answer env, [], db)
  | .read r, db => (r.answer db, [], db)
  | .write w, db => w.run db
  | .note n, db => ((), [n], db)

end Call

end ArgusBackend
