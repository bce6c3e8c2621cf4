import ArgusBackend.Call.Store
import ArgusBackend.Library.Tasks

/-!
# The call engine

The requests of `CallEngine` as tasks: each awaits one statement, transaction or outside answer
after the other, and decides in memory in between.  `program` gives the task of a request, and
`Step` is a step of the engine at work: any number of requests that take turns in any order, any of which
may see an operation throw or die with the process.
-/

namespace ArgusBackend

namespace Call

/-- What the words of a call are made from. -/
structure CallCopyInput where
  trigger : CallTrigger
  lang : String
  data : CallData
  userName : String
  now : ℤ

/-- The words of a call and of the notices about it. -/
structure CallCopy where
  title : String := ""
  summary : String := ""
  openingLine : String := ""
  missedTitle : String := ""
  missedLine : String := ""
  followupLine : String := ""
  deriving DecidableEq

/-- Why the members of a response are called. -/
inductive ResponseReach where
  | nextStep
  | worse
  | confirmed
  deriving DecidableEq

/-- The configuration of the engine, and the texts and tables it takes from elsewhere. -/
structure CallEngine where
  enabled : Bool := true
  callGapS : ℤ := 300
  maxCallsPerHour : ℤ := 4
  answeredStaleS : ℤ := 7200
  retentionDays : ℤ := 30
  scheduledLateS : ℤ := 900
  fallbackLang : String := "es"
  notifier : Bool := true
  /-- `call_copy::render` -/
  render : CallCopyInput → CallCopy
  localTime : ℤ → ℤ × ℕ := fun _ => (12, 0)
  /-- `response_copy::escalationBody` -/
  escalationBody : String → String → ResponseReach → String → String := fun _ s _ _ => s
  /-- `response_copy::contacts` -/
  contacts : String → ResponseRow → Bool → String × String := fun _ _ _ => ("", "")
  /-- `notification_kind::moduleOf` -/
  moduleOf : String → String := fun kind => kind
  /-- the response kinds among `kModuleKinds` of a module -/
  responseKinds : String → List String := fun _ => []

/-- An hour in seconds. -/
def kHourS : ℤ := 3600

/-- The seconds after which a response is over. -/
def kResponseLifetimeS : ℤ := 2 * kHourS

/-- How many responses one sweep looks after. -/
def kResponseBatch : ℕ := 50

/-- A task of the engine. -/
abbrev Io := Task Op Op.Ans

/-- Await an answer of another service. -/
def ask (q : Query) : Io q.Ans := Task.call (Op.ask q)

/-- Await a `SELECT` or the clock. -/
def read (r : Read) : Io r.Ans := Task.call (Op.read r)

/-- Await a statement that writes. -/
def write (w : Write) : Io w.Ans := Task.call (Op.write w)

/-- Note something for the claims. -/
def note (n : Note) : Io Unit := Task.call (Op.note n)

/-! ### Requests and outcomes -/

/-- What users are to be called about. -/
structure CallRequest where
  candidate : CallCandidate
  userIds : List ℤ
  notificationExists : Bool := false
  members : List CallResponseMember := []

/-- What became of a request for one user. -/
inductive CallResolution where
  | rang
  | queued
  | injected
  | notified
  | dropped
  deriving DecidableEq

/-- What is reported for one user. -/
structure CallUserOutcome where
  userId : ℤ
  resolution : CallResolution := .dropped
  reason : String := ""
  callId : ℕ := 0
  deriving DecidableEq

/-- What `prepareUser` decides for a user, before anyone is rung. -/
structure PreparedCall where
  outcome : CallUserOutcome
  settled : Bool := true
  verdict : CallVerdict := {}
  askedReminder : Bool := false
  lang : String := ""
  copy : CallCopy := {}
  stored : CallData := {}
  row : Option CallCreateInput := none
  ringing : Option CallRow := none

/-- How a claim of a ringing call is answered. -/
inductive CallClaimStatus where
  | claimed
  | taken
  | expired
  | notFound
  deriving DecidableEq

/-- The answer to a claim, with the lines to be spoken. -/
structure CallClaimOutcome where
  status : CallClaimStatus := .notFound
  openingLine : String := ""
  laterLines : List String := []
  deriving DecidableEq

/-- How a session says that its call has ended. -/
inductive CallEndReport where
  | completed
  | declined
  | failed
  deriving DecidableEq

/-- How the end of a call is answered. -/
inductive CallEndStatus where
  | ended
  | taken
  | expired
  | notFound
  deriving DecidableEq

/-- What is left of a list of ids: the positive ones, each once. -/
def distinctIds : List ℤ → List ℤ
  | [] => []
  | userId :: rest =>
    if 0 < userId then userId :: (distinctIds rest).filter fun id => id ≠ userId
    else distinctIds rest

namespace CallEngine

variable (e : CallEngine)

/-- The language of a user; one that is not spoken falls back. -/
def langFor (preferred : String) : String :=
  if preferred = "es" ∨ preferred = "en" then preferred else e.fallbackLang

/-- The line a call gets in another call or in a notice. -/
def followupLine (call : CallRow) (lang : String) (now : ℤ) : String :=
  (e.render { trigger := call.trigger, lang := lang, data := call.data, userName := "",
              now := now }).followupLine

/-! ### Ending a call -/

/-- A call that was not taken, and whether its user is told. -/
structure MissedInput where
  call : CallRow
  cancelReason : String
  now : ℤ
  notify : Bool := true

/-- `call_copy::joinFollowups` -/
def joinFollowups (opening : String) (followups : List String) : String :=
  followups.foldl (fun line followup =>
    if followup = "" then line
    else if line = "" then followup else line ++ " " ++ followup) opening

/-- A ringing call is missed; its device stops ringing, and the user is told with its followups. -/
def settleMissed (input : MissedInput) : Io Unit := do
  let call := input.call
  let followups ← read (.findFollowups call.id)
  if ← write (.missRingingAndCancel call input.now) then
    let _ ← ask (.emit call.userId "call_cancel" input.cancelReason call.id)
    if input.notify ∧ e.notifier then
      let lines := followups.map fun followup => e.followupLine followup call.lang input.now
      let _ ← ask (.notify
        { userId := call.userId
          type := "call"
          title := call.data.callMissedTitle
          body := joinFollowups call.missedLine lines
          commandId := "call-missed:call-" ++ toString call.id })

/-- A ringing call gives way to a worse one, which takes its lines over. -/
def supersedeRinging (parent : CallRow) (now : ℤ) : Io (List String) := do
  let followups ← read (.findFollowups parent.id)
  let lines := e.followupLine parent parent.lang now ::
    followups.map fun followup => e.followupLine followup parent.lang now
  e.settleMissed { call := parent, cancelReason := "superseded", now := now, notify := false }
  pure lines

/-- The ringing calls of a response that are cancelled, of one user or of all but one. -/
structure CancelInput where
  response : ResponseRow
  exceptUserId : ℤ
  onlyUserId : ℤ
  reason : String
  now : ℤ

/-- Ringing calls of a response are cancelled, and their devices stop. -/
def cancelRinging (input : CancelInput) : Io Unit := do
  let cancelled ← write (.cancelRingingForKey input.response.dedupeKey input.exceptUserId
    input.onlyUserId input.reason input.now)
  Task.each (fun call => do
    let _ ← ask (.emit call.2 "call_cancel" input.reason call.1)) cancelled

/-! ### Considering a candidate -/

/-- One user of a request, with what is known of them. -/
structure ConsiderUserInput where
  request : CallRequest
  userId : ℤ
  recipient : CallRecipient
  preference : CallPreference
  now : ℤ
  member : Option CallResponseMember := none

/-- What is to be done for a user: nothing, a notification, a call, or a line in one they are in. -/
def prepareUser (input : ConsiderUserInput) : Io PreparedCall := do
  let candidate := input.request.candidate
  let userId := input.userId
  if input.recipient.found ∧ ¬input.recipient.active then
    pure { outcome := { userId := userId, reason := "inactive" } }
  else
    let alreadyCalled ← read (.exists_ candidate.dedupeKey userId)
    let ringing ← read (.findRingingFor userId input.now)
    let stats ← read (.ringStats userId (input.now - kHourS))
    let clock := e.localTime input.now
    let verdict := CallPolicy.decide
      { trigger := candidate.trigger
        critical := candidate.critical
        preference := input.preference
        localHour := clock.1
        localWeekday := clock.2
        now := input.now
        environmentId := candidate.environmentId
        alreadyCalled := alreadyCalled
        ringing := ringing.isSome
        lastCallAt := stats.1
        callsLastHour := stats.2
        limits := { enabled := e.enabled, callGapS := e.callGapS,
                    maxCallsPerHour := e.maxCallsPerHour }
        planNotify := input.member.any fun m => m.mode = .notify
        mandatory := input.member.any fun m => m.mandatory }
    let lang := e.langFor
      (if input.preference.lang ≠ "" then input.preference.lang
       else if input.recipient.lang ≠ "" then input.recipient.lang else candidate.lang)
    let stored :=
      if input.member.any fun m => m.discreet then { candidate.data with discreet := true }
      else candidate.data
    let copy := e.render { trigger := candidate.trigger, lang := lang, data := stored,
                           userName := input.recipient.name, now := input.now }
    let stored := { stored with callMissedTitle := copy.missedTitle }
    let askedReminder := candidate.trigger = .assistant ∧ verdict.reason = "trigger_off"
    pure
      { outcome := { userId := userId, reason := verdict.reason }
        settled := verdict.decision = .drop ∧ ¬askedReminder
        verdict := verdict
        askedReminder := askedReminder
        lang := lang
        copy := copy
        stored := stored
        row := some
          { userId := userId
            dedupeKey := candidate.dedupeKey
            trigger := candidate.trigger
            state := .ringing
            reason := verdict.reason
            urgency := if candidate.urgency = "" then "active" else candidate.urgency
            lang := lang
            title := copy.title
            summary := copy.summary
            openingLine := copy.openingLine
            missedLine := copy.missedLine
            data := stored
            createdAt := input.now
            expiresAt := input.now + input.preference.ringSecondsClamped
            pushAfter := input.now + input.preference.pushDelayClamped }
        ringing := ringing }

/-- A prepared call and whether its line was heard in the call it went to. -/
structure FinishUserInput where
  request : CallRequest
  prepared : PreparedCall
  heard : Option Bool
  now : ℤ

/-- The end of `finishUser`: the candidate queues under the call that rings. -/
def queueUser (input : FinishUserInput) (row : CallCreateInput) : Io CallUserOutcome := do
  let prepared := input.prepared
  let parent ← match prepared.ringing with
    | some ringing => pure (some ringing)
    | none => read (.findRingingFor prepared.outcome.userId input.now)
  match parent with
  | none => pure { prepared.outcome with resolution := .dropped, reason := "ring_race" }
  | some parent =>
    let id ← write (.create
      { row with state := .queued, parentCallId := parent.id, reason := "ringing",
                 expiresAt := parent.expiresAt })
    match id with
    | some id =>
      pure { prepared.outcome with resolution := .queued, reason := "ringing", callId := id }
    | none =>
      pure { prepared.outcome with resolution := .dropped, reason := "already_called" }

/-- What was prepared is stored and rung. -/
def finishUser (input : FinishUserInput) : Io CallUserOutcome := do
  let candidate := input.request.candidate
  let prepared := input.prepared
  let outcome := prepared.outcome
  let userId := outcome.userId
  match prepared.row with
  | none => pure outcome
  | some row =>
    if prepared.verdict.injectable ∧ input.heard.getD false then
      let id ← write (.create
        { row with state := .injected, reason := "live_call", expiresAt := input.now })
      pure { outcome with resolution := .injected, reason := "live_call", callId := id.getD 0 }
    else if prepared.verdict.decision = .notify ∨ prepared.askedReminder then
      if ¬input.request.notificationExists ∧ e.notifier then
        let _ ← ask (.notify
          { userId := userId
            type := if candidate.trigger = .guardArrival then "camera" else "reminder"
            title := prepared.copy.title
            body := prepared.copy.summary
            commandId := "call-notice:" ++ candidate.dedupeKey ++ ":" ++ toString userId })
      pure { outcome with resolution := .notified }
    else if prepared.verdict.decision = .ring ∨ prepared.verdict.decision = .supersede then
      let row ← match prepared.verdict.decision, prepared.ringing with
        | .supersede, some ringing => do
          let lines ← e.supersedeRinging ringing input.now
          pure { row with data := { prepared.stored with laterLines := some lines } }
        | _, _ => pure row
      match ← write (.openRinging row input.now) with
      | some call =>
        let _ ← ask (.emit userId "call_incoming" call.title call.id)
        pure { outcome with resolution := .rang, callId := call.id }
      | none =>
        if ← read (.exists_ candidate.dedupeKey userId) then
          pure { outcome with reason := "already_called" }
        else queueUser input row
    else queueUser input row

/-- The outcome of a user for whom something threw. -/
def failedUser (userId : ℤ) : CallUserOutcome :=
  { userId := userId, resolution := .dropped, reason := "error" }

/-- `consider`: every user of the request is prepared, and then finished. -/
def consider (request : CallRequest) : Io (List CallUserOutcome) := do
  let userIds := distinctIds request.userIds
  if userIds = [] ∨ request.candidate.dedupeKey = "" then pure []
  else
    let now ← read .clock
    let preferences ← ask (.findPreferences userIds)
    let recipients ← ask (.lookupRecipients userIds)
    let prepared ← Task.collect (fun userId => do
      let prepared ← (e.prepareUser
        { request := request
          userId := userId
          recipient := recipients userId
          preference := (preferences userId).getD {}
          now := now
          member := request.members.find? fun m => m.userId = userId }).attempt
      pure (prepared.getD { outcome := failedUser userId })) userIds
    let probed := prepared.filter fun call => !call.settled && call.verdict.injectable
    let answers ← ask (.announceAll (probed.map fun call => call.outcome.userId))
    let heard (userId : ℤ) : Option Bool :=
      ((probed.map fun call => call.outcome.userId).zip answers).lookup userId |>.join
    Task.collect (fun call => do
      if call.settled then pure call.outcome
      else
        let outcome ← (e.finishUser
          { request := request
            prepared := call
            heard := heard call.outcome.userId
            now := now }).attempt
        pure (outcome.getD (failedUser call.outcome.userId))) prepared

/-- `considerNotification`: the calls that a notification asks for. -/
def considerNotification (data : CallData) (userIds : List ℤ) : Io (List CallUserOutcome) :=
  match fromNotification data with
  | none => pure []
  | some candidate =>
    e.consider { candidate := candidate, userIds := userIds, notificationExists := true }

/-! ### Responses -/

/-- The members of a response that are to be called, and why. -/
structure ReachInput where
  response : ResponseRow
  members : List CallResponseMember
  critical : Bool
  reason : ResponseReach
  now : ℤ

/-- What a member gets from `reach` besides the call. -/
def reachNotice (candidate : CallCandidate) (input : ReachInput) (recipients : ℤ → CallRecipient)
    (userId : ℤ) : CallNotice :=
  let recipient := recipients userId
  let lang := e.langFor recipient.lang
  let copy := e.render { trigger := candidate.trigger, lang := lang, data := candidate.data,
                         userName := recipient.name, now := input.now }
  { userId := userId
    type := "camera"
    title := copy.title
    body := e.escalationBody lang copy.summary input.reason input.response.verdictByName
    commandId := "response:" ++ toString input.response.id ++ ":reach:" ++ toString userId }

/-- Mark members reached; those that this call marked. -/
def markMembers (responseId : ℕ) (now : ℤ) : List ℤ → Io (List ℤ)
  | [] => pure []
  | userId :: rest => do
    let marked ← write (.markReached responseId userId now)
    let reached ← markMembers responseId now rest
    pure (if marked then userId :: reached else reached)

/-- Members of a response are called. -/
def reach (input : ReachInput) : Io Unit := do
  let response := input.response
  match fromNotification response.data with
  | none => pure ()
  | some candidate =>
    if input.members = [] then pure ()
    else
      let candidate :=
        { candidate with
          data := { candidate.data with responseId := response.id }
          critical := candidate.critical || input.critical
          urgency := if input.critical then "critical" else candidate.urgency }
      let reached ← markMembers response.id input.now (input.members.map (·.userId))
      if e.notifier then
        let recipients ← ask (.lookupRecipients reached)
        Task.each (fun userId => do
          let _ ← ask (.notify (e.reachNotice candidate input recipients userId))) reached
      if reached = [] then pure ()
      else
        let members ← read (.members response.id)
        Task.each (fun userId => note (.handed response.id userId)) reached
        let _ ← e.consider { candidate := candidate, userIds := reached,
                             notificationExists := true, members := members }

/-- A response whose members are given the emergency contacts. -/
structure PromptInput where
  response : ResponseRow
  confirmed : Bool
  now : ℤ

/-- The members that were reached are given the emergency contacts. -/
def promptContacts (input : PromptInput) : Io Unit := do
  if e.notifier then
    let members ← read (.members input.response.id)
    let reached := (members.filter fun m => m.reachedAt ≠ 0).map (·.userId)
    let recipients ← ask (.lookupRecipients reached)
    Task.each (fun userId => do
      let notice := e.contacts (e.langFor (recipients userId).lang) input.response input.confirmed
      let _ ← ask (.notify
        { userId := userId
          type := "camera"
          title := notice.1
          body := notice.2
          commandId := "response:" ++ toString input.response.id ++ ":" ++
            (if input.confirmed then "confirmed" else "unanswered") ++ ":" ++
              toString userId })) reached

/-- The members that were reached are sent the response as it now is. -/
def emitResponse (responseId : ℕ) : Io Unit := do
  match ← read (.responseById responseId) with
  | none => pure ()
  | some _ =>
    let members ← read (.members responseId)
    Task.each (fun m => do
      if m.reachedAt ≠ 0 then
        let _ ← ask (.emit m.userId "response_update" "" responseId)) members

/-- A member in the plan of a response: when and how they are called. -/
structure ResponsePlanEntry where
  userId : ℤ
  step : ℕ
  mode : ResponseMemberMode := .call
  mandatory : Bool := false
  discreet : Bool := false
  deriving DecidableEq

/-- `ParsedResponsePlan`: the entries have different users, and the steps are below the count. -/
structure ParsedResponsePlan where
  strategy : String
  stepSeconds : ℤ
  environmentId : ℤ
  entries : List ResponsePlanEntry
  deriving DecidableEq

/-- The number of steps of a plan. -/
def ParsedResponsePlan.stepCount (plan : ParsedResponsePlan) : ℕ :=
  plan.entries.foldl (fun count entry => max count (entry.step + 1)) 0

/-- A danger to respond to, with the plan that it came with. -/
structure ResponseRequest where
  data : CallData
  userIds : List ℤ
  plan : Option ParsedResponsePlan

/-- The members that have not been called. -/
def unreached (members : List CallResponseMember) : List CallResponseMember :=
  members.filter fun m => m.reachedAt = 0

/-- The entries of a plan as rows of members; the actor is not one. -/
def planMembers (plan : ParsedResponsePlan) (actor : ℤ) : List CallResponseMemberInput :=
  (plan.entries.filter fun entry => entry.userId ≠ actor).map fun entry =>
    { userId := entry.userId, step := entry.step, mode := entry.mode,
      mandatory := entry.mandatory, discreet := entry.discreet }

/-- `respond`: a response is opened and its first step called, or one that is open is taken on. -/
def respond (request : ResponseRequest) : Io Unit := do
  match request.plan with
  | none =>
    let _ ← e.considerNotification request.data request.userIds
  | some plan =>
    match fromNotification request.data with
    | none => pure ()
    | some candidate =>
      let actor := request.data.actorUserId
      let userIds := (distinctIds request.userIds).filter fun userId => userId ≠ actor
      let candidate ←
        if 0 < actor ∧ candidate.data.actorName = "" then do
          let recipients ← ask (.lookupRecipients [actor])
          let person := recipients actor
          pure (if person.found then
            { candidate with data := { candidate.data with actorName := person.name } }
            else candidate)
        else pure candidate
      let now ← read .clock
      let members := planMembers plan actor
      let firstStepRings := members.any fun m => m.step = 0 ∧ m.mode = .call
      let created ← write (.openResponse
        { dedupeKey := candidate.dedupeKey
          kind := request.data.kind
          environmentId :=
            if 0 < plan.environmentId then plan.environmentId else candidate.environmentId
          episodeId := if request.data.kind = "guard_episode" then request.data.episodeId else 0
          cameraId := request.data.cameraId
          strategy := plan.strategy
          stepCount := plan.stepCount
          stepSeconds := plan.stepSeconds
          stepDeadline := now + if firstStepRings then plan.stepSeconds else 0
          data := candidate.data
          createdAt := now } members)
      match ← read (.responseByKey candidate.dedupeKey) with
      | none => pure ()
      | some response =>
        if ¬responseOpen response.state then pure ()
        else
          let candidate :=
            { candidate with data := { candidate.data with responseId := response.id } }
          note (.serving response.id)
          let stored ← read (.members response.id)
          if ¬created ∧ candidate.trigger = .guardEscalation ∧
              (response.state = .active ∨ response.state = .unanswered) then
            e.reach
              { response := response
                members := (unreached stored).filter fun m => !userIds.contains m.userId
                critical := candidate.critical
                reason := .worse
                now := now }
          let reached ← markMembers response.id now userIds
          Task.each (fun userId => note (.called response.id userId)) reached
          let _ ← e.consider { candidate := candidate, userIds := userIds,
                               notificationExists := true, members := stored }
          note (.responded response.id userIds)
          emitResponse response.id

/-- A call that is answered attends the response that it belongs to. -/
def attendAnswered (call : CallRow) : Io Unit := do
  match ← read (.responseByKey call.dedupeKey) with
  | none => pure ()
  | some response =>
    if ¬responseOpen response.state then pure ()
    else
      let recipients ← ask (.lookupRecipients [call.userId])
      let recipient := recipients call.userId
      let now ← read .clock
      if ← write (.attend response.id call.userId recipient.name now) then
        cancelRinging { response := response, exceptUserId := call.userId, onlyUserId := 0,
                        reason := "attended", now := now }
        emitResponse response.id

/-- One response that is due. -/
def advanceResponse (now : ℤ) (response : ResponseRow) : Io Unit := do
  let next := response.step + 1
  if next < response.stepCount then
    let members ← read (.members response.id)
    let stepMembers := members.filter fun m => m.step = next ∧ m.reachedAt = 0
    let rings := stepMembers.any fun m => m.mode = .call
    if ← write (.advance response.id response.step next
        (now + if rings then response.stepSeconds else 0) now) then
      e.reach { response := response, members := stepMembers, critical := false,
                reason := .nextStep, now := now }
      note (.escalated response.id next)
      emitResponse response.id
  else
    if ← write (.markUnanswered response.id now) then
      match ← read (.responseById response.id) with
      | none => pure ()
      | some fresh => e.promptContacts { response := fresh, confirmed := false, now := now }
      emitResponse response.id

/-- The responses that are due take their next step. -/
def advanceResponses (now : ℤ) : Io Unit := do
  let due ← read (.due now kResponseBatch)
  Task.each (e.advanceResponse now) due

/-- What a member says of the danger. -/
structure ResponseVerdictRequest where
  responseId : ℕ
  userId : ℤ
  verdict : ResponseVerdict

/-- `verdict`: the word of a member who was reached settles a response, or confirms it. -/
def verdict (request : ResponseVerdictRequest) : Io Unit := do
  match ← read (.member request.responseId request.userId) with
  | none => pure ()
  | some member =>
    if member.reachedAt = 0 then pure ()
    else
      let recipients ← ask (.lookupRecipients [request.userId])
      let recipient := recipients request.userId
      let now ← read .clock
      let recorded ← write (.verdict request.responseId request.verdict request.userId
        recipient.name now)
      match ← read (.responseById request.responseId) with
      | none => pure ()
      | some fresh =>
        if ¬recorded then pure ()
        else
          match request.verdict with
          | .falseAlarm =>
            cancelRinging { response := fresh, exceptUserId := 0, onlyUserId := 0,
                            reason := "resolved", now := now }
          | .real => do
            cancelRinging { response := fresh, exceptUserId := 0, onlyUserId := request.userId,
                            reason := "attended", now := now }
            note (.serving fresh.id)
            let members ← read (.members fresh.id)
            e.reach { response := fresh, members := unreached members, critical := true,
                      reason := .confirmed, now := now }
            note (.served fresh.id)
            e.promptContacts { response := fresh, confirmed := true, now := now }
          emitResponse fresh.id
          note (.judged fresh.id request.verdict)

/-! ### Claiming and ending -/

/-- A session that takes a ringing call. -/
structure CallClaimRequest where
  callId : ℕ
  userId : ℤ
  sessionId : String

/-- What `claim` answers from the row it read, when that settles the answer. -/
def claimAnswer (request : CallClaimRequest) (existing : CallRow) (now : ℤ) :
    Option CallClaimOutcome :=
  if existing.state = .answered ∧ request.sessionId ≠ "" ∧
      existing.answeredSession = request.sessionId then
    some { status := .claimed, openingLine := existing.openingLine }
  else if existing.state ≠ .ringing then
    some { status := if existing.state = .missed then .expired else .taken }
  else if existing.expiresAt ≤ now then some { status := .expired }
  else none

/-- The lines a claim reads out after the opening line. -/
def laterLines (existing : CallRow) (followups : List CallRow) (now : ℤ) : List String :=
  (existing.data.laterLines.getD []).foldl (fun lines line => line :: lines)
    (followups.map fun followup => e.followupLine followup existing.lang now)

/-- The answer of a claim is sent: a claimed call leaves a note. -/
def answerClaim (request : CallClaimRequest) (outcome : CallClaimOutcome) : Io CallClaimOutcome := do
  if outcome.status = .claimed then note (.claimed request.callId request.sessionId)
  pure outcome

/-- `claim`: one session gets a ringing call, and the others are told that it is taken. -/
def claim (request : CallClaimRequest) : Io CallClaimOutcome := do
  let id := request.callId
  if id = 0 ∨ request.userId ≤ 0 then answerClaim request {}
  else
    match ← read (.findById id) with
    | none => answerClaim request {}
    | some existing =>
      if existing.userId ≠ request.userId ∨ existing.parentCallId ≠ 0 ∨
          existing.state = .injected ∨ existing.state = .queued then answerClaim request {}
      else
        let now ← read .clock
        match claimAnswer request existing now with
        | some outcome => answerClaim request outcome
        | none =>
          match ← write (.claim id request.userId request.sessionId now) with
          | none =>
            let raced ← read (.findById id)
            answerClaim request
              { status := if raced.any fun r => r.state = .missed then .expired else .taken }
          | some followups =>
            let _ ← ask (.emit request.userId "call_cancel" "answered_elsewhere" id)
            attendAnswered
              { existing with state := .answered, answeredAt := now,
                              answeredSession := request.sessionId }
            answerClaim request
              { status := .claimed
                openingLine := existing.openingLine
                laterLines := e.laterLines existing followups now }

/-- A session that reports the end of its call. -/
structure CallEndRequest where
  callId : ℕ
  userId : ℤ
  outcome : CallEndReport
  sessionId : String

/-- The room of a call is closed. -/
def closeRoom (userId : ℤ) (callId : ℕ) : Io Unit := do
  let _ ← ask (.closeRoom userId callId false)

/-- `end`: the end of a call that its session reports. -/
def end_ (request : CallEndRequest) : Io CallEndStatus := do
  let id := request.callId
  if id = 0 ∨ request.userId ≤ 0 then pure .notFound
  else
    match ← read (.findById id) with
    | none => pure .notFound
    | some existing =>
      if existing.userId ≠ request.userId then pure .notFound
      else
        let now ← read .clock
        let declined := request.outcome = .declined
        match existing.state with
        | .ringing =>
          if existing.expiresAt ≤ now then pure .expired
          else if ¬declined then pure .notFound
          else if ← write (.declineRingingAndCancel existing now) then
            let _ ← ask (.emit request.userId "call_cancel" "declined" id)
            pure .ended
          else pure .taken
        | .answered =>
          if declined ∧ request.sessionId ≠ "" ∧
              existing.answeredSession ≠ request.sessionId then pure .taken
          else if ← write (.end_ id request.userId .completed now) then
            closeRoom request.userId id
            let _ ← ask (.emit request.userId "call_cancel" "ended" id)
            pure .ended
          else pure .taken
        | .completed | .declined => pure .ended
        | .missed => pure .expired
        | .queued | .injected => pure .notFound

/-! ### Sweeps -/

/-- Calls that were answered long ago and whose rooms are gone are closed. -/
def closeStaleCalls (now : ℤ) : Io Unit := do
  let staleBefore := now - e.answeredStaleS
  let stale ← read (.findStale staleBefore staleBefore)
  let closable ← Task.collect (fun call : CallRow => do
    let outcome ← ask (.closeRoom call.userId call.id true)
    pure (if outcome.1 ∧ outcome.2 then some call else none)) stale
  let closable := closable.filterMap fun call => call
  if closable = [] then pure ()
  else
    let updated ← write (.closeStaleByIds (closable.map (·.id)) now)
    Task.each (fun call : CallRow => do
      if call.id ∈ updated then
        let _ ← ask (.emit call.userId "call_cancel" "expired" call.id)) closable

/-- A sweep looks at one call that rings. -/
def sweepCall (now : ℤ) (call : CallRow) : Io Unit := do
  if call.expiresAt ≤ now then
    e.settleMissed { call := call, cancelReason := "expired", now := now }
  else if call.pushedAt = 0 ∧ call.pushAfter ≤ now then
    let _ ← (write (.pushRingOnce call.id now)).attempt

/-- A sweep fires one scheduled call. -/
def fireScheduled (now : ℤ) (due : ScheduledCall) : Io Unit := do
  if ← ask (.markFired due.id now) then
    let dedupeKey := "assistant:scheduled:" ++ toString due.id
    let data : CallData :=
      { kind := "assistant_reminder", lang := due.lang, rest := [("topic", due.topic)] }
    if e.scheduledLateS < now - due.fireAt then
      if e.notifier then
        let copy := e.render { trigger := .assistant, lang := due.lang, data := data,
                               userName := "", now := now }
        let _ ← ask (.notify
          { userId := due.userId, type := "reminder", title := copy.title, body := copy.summary,
            commandId := "call-late:" ++ dedupeKey })
    else
      let _ ← e.consider
        { candidate :=
            { trigger := .assistant
              critical := false
              dedupeKey := dedupeKey
              urgency := "time_sensitive"
              environmentId := 0
              lang := due.lang
              data := data }
          userIds := [due.userId] }

/-- Old rows are deleted, once a day. -/
def purgeHistory (now : ℤ) : Io Unit := do
  if ← ask (.purgeDue now) then
    let cutoff := now - e.retentionDays * 24 * kHourS
    let _ ← write (.purgeSettled cutoff)
    let _ ← write (.purgeClosed cutoff)

/-- `sweep`: what the timer does for ringing calls, reminders, responses and old rows. -/
def sweep : Io Unit := do
  let now ← read .clock
  let ringing ← read .findRinging
  Task.each (e.sweepCall now) ringing
  let due ← ask (.scheduledDue now)
  Task.each (e.fireScheduled now) due
  e.closeStaleCalls now
  e.advanceResponses now
  let _ ← write (.expire (now - kResponseLifetimeS) now)
  e.purgeHistory now

/-- The ringing calls of a module that was disabled are missed, without a notice. -/
def cancelForModule (moduleId : String) : Io Unit := do
  let now ← read .clock
  let ringing ← read .findRinging
  Task.each (fun call : CallRow => do
    if e.moduleOf call.data.kind = moduleId then
      e.settleMissed
        { call := call, cancelReason := "module_disabled", now := now, notify := false }) ringing
  let kinds := e.responseKinds moduleId
  let closed ← if kinds = [] then pure [] else write (.expireKinds kinds now)
  Task.each emitResponse closed

end CallEngine

/-! ### The engine at work -/

/-- What the engine is asked, or does by its timer. -/
inductive Request where
  | tick (seconds : ℕ)
  | consider (request : CallRequest)
  | considerNotification (data : CallData) (userIds : List ℤ)
  | respond (request : CallEngine.ResponseRequest)
  | verdict (request : CallEngine.ResponseVerdictRequest)
  | claim (request : CallEngine.CallClaimRequest)
  | end_ (request : CallEngine.CallEndRequest)
  | sweep
  | cancelForModule (moduleId : String)

/-- The task of a request, whose result goes back to whoever asked. -/
def program (e : CallEngine) : Request → Io Unit
  | .tick seconds => write (.tick seconds)
  | .consider request => do let _ ← e.consider request
  | .considerNotification data userIds => do let _ ← e.considerNotification data userIds
  | .respond request => e.respond request
  | .verdict request => e.verdict request
  | .claim request => do let _ ← e.claim request
  | .end_ request => do let _ ← CallEngine.end_ request
  | .sweep => e.sweep
  | .cancelForModule moduleId => e.cancelForModule moduleId

/-- One step of the engine at work. -/
abbrev Step (e : CallEngine) : Pool Db Op Op.Ans → List Note → Pool Db Op Op.Ans → Prop :=
  Pool.Step exec (program e)

/-- The engine at a clock, with nothing stored and nothing at work. -/
def start (clock : ℤ) : Pool Db Op Op.Ans := ⟨{ clock := clock }, []⟩

end Call

end ArgusBackend
