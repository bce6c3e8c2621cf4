import ArgusBackend.Guard.Effects
import Mathlib.Data.Finset.Basic

/-!
# The thread of an encounter

The observations of several cameras may be joined in one encounter.  The thread of the encounter
says how often the household was notified of it, and at which danger at most;
`GuardService::applyObservation` reads it under a lease before it notifies, `GuardService::escalate`
reads it without, and `recordNotificationDispatch` writes it when the notification has gone out.

* `ThreadStore` : the store of the effects, the encounters, the journal and the leases;
* `observe`, `escalate` : the two ways to a notification;
* `threadWorkshop` : the lanes of the cameras.
-/

namespace ArgusBackend

namespace Guard

/-! ### The store -/

/-- The row of an encounter. -/
structure GuardEncounter where
  notifyCommandId : String := ""
  notifyCount : ℕ := 0
  notifyHighestRank : ℕ := 0
  deriving DecidableEq

/-- The household was notified of the encounter at this danger or a higher one. -/
def GuardEncounter.repeats (encounter : GuardEncounter) (rank : ℕ) : Bool :=
  0 < encounter.notifyCount && rank ≤ encounter.notifyHighestRank

/-- A notification that has gone out. -/
structure NotificationDispatch where
  eventId : String
  encounterId : ℤ
  commandId : String
  rank : ℕ
  deriving DecidableEq

/-- The guard's tables with the threads of the encounters and the journal. -/
structure ThreadStore where
  guard : GuardStore := {}
  encounters : ℤ → GuardEncounter := fun _ => {}
  /-- `did_notify` of the events that have a row in the journal -/
  journal : String → Option Bool := fun _ => none
  /-- the encounters whose lease is held -/
  executing_ : Finset ℤ := ∅

namespace ThreadStore

variable (s : ThreadStore)

/-- An event has a row in the journal. -/
def journalDecision (eventId : String) : ThreadStore :=
  match s.journal eventId with
  | some _ => s
  | none => { s with journal := Function.update s.journal eventId (some false) }

/-- `RECORD_ENCOUNTER_NOTIFICATION` -/
def recordEncounterNotification (dispatch : NotificationDispatch) : ThreadStore :=
  let encounter := s.encounters dispatch.encounterId
  { s with
    encounters := Function.update s.encounters dispatch.encounterId
      { notifyCommandId :=
          if encounter.notifyCommandId = "" then dispatch.commandId else encounter.notifyCommandId
        notifyCount := encounter.notifyCount + 1
        notifyHighestRank := max dispatch.rank encounter.notifyHighestRank } }

/-- A command that was dispatched is noted in the journal. -/
def recordNotificationDispatch (dispatch : NotificationDispatch) : ThreadStore :=
  if dispatch.eventId = "" ∨ dispatch.commandId = "" then s
  else
    let flipped : Bool := s.journal dispatch.eventId = some false
    let encounter := s.encounters dispatch.encounterId
    let recorded : Bool := flipped || (0 < dispatch.encounterId &&
      (encounter.notifyCount = 0 || encounter.notifyHighestRank < dispatch.rank))
    let s : ThreadStore := if flipped then
        { s with journal := Function.update s.journal dispatch.eventId (some true) }
      else s
    if recorded = true ∧ 0 < dispatch.encounterId then s.recordEncounterNotification dispatch else s

end ThreadStore

/-! ### What a lane awaits -/

/-- What a notification awaits. -/
inductive ThreadOp where
  /-- what an effect awaits -/
  | effect (op : Op)
  /-- the lease `notify-thread:`, which is let go when it leaves its scope -/
  | acquireLease (encounterId : ℤ)
  | releaseLease (encounterId : ℤ)
  | findEncounter (encounterId : ℤ)
  | journalDecision (eventId : String)
  /-- every request of a notification was taken, and the service logs that -/
  | notified (dispatch : NotificationDispatch)
  | recordNotificationDispatch (dispatch : NotificationDispatch)
  /-- the observation is completed or put off -/
  | concludeTry

/-- What each of them answers. -/
@[reducible] def ThreadOp.Ans : ThreadOp → Type
  | .effect op => op.Ans
  | .acquireLease _ => Bool
  | .findEncounter _ => GuardEncounter
  | _ => Unit

/-- A notification leaves a note when it has gone out. -/
def threadExec (env : Outside) (op : ThreadOp) (s : ThreadStore) :
    op.Ans × List NotificationDispatch × ThreadStore :=
  match op with
  | .effect op =>
    ((exec env op s.guard).1, [], { s with guard := (exec env op s.guard).2.2 })
  | .acquireLease encounterId =>
    (decide (encounterId ∉ s.executing_), [],
      { s with executing_ := insert encounterId s.executing_ })
  | .releaseLease encounterId => ((), [], { s with executing_ := s.executing_.erase encounterId })
  | .findEncounter encounterId => (s.encounters encounterId, [], s)
  | .journalDecision eventId => ((), [], s.journalDecision eventId)
  | .notified dispatch => ((), [dispatch], s)
  | .recordNotificationDispatch dispatch => ((), [], s.recordNotificationDispatch dispatch)
  | .concludeTry => ((), [], s)

/-- A task of a notification. -/
abbrev ThreadTask := Task ThreadOp ThreadOp.Ans

/-- Await an operation. -/
def askThread (op : ThreadOp) : ThreadTask op.Ans := Task.call op

/-- A part of an effect. -/
def onEffect {α : Type} (t : GuardTask α) : ThreadTask α := t.lift .effect fun _ ans => ans

/-! ### Notifications of an encounter -/

variable (config : GuardConfig)

/-- `notify`, and the record of the dispatch at its end. -/
def notifyThread (intent : OutboxRow) (input : EffectInput) (encounterId : ℤ) :
    ThreadTask EffectStatus := do
  let sent ← onEffect (notify config intent input.notifyContent)
  if sent = .succeeded then
    let dispatch : NotificationDispatch :=
      ⟨input.correlationId, encounterId, intent.commandId, guardDangerRank input.danger⟩
    askThread (.notified dispatch)
    if input.correlationId ≠ "" then
      askThread (.recordNotificationDispatch dispatch)
      pure sent
    else
      pure sent
  else
    pure sent

/-- `attempt`, of a notification. -/
def attemptThread (intent : OutboxRow) (input : EffectInput) (encounterId : ℤ) :
    ThreadTask EffectResult := do
  let nowMs ← onEffect (ask .nowMillis)
  if (intent.status = .inFlight ∨ intent.status = .retryableFailed) ∧ nowMs < intent.nextAttemptAt then
    pure { status := intent.status, executed := true, pending := true
           retryAt := intent.nextAttemptAt, detail := intent.detail }
  else
    let decision ← onEffect (withinBudget config input (allowedNow config input))
    if decision.authorized then
      let sent ← notifyThread config intent input encounterId
      onEffect (settle intent input (resumed config intent nowMs
        { notifyResult sent with authorized := true, executed := true }))
    else
      onEffect (settle intent input { status := .rejected, detail := decision.reason })

/-- `performEffect`, of a notification. -/
def performNotify (input : EffectInput) (encounterId : ℤ) : ThreadTask EffectResult := do
  let requestedId ← onEffect (makeCommandId input)
  let intent ← onEffect (planIntent requestedId)
  match intent with
  | none => pure { status := .rejected, detail := "intent_unavailable" }
  | some intent =>
    if guardIntentStatusIsTerminal intent.status then
      pure (intent.response.getD { status := intent.status, detail := intent.detail })
    else
      attemptThread config intent input encounterId

/-- What a try has when it comes to its effects. -/
structure Observation where
  eventId : String
  cameraId : ℤ
  encounterId : ℤ
  danger : GuardDanger
  now : ℤ
  /-- grouped, held or blocked by the belief gate -/
  notifySuppressed : Bool := false
  /-- the notice, whose words say whether the thread is open -/
  content : Bool → NotifyContent := fun _ => ⟨"", []⟩

namespace Observation

variable (o : Observation)

/-- The grade of an observation. -/
def rank : ℕ := guardDangerRank o.danger

/-- The notification that an observation asks for. -/
def effectInput (correlationId : String) (threadOpen : Bool) : EffectInput where
  kind := .notify
  danger := o.danger
  cameraId := o.cameraId
  now := o.now
  correlationId := correlationId
  sequence := 1
  notifyContent := o.content threadOpen

/-- What is read before the lease is taken. -/
def threadRepeat : ThreadTask Bool := do
  if config.notifyLevel ≤ o.rank ∧ 0 < o.encounterId then
    let encounter ← askThread (.findEncounter o.encounterId)
    pure (encounter.repeats o.rank)
  else
    pure false

/-- With the lease of its encounter. -/
def underLease : ThreadTask Unit := do
  let encounter ← askThread (.findEncounter o.encounterId)
  let threadOpen : Bool := 0 < encounter.notifyCount
  let ownCommand ← onEffect (makeCommandId (o.effectInput o.eventId threadOpen))
  if encounter.repeats o.rank = true ∧ encounter.notifyCommandId ≠ ownCommand then
    pure ()
  else
    let _ ← performNotify config (o.effectInput o.eventId threadOpen) o.encounterId
    pure ()

/-- `applyObservation`, as far as it notifies. -/
def observe : ThreadTask Unit := do
  let threadRepeat ← o.threadRepeat config
  askThread (.journalDecision o.eventId)
  if config.notifyLevel ≤ o.rank ∧ threadRepeat = false ∧ o.notifySuppressed = false then
    if 0 < o.encounterId then
      let owned ← askThread (.acquireLease o.encounterId)
      if owned then
        let result ← (o.underLease config).attempt
        askThread (.releaseLease o.encounterId)
        match result with
        | some _ => pure ()
        | none => Task.throw
      else
        pure ()
    else
      let _ ← performNotify config (o.effectInput o.eventId false) o.encounterId
      pure ()
  else
    pure ()

/-- `escalate`, as far as it notifies. -/
def escalate : ThreadTask Unit := do
  let correlation := o.eventId ++ ":escalation"
  -- read without the lease
  let threadRepeat ←
    if 0 < o.encounterId then do
      let encounter ← askThread (.findEncounter o.encounterId)
      pure (encounter.repeats o.rank)
    else
      pure false
  if config.notifyLevel ≤ o.rank ∧ threadRepeat = false then
    let _ ← performNotify config (o.effectInput correlation true) o.encounterId
    pure ()
  else
    pure ()

end Observation

/-- A try of an observation, or of its late escalation. -/
inductive ThreadRequest where
  | observe (o : Observation)
  | escalate (o : Observation)

/-! ### How far a try has come -/

/-- How far a try has come with the thread. -/
inductive Stand where
  | early
  | late
  /-- it holds the lease of this encounter -/
  | leased (encounterId : ℤ)
  /-- it has read the encounter, with the lease or without -/
  | read (held : Bool) (encounterId : ℤ) (encounter : GuardEncounter)
  /-- its notification has gone out -/
  | announced (held : Bool) (dispatch : NotificationDispatch)
  deriving DecidableEq

/-- How far a try has come. -/
structure ThreadPhase where
  stand : Stand
  /-- the command that it has a row for -/
  commandId : Option String := none

namespace Stand

variable (k : Stand) (encounterId : ℤ)

/-- It holds the lease of the encounter. -/
def holds : Bool :=
  match k with
  | .leased id | .read true id _ => id = encounterId
  | .announced true dispatch => dispatch.encounterId = encounterId
  | _ => false

/-- It may be about to notify, or has notified and not recorded that. -/
def notifies : Bool :=
  match k with
  | .read _ id _ => id = encounterId
  | .announced _ dispatch => dispatch.encounterId = encounterId
  | _ => false

/-- How far the thread has come once an operation is answered. -/
def after (k : Stand) : (op : ThreadOp) → Option op.Ans → Stand
  | .acquireLease encounterId, some true => .leased encounterId
  | .releaseLease _, some _ => .early
  | .findEncounter encounterId, some encounter =>
    match k with
    | .leased _ => .read true encounterId encounter
    | .late => .read false encounterId encounter
    | k => k
  | .notified dispatch, some _ =>
    match k with
    | .read held _ _ => .announced held dispatch
    | k => k
  | .recordNotificationDispatch _, some _ =>
    match k with
    | .announced true dispatch => .leased dispatch.encounterId
    | .announced false _ => .late
    | k => k
  | .concludeTry, some _ => .early
  | _, _ => k

end Stand

namespace ThreadPhase

/-- How far a try has come once an operation is answered, or has thrown. -/
def after (k : ThreadPhase) (op : ThreadOp) (r : Option op.Ans) : ThreadPhase where
  stand := k.stand.after op r
  commandId :=
    match op, r with
    | .effect (.selectOutbox _), some (some row) => some row.commandId
    | .effect (.selectSibling _ _), some (some row) => some row.commandId
    | _, _ => k.commandId

end ThreadPhase

/-- What may throw. -/
def mayThrow : ThreadOp → Bool
  | .effect _ | .findEncounter _ | .journalDecision _ => true
  | _ => false

/-- The tries of all cameras. -/
def threadWorkshop :
    Workshop ThreadStore NotificationDispatch ThreadPhase Outside ThreadRequest ThreadOp ThreadOp.Ans where
  exec := threadExec
  program request := do
    let _ ← (match request with
      | .observe o => o.observe config
      | .escalate o => o.escalate config).attempt
    askThread .concludeTry
  first request := { stand := match request with | .observe _ => .early | .escalate _ => .late }
  after := ThreadPhase.after
  fallible := mayThrow

end Guard

end ArgusBackend
