import Mathlib.Data.Int.Notation
import Mathlib.Data.Nat.Notation

/-!
# Whether a call rings

The vocabulary of calls, the preferences of a user, the candidate a notification makes
(`fromNotification`) and the policy that decides what becomes of it (`decide`).

* `CallPolicy.decide_supersede` : only a critical candidate supersedes, and only a call that rings;
* `CallPolicy.decide_alreadyCalled` : a second candidate of one dedupe key is dropped.
-/

namespace ArgusBackend

namespace Call

/-- What a call is about. -/
inductive CallTrigger where
  | guardCritical
  | guardIntruder
  | guardEscalation
  | guardArrival
  | agenda
  | assistant
  deriving DecidableEq

/-- A call about a danger. -/
def isGuardTrigger : CallTrigger → Bool
  | .guardCritical | .guardIntruder | .guardEscalation | .guardArrival => true
  | .agenda | .assistant => false

/-- The states of a call. -/
inductive CallState where
  | ringing
  | queued
  | answered
  | completed
  | missed
  | declined
  | injected
  deriving DecidableEq

/-- How a user wants to hear of a trigger. -/
inductive CallMode where
  | call
  | notify
  | off
  deriving DecidableEq

/-- What is done about a call. -/
inductive CallDecision where
  | ring
  | followup
  | notify
  | drop
  | supersede
  deriving DecidableEq

/-- The states of a response. -/
inductive ResponseState where
  | active
  | attended
  | unanswered
  | confirmed
  | falseAlarm
  | expired
  deriving DecidableEq

/-- A response that still takes verdicts. -/
def responseOpen (state : ResponseState) : Bool := state ≠ .falseAlarm ∧ state ≠ .expired

/-- What a member says of the danger. -/
inductive ResponseVerdict where
  | real
  | falseAlarm
  deriving DecidableEq

/-- How a member of a response is reached. -/
inductive ResponseMemberMode where
  | call
  | notify
  deriving DecidableEq

/-! ### Preferences -/

/-- The shortest ringing. -/
def kMinRingSeconds : ℤ := 20

/-- The longest ringing. -/
def kMaxRingSeconds : ℤ := 90

/-- The longest delay of a push. -/
def kMaxPushDelaySeconds : ℤ := 30

/-- What a user wants to be called about, and when. -/
structure CallPreference where
  enabled : Bool := true
  guardCritical : CallMode := .call
  guardIntruder : CallMode := .call
  guardEscalation : CallMode := .call
  guardArrival : CallMode := .off
  agenda : CallMode := .call
  assistant : CallMode := .call
  quietStartHour : ℤ := -1
  quietEndHour : ℤ := -1
  dndUntil : ℤ := 0
  criticalBypass : Bool := true
  mutedEnvironmentIds : List ℤ := []
  quietDays : ℕ := 0x7F
  ringSeconds : ℤ := 45
  pushDelaySeconds : ℤ := 4
  liveAnnounce : Bool := true
  lang : String := ""
  deriving DecidableEq

namespace CallPreference

variable (preference : CallPreference)

/-- How the user wants to hear of a trigger. -/
def modeFor : CallTrigger → CallMode
  | .guardCritical => preference.guardCritical
  | .guardIntruder => preference.guardIntruder
  | .guardEscalation => preference.guardEscalation
  | .guardArrival => preference.guardArrival
  | .agenda => preference.agenda
  | .assistant => preference.assistant

/-- The user wants no calls about an environment. -/
def mutes (environmentId : ℤ) : Bool :=
  0 < environmentId ∧ environmentId ∈ preference.mutedEnvironmentIds

/-- How long it rings. -/
def ringSecondsClamped : ℤ := max kMinRingSeconds (min preference.ringSeconds kMaxRingSeconds)

/-- How long the push is held back. -/
def pushDelayClamped : ℤ := max 0 (min preference.pushDelaySeconds kMaxPushDelaySeconds)

end CallPreference

/-! ### Candidates -/

/-- The members of a notification's JSON object that the engine reads or writes; a member that is
missing reads as empty or zero.  `rest` stands for the members only the copy shows. -/
structure CallData where
  kind : String := ""
  urgency : String := ""
  threadKey : String := ""
  phase : String := ""
  lang : String := ""
  episodeId : ℤ := 0
  environmentId : ℤ := 0
  cameraId : ℤ := 0
  actorUserId : ℤ := 0
  actorName : String := ""
  responseId : ℕ := 0
  discreet : Bool := false
  callMissedTitle : String := ""
  laterLines : Option (List String) := none
  rest : List (String × String) := []
  deriving DecidableEq

/-- A call that a notification may become. -/
structure CallCandidate where
  trigger : CallTrigger := .assistant
  critical : Bool := false
  dedupeKey : String
  urgency : String
  environmentId : ℤ
  lang : String
  data : CallData
  deriving DecidableEq

/-- The call about a danger, if it is urgent. -/
def guardCandidate (data : CallData) : Option CallCandidate :=
  let critical := data.urgency = "critical"
  if ¬critical ∧ data.urgency ≠ "time_sensitive" then none
  else
    let candidate (dedupeKey : String) : CallCandidate :=
      { trigger :=
          if data.phase = "escalated" then .guardEscalation
          else if critical then .guardCritical else .guardIntruder
        critical
        dedupeKey
        urgency := data.urgency
        environmentId := data.environmentId
        lang := data.lang
        data }
    if data.threadKey = "" then
      if data.episodeId ≤ 0 then none
      else some (candidate ("guard:episode:" ++ toString data.episodeId))
    else some (candidate data.threadKey)

/-- The call about a reminder, if it has a thread. -/
def agendaCandidate (data : CallData) : Option CallCandidate :=
  if data.threadKey = "" then none
  else
    some
      { trigger := .agenda
        critical := false
        dedupeKey := data.threadKey
        urgency := "time_sensitive"
        environmentId := 0
        lang := data.lang
        data }

/-- `call_trigger::fromNotification` -/
def fromNotification (data : CallData) : Option CallCandidate :=
  if data.kind = "guard_episode" then guardCandidate data
  else if (data.kind = "guard_panic" ∨ data.kind = "guard_duress" ∨ data.kind = "guard_tamper") ∧
      data.urgency = "critical" then guardCandidate data
  else if data.kind = "agenda_event" ∨ data.kind = "agenda_reminder" then agendaCandidate data
  else none

/-! ### The policy -/

/-- How often users are called. -/
structure CallPolicyLimits where
  enabled : Bool := true
  callGapS : ℤ := 300
  maxCallsPerHour : ℤ := 4
  deriving DecidableEq

/-- What the policy knows of a user and a candidate. -/
structure CallPolicyInput where
  trigger : CallTrigger
  critical : Bool
  preference : CallPreference
  localHour : ℤ
  localWeekday : ℕ
  now : ℤ
  environmentId : ℤ
  alreadyCalled : Bool
  ringing : Bool
  lastCallAt : ℤ
  callsLastHour : ℤ
  limits : CallPolicyLimits
  planNotify : Bool
  mandatory : Bool

/-- What the policy says, and why. -/
structure CallVerdict where
  decision : CallDecision := .notify
  reason : String := ""
  injectable : Bool := false
  deriving DecidableEq

namespace CallPolicy

/-- A moment and the quiet hours of a user. -/
structure QuietWindowInput where
  hour : ℤ
  weekday : ℕ
  startHour : ℤ
  endHour : ℤ
  days : ℕ

/-- The moment is in the quiet hours, which may go over midnight. -/
def inQuietHours (input : QuietWindowInput) : Bool :=
  let start := input.startHour
  let finish := input.endHour
  if start < 0 ∨ finish < 0 ∨ 23 < start ∨ 23 < finish ∨ start = finish then false
  else
    let (inside, windowDay) : Bool × ℕ :=
      if start < finish then (start ≤ input.hour ∧ input.hour < finish, input.weekday)
      else if start ≤ input.hour then (true, input.weekday)
      else if input.hour < finish then (true, (input.weekday + 6) % 7)
      else (false, input.weekday)
    inside && input.days.testBit windowDay

/-- The verdict for a user who may be called, by what else is going on. -/
def limited (input : CallPolicyInput) (ringReason : String) : CallVerdict :=
  let live := input.preference.liveAnnounce
  if input.ringing ∧ input.critical then
    { decision := .supersede, reason := ringReason, injectable := false }
  else if input.ringing then { decision := .followup, reason := "ringing", injectable := live }
  else if ¬input.critical ∧ 0 < input.lastCallAt ∧
      input.now - input.lastCallAt < input.limits.callGapS then
    { decision := .notify, reason := "cooldown", injectable := live }
  else if ¬input.critical ∧ input.limits.maxCallsPerHour ≤ input.callsLastHour then
    { decision := .notify, reason := "hourly_cap", injectable := live }
  else { decision := .ring, reason := ringReason, injectable := live }

/-- `call_policy::decide` -/
def decide (input : CallPolicyInput) : CallVerdict :=
  let preference := input.preference
  let mode := preference.modeFor input.trigger
  let bypass := input.critical && preference.criticalBypass
  if input.alreadyCalled then
    { decision := .drop, reason := "already_called", injectable := false }
  else if input.mandatory then
    if ¬input.limits.enabled then
      { decision := .notify, reason := "calls_disabled", injectable := false }
    else limited input "on_duty"
  else if mode = .off then { decision := .drop, reason := "trigger_off", injectable := false }
  else if mode = .notify then
    { decision := .notify, reason := "trigger_notify", injectable := false }
  else if input.planNotify then
    { decision := .notify, reason := "plan_notify", injectable := false }
  else if ¬input.limits.enabled then
    { decision := .notify, reason := "calls_disabled", injectable := false }
  else if ¬preference.enabled then
    { decision := .notify, reason := "calls_off", injectable := false }
  else if isGuardTrigger input.trigger ∧ preference.mutes input.environmentId then
    { decision := .notify, reason := "environment_muted", injectable := false }
  else if input.now < preference.dndUntil ∧ ¬bypass then
    { decision := .notify, reason := "do_not_disturb", injectable := preference.liveAnnounce }
  else if inQuietHours
      { hour := input.localHour, weekday := input.localWeekday,
        startHour := preference.quietStartHour, endHour := preference.quietEndHour,
        days := preference.quietDays } ∧ ¬bypass then
    { decision := .notify, reason := "quiet_hours", injectable := preference.liveAnnounce }
  else limited input "ring"

/-- A second candidate of one dedupe key is dropped. -/
theorem decide_alreadyCalled {input : CallPolicyInput} (h : input.alreadyCalled = true) :
    (decide input).decision = .drop := by
  simp [decide, h]

/-- Only a critical candidate supersedes, and only a call that rings. -/
theorem decide_supersede {input : CallPolicyInput} (h : (decide input).decision = .supersede) :
    input.ringing = true ∧ input.critical = true := by
  have hlimited : ∀ reason, (limited input reason).decision = .supersede →
      input.ringing = true ∧ input.critical = true := by
    intro reason hdecision
    simp only [limited] at hdecision
    split at hdecision
    · assumption
    · split at hdecision
      · cases hdecision
      · split at hdecision
        · cases hdecision
        · split at hdecision <;> cases hdecision
  simp only [decide] at h
  repeat' split at h
  all_goals first | cases h | exact hlimited _ h

end CallPolicy

end Call

end ArgusBackend
