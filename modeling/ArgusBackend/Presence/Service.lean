import ArgusBackend.Library.Tasks
import ArgusBackend.Library.Table

/-!
# Presence and consent

Signals of sessions and cameras are turned into rows of `guard_presence`, for users whose consent
identity confirms.  The answers of identity are cached; a withdrawal marks the cache and deletes
the rows, and a signal looks at the cache again after it has written.

* `presence_engine.apply` : what a signal makes of a row;
* `Op` : what the service awaits; each look at the cache and each transaction is one operation;
* `PresenceService` : the handlers of signals, of the change feed and of the timers.
-/

namespace ArgusBackend

namespace Presence

/-! ### The engine -/

/-- Whether someone is at home. -/
inductive PresenceState where
  | unknown | home | away
  deriving DecidableEq, Repr

/-- By what that is known. -/
inductive PresenceSource where
  | none | lanSession | tunnelSession | appActivity | camera | timeout | consent
  deriving DecidableEq, Repr

/-- What a signal comes from. -/
inductive PresenceSignalKind where
  | lanSession | tunnelSession | appActivity | camera
  deriving DecidableEq, Repr

/-- The presence of a user in an environment. -/
structure PresenceRow where
  userId : ℤ
  environmentId : ℤ
  state : PresenceState
  source : PresenceSource
  since : ℤ
  lastHomeAt : ℤ
  lastSignalAt : ℤ
  deriving DecidableEq, Repr

/-- A sign of a user. -/
structure PresenceSignal where
  userId : ℤ
  environmentId : ℤ
  kind : PresenceSignalKind
  at_ : ℤ
  deriving DecidableEq, Repr

/-- How long a state lasts without a signal. -/
structure PresenceRules where
  awayTimeoutSeconds : ℤ := 2700
  tunnelGraceSeconds : ℤ := 90
  retentionSeconds : ℤ := 2592000

/-- `PresenceOutcome`, and `PresenceDecision` of the repository -/
structure PresenceOutcome where
  row : PresenceRow
  write : Bool
  changed : Bool
  deriving DecidableEq, Repr

namespace presence_engine

/-- The signals of someone who is at home. -/
def homeSignal (kind : PresenceSignalKind) : Bool := kind ≠ .tunnelSession

/-- The source that a signal leaves. -/
def sourceOf : PresenceSignalKind → PresenceSource
  | .lanSession => .lanSession
  | .tunnelSession => .tunnelSession
  | .appActivity => .appActivity
  | .camera => .camera

/-- Nothing is written. -/
def unchanged (current : Option PresenceRow) : PresenceOutcome :=
  ⟨current.getD ⟨0, 0, .unknown, .none, 0, 0, 0⟩, false, false⟩

/-- `apply` -/
def apply (current : Option PresenceRow) (signal : PresenceSignal) (rules : PresenceRules) :
    PresenceOutcome :=
  let source := sourceOf signal.kind
  if signal.userId ≤ 0 ∨ signal.environmentId ≤ 0 ∨ signal.at_ ≤ 0 then unchanged current
  else if current.any fun row => signal.at_ < row.lastSignalAt then unchanged current
  else if homeSignal signal.kind then
    let wasHome := current.any fun row => row.state = .home
    { row :=
        { userId := signal.userId, environmentId := signal.environmentId, state := .home, source
          since := if wasHome then current.elim 0 (·.since) else signal.at_
          lastHomeAt := signal.at_, lastSignalAt := signal.at_ }
      write := true, changed := !wasHome }
  else if current.any fun row => row.state = .home && row.source ≠ .timeout &&
      signal.at_ - row.lastHomeAt < rules.tunnelGraceSeconds then
    unchanged current
  else
    let wasAway := current.any fun row => row.state = .away
    let strengthened := wasAway && current.any fun row => row.source ≠ source
    { row :=
        { userId := signal.userId, environmentId := signal.environmentId, state := .away, source
          since := if wasAway then current.elim 0 (·.since) else signal.at_
          lastHomeAt := current.elim 0 (·.lastHomeAt), lastSignalAt := signal.at_ }
      write := true, changed := !wasAway || strengthened }

end presence_engine

/-! ### The cache and the table -/

/-- A consent and when it is out of date. -/
structure ConsentEntry where
  consent : Bool
  expiresAt : ℤ
  deriving DecidableEq, Repr

/-- How long a consent is kept. -/
def kConsentCacheSeconds : ℤ := 300

/-- How many consents are kept. -/
def kConsentCacheLimit : ℕ := 4096

/-- `consent_`, and the rows of `guard_presence` by user and environment. -/
structure Db where
  consent : Table ℤ ConsentEntry := ∅
  rows : Table (ℤ × ℤ) PresenceRow := ∅

/-- Whether `remember` finds the cache full. -/
def Db.full (db : Db) (userId : ℤ) : Bool :=
  db.consent.keys.length ≥ kConsentCacheLimit && (db.consent.lookup userId).isNone

/-- `remember` -/
def Db.remember (db : Db) (userId : ℤ) (consent : Bool) (now : ℤ) : Db :=
  let kept := if db.full userId then ∅ else db.consent
  { db with consent := kept.insert userId ⟨consent, now + kConsentCacheSeconds⟩ }

/-- The look of `consented` at the cache. -/
def Db.cached (db : Db) (userId now : ℤ) : Option Bool :=
  match db.consent.lookup userId with
  | some entry => if entry.expiresAt > now then some entry.consent else none
  | none => none

/-- `withdrawn` -/
def Db.withdrawn (db : Db) (userId : ℤ) : Bool :=
  (db.consent.lookup userId).any fun entry => !entry.consent

/-- The rows of a user. -/
def Db.forUser (db : Db) (userId : ℤ) : List PresenceRow :=
  (db.rows.entries.map (·.2)).filter fun row => row.userId = userId

/-- Keep the rows whose key meets a condition. -/
def Db.keep (db : Db) (p : ℤ × ℤ → Bool) : Db :=
  { db with rows := (db.rows.keys.filter fun k => !p k).foldl (fun m k => m.erase k) db.rows }

/-- `REMOVE_USER` -/
def Db.removeUser (db : Db) (userId : ℤ) : Db := db.keep fun k => k.1 ≠ userId

/-- The rows that `EXPIRE_HOME` updates. -/
def PresenceRow.expired (row : PresenceRow) (homeBefore : ℤ) : Bool :=
  row.state = .home && row.lastHomeAt < homeBefore

/-- What `EXPIRE_HOME` sets. -/
def PresenceRow.timedOut (row : PresenceRow) (now : ℤ) : PresenceRow :=
  { row with state := .away, source := .timeout, since := now, lastSignalAt := now }

/-- `EXPIRE_HOME` -/
def Db.expireHome (db : Db) (homeBefore now : ℤ) : Db :=
  { db with rows := db.rows.mapEntries fun row =>
      if row.expired homeBefore then row.timedOut now else row }

/-! ### What the service awaits -/

/-- What the requests await. -/
inductive Op where
  | now
  | cached (userId now : ℤ)
  /-- identity is asked for the consent of a user -/
  | presenceConsent (userId : ℤ)
  | remember (userId : ℤ) (consent : Bool)
  | withdrawn (userId : ℤ)
  | lanEnvironments
  /-- the transaction that applies a signal -/
  | transition (signal : PresenceSignal)
  | removeUser (userId : ℤ)
  | forUser (userId : ℤ)
  | publish (row : PresenceRow)
  | expireHome (homeBefore now : ℤ)
  | purgeStale (signalBefore : ℤ)
  /-- identity is asked who consents -/
  | consentingUsers
  | userIds
  | userOfPerson (personId : ℤ)
  | onAccountDisabled (userId : ℤ)
  deriving DecidableEq

/-- What each of them answers. -/
@[reducible] def Op.Ans : Op → Type
  | .now => ℤ
  | .cached _ _ => Option Bool
  | .presenceConsent _ => Option Bool
  | .withdrawn _ => Bool
  | .lanEnvironments => List ℤ
  | .transition _ => PresenceOutcome
  | .removeUser _ => List ℤ
  | .forUser _ => List PresenceRow
  | .expireHome _ _ => List PresenceRow
  | .consentingUsers => Option (List ℤ)
  | .userIds => List ℤ
  | .userOfPerson _ => Option ℤ
  | _ => Unit

/-- What the outside answers when it is asked. -/
structure Outside where
  now : ℤ := 0
  consent : Option Bool := none
  consenting : Option (List ℤ) := none
  userOfPerson : Option ℤ := none
  lanEnvironments : List ℤ := []
  /-- whether the environment of a signal exists and the transaction commits -/
  commits : Bool := true
  rules : PresenceRules := {}
  /-- the environments that exist, for the purge -/
  environments : List ℤ := []

/-- The decision of a transition; nothing is written when it does not commit. -/
def decision (env : Outside) (db : Db) (signal : PresenceSignal) : PresenceOutcome :=
  let outcome := presence_engine.apply (db.rows.lookup (signal.userId, signal.environmentId))
    signal env.rules
  { outcome with write := outcome.write && env.commits }

/-- The answer of an operation. -/
def answer (env : Outside) (db : Db) : (op : Op) → op.Ans
  | .now => env.now
  | .cached userId now => db.cached userId now
  | .presenceConsent _ => env.consent
  | .withdrawn userId => db.withdrawn userId
  | .lanEnvironments => env.lanEnvironments
  | .transition signal => decision env db signal
  | .removeUser userId => (db.forUser userId).map (·.environmentId)
  | .forUser userId => db.forUser userId
  | .expireHome homeBefore now =>
    ((db.rows.entries.map (·.2)).filter (·.expired homeBefore)).map (·.timedOut now)
  | .consentingUsers => env.consenting
  | .userIds => (db.rows.keys.map (·.1)).dedup
  | .userOfPerson _ => env.userOfPerson
  | .remember _ _ | .publish _ | .purgeStale _ | .onAccountDisabled _ => ()

/-- The cache and the table after an operation. -/
def effect (env : Outside) (db : Db) : Op → Db
  | .remember userId consent => db.remember userId consent env.now
  | .transition signal =>
    let outcome := decision env db signal
    if outcome.write then
      { db with rows := db.rows.insert (signal.userId, signal.environmentId) outcome.row }
    else db
  | .removeUser userId => db.removeUser userId
  | .expireHome homeBefore now => db.expireHome homeBefore now
  | .purgeStale signalBefore => db.keep fun k =>
      (db.rows.lookup k).any (fun row => !decide (row.lastSignalAt < signalBefore)) &&
        env.environments.contains k.2
  | _ => db

/-- Nothing is noted: the claims on this service are about what it stores. -/
def exec (env : Outside) (op : Op) (db : Db) : op.Ans × List Empty × Db :=
  (answer env db op, [], effect env db op)

/-- A task of the service. -/
abbrev PresenceTask := Task Op Op.Ans

/-- Await an operation. -/
def ask (op : Op) : PresenceTask op.Ans := Task.call op

/-! ### The service -/

/-- A sign of a user, in one environment or in those of the house's network. -/
structure PresenceIngestInput where
  userId : ℤ
  environmentId : ℤ
  kind : PresenceSignalKind
  at_ : ℤ
  deriving DecidableEq, Repr

namespace PresenceService

variable (rules : PresenceRules)

/-- `consented` -/
def consented (userId : ℤ) : PresenceTask Bool := do
  let now ← ask .now
  let cached ← ask (.cached userId now)
  match cached with
  | some consent => pure consent
  | none =>
    let answer ← ask (.presenceConsent userId)
    match answer with
    | none => pure false
    | some answer =>
      ask (.remember userId answer)
      pure answer

/-- `forget` -/
def forget (userId : ℤ) : PresenceTask Unit := do
  ask (.remember userId false)
  let environments ← ask (.removeUser userId)
  let now ← ask .now
  Task.each (fun environmentId =>
    ask (.publish ⟨userId, environmentId, .unknown, .consent, now, 0, now⟩)) environments

/-- `announce` -/
def announce (row : PresenceRow) : PresenceTask Unit := do
  let _ ← ask (.forUser row.userId)
  ask (.publish row)

/-- The loop of `ingest` over the environments. -/
def applyEach (input : PresenceIngestInput) : List ℤ → PresenceTask Unit
  | [] => pure ()
  | environmentId :: rest => do
    let decision ← ask (.transition ⟨input.userId, environmentId, input.kind, input.at_⟩)
    if decision.write = false then
      applyEach input rest
    else
      let withdrawn ← ask (.withdrawn input.userId)
      if withdrawn then
        forget input.userId
      else
        if decision.changed then
          announce decision.row
        applyEach input rest

/-- `ingest` -/
def ingest (input : PresenceIngestInput) : PresenceTask Unit := do
  if input.userId ≤ 0 then
    pure ()
  else
    let consented ← consented input.userId
    if consented = false then
      pure ()
    else if input.environmentId > 0 then
      applyEach input [input.environmentId]
    else
      let environments ← ask .lanEnvironments
      applyEach input environments

/-- `onKnownSeen` -/
def onKnownSeen (passerby : Bool) (personId environmentId at_ : ℤ) : PresenceTask Unit := do
  if passerby ∨ personId ≤ 0 ∨ environmentId ≤ 0 then
    pure ()
  else
    let userId ← ask (.userOfPerson personId)
    match userId with
    | none => pure ()
    | some userId => ingest ⟨userId, environmentId, .camera, at_⟩

/-- `onIdentityChange`, of a user with a row; `privacy` is what it decided and allows. -/
def onIdentityChange (userId : ℤ) (isActive : Bool) (privacy : Option (Bool × Bool)) :
    PresenceTask Unit := do
  if userId ≤ 0 then
    pure ()
  else if isActive = false then
    forget userId
    ask (.onAccountDisabled userId)
  else
    match privacy with
    | none => pure ()
    | some (decided, presence) =>
      if decided && presence then
        ask (.remember userId true)
      else
        forget userId

/-- `sweep` -/
def sweep (now : ℤ) : PresenceTask Unit := do
  let expired ← ask (.expireHome (now - rules.awayTimeoutSeconds) now)
  Task.each announce expired
  ask (.purgeStale (now - rules.retentionSeconds))

/-- `reconcileConsent` -/
def reconcileConsent : PresenceTask Unit := do
  let consenting ← ask .consentingUsers
  match consenting with
  | none => pure ()
  | some allowed =>
    Task.each (fun userId => ask (.remember userId true)) allowed.dedup
    let stored ← ask .userIds
    Task.each forget (stored.filter fun userId => !allowed.contains userId)

end PresenceService

/-! ### Requests -/

/-- What the service is asked: by a signal, the change feed or a timer. -/
inductive Request where
  | ingest (input : PresenceIngestInput)
  | knownSeen (passerby : Bool) (personId environmentId at_ : ℤ)
  | identityChange (userId : ℤ) (isActive : Bool) (privacy : Option (Bool × Bool))
  | sweep (now : ℤ)
  | reconcileConsent
  deriving DecidableEq, Repr

open PresenceService in
/-- What serves a request. -/
def program (rules : PresenceRules) : Request → PresenceTask Unit
  | .ingest input => ingest input
  | .knownSeen passerby personId environmentId at_ =>
    onKnownSeen passerby personId environmentId at_
  | .identityChange userId isActive privacy => onIdentityChange userId isActive privacy
  | .sweep now => sweep rules now
  | .reconcileConsent => reconcileConsent

/-- The service at work. -/
abbrev Step (rules : PresenceRules) :=
  @Pool.Step Db Empty Op Outside Request Op.Ans exec (program rules)

/-- No request is being served. -/
def start (db : Db) : Pool Db Op Op.Ans := { shared := db, tasks := [] }

end Presence

end ArgusBackend
