import ArgusBackend.Library.Facts

/-!
# Refreshing a session

A session is a chain of rows of `refresh_token`: a refresh consumes the active row and inserts the
next one in one transaction.  It has read the row long before, and asked identity in between.

* `Db` : the table, with the statements that read and write it;
* `Op` : what the service awaits; every transaction is one operation;
* `AuthFeatureService.refreshToken`, `SessionRevocation.revoke` : the requests.

The tokens here carry the id of their session; the lookup of older ones, by the token itself, is
left out.
-/

namespace ArgusBackend

namespace Auth.Refresh

/-! ### The table -/

/-- What a session runs on. -/
inductive SessionPlatform where
  | unknown | android | ios | desktop | web
  deriving DecidableEq

/-- A row of `refresh_token`; of the tokens it holds the hashes. -/
structure RefreshTokenSchema where
  id : ℤ
  userId : ℤ
  accessToken : String
  refreshToken : String
  deviceHash : String
  userAgent : String
  isValid : Bool
  isUsed : Bool
  expiresAt : ℤ
  createdAt : ℤ
  sessionId : String
  platform : SessionPlatform
  deviceName : String
  sessionCreatedAt : ℤ
  lastSeenAt : ℤ
  previousRefreshToken : String
  networkHash : String
  deriving DecidableEq

/-- `is_valid = 1 AND is_used = 0` -/
def RefreshTokenSchema.active (row : RefreshTokenSchema) : Bool := row.isValid && !row.isUsed

/-- `RefreshTokenCreateInput` -/
structure RefreshTokenCreateInput where
  userId : ℤ
  accessToken : String
  refreshToken : String
  deviceHash : String
  userAgent : String
  expiresAt : ℤ
  sessionId : String
  platform : SessionPlatform
  deviceName : String
  sessionCreatedAt : ℤ
  previousRefreshHash : String
  networkHash : String
  deriving DecidableEq

/-- Which sessions of a user are revoked. -/
inductive SessionRevocationScope where
  | one | others | all
  deriving DecidableEq

/-- Which sessions of its user a revocation targets. -/
def targets (scope : SessionRevocationScope) (sessionId session : String) : Bool :=
  match scope with
  | .one => session = sessionId
  | .others => session ≠ sessionId
  | .all => true

/-- The rows in the order of their ids, and the next id, which is never given twice. -/
structure Db where
  rows : List RefreshTokenSchema := []
  nextId : ℤ := 1
  deriving DecidableEq

/-- The active rows of a session. -/
def Db.activeOf (db : Db) (userId : ℤ) (sessionId : String) : List RefreshTokenSchema :=
  db.rows.filter fun row => row.userId = userId && row.sessionId = sessionId && row.active

/-- `FIND_ACTIVE_BY_SESSION`: the last one. -/
def Db.findActiveBySession (db : Db) (userId : ℤ) (sessionId : String) :
    Option RefreshTokenSchema :=
  (db.activeOf userId sessionId).getLast?

/-- The row that `create` inserts. -/
def rowOf (sha256Hex : String → String) (input : RefreshTokenCreateInput) (id now : ℤ) :
    RefreshTokenSchema where
  id
  userId := input.userId
  accessToken := sha256Hex input.accessToken
  refreshToken := sha256Hex input.refreshToken
  deviceHash := input.deviceHash
  userAgent := input.userAgent
  isValid := true
  isUsed := false
  expiresAt := input.expiresAt
  createdAt := now
  sessionId := input.sessionId
  platform := input.platform
  deviceName := input.deviceName
  sessionCreatedAt := if input.sessionCreatedAt > 0 then input.sessionCreatedAt else now
  lastSeenAt := now
  previousRefreshToken := input.previousRefreshHash
  networkHash := input.networkHash

/-- `INSERT` -/
def Db.create (db : Db) (sha256Hex : String → String) (input : RefreshTokenCreateInput)
    (now : ℤ) : Db where
  rows := db.rows ++ [rowOf sha256Hex input db.nextId now]
  nextId := db.nextId + 1

/-- The row that `MARK_USED` finds. -/
def Db.markable (db : Db) (id : ℤ) : Option RefreshTokenSchema :=
  db.rows.find? fun row => row.id = id && row.active

/-- `MARK_USED` -/
def Db.markUsed (db : Db) (id : ℤ) : Db :=
  { db with rows := db.rows.map fun row =>
      if row.id = id ∧ row.active then { row with isUsed := true } else row }

/-- `PRUNE_STALE`, at the time of the database. -/
def Db.pruneStale (db : Db) (userId now : ℤ) : Db :=
  { db with rows := db.rows.filter fun row =>
      !(row.userId = userId && (row.isUsed || !row.isValid || row.expiresAt ≤ now)) }

/-- `INVALIDATE_SESSION`, `INVALIDATE_OTHER_SESSIONS` or `INVALIDATE_ALL_USER` -/
def Db.invalidate (db : Db) (userId : ℤ) (scope : SessionRevocationScope) (sessionId : String) :
    Db :=
  { db with rows := db.rows.map fun row =>
      if row.userId = userId ∧ targets scope sessionId row.sessionId then
        { row with isValid := false }
      else row }

/-- The transaction of a refresh, when `MARK_USED` finds the row. -/
def Db.rotate (db : Db) (sha256Hex : String → String) (id : ℤ) (input : RefreshTokenCreateInput)
    (now : ℤ) : Db :=
  ((db.markUsed id).pruneStale input.userId now).create sha256Hex input now

/-! ### What the service awaits -/

/-- `RefreshTokenInput` -/
structure RefreshTokenInput where
  refreshToken : String
  deviceHash : String
  userAgent : String
  ip : String
  credentialHash : String
  platform : SessionPlatform
  deviceName : String
  networkHash : String
  deriving DecidableEq

/-- `RefreshPresentation` -/
structure RefreshPresentation where
  userId : ℤ
  token : String
  tokenHash : String
  sessionId : String
  deriving DecidableEq

/-- The tokens that a refresh hands out. -/
structure ResponseRefreshTokenDto where
  accessToken : String
  refreshToken : String
  deriving DecidableEq

/-- Why a refresh is refused. -/
inductive Refusal where
  | invalid
  /-- the token is not that of the session, which was looked at then -/
  | stale (session : RefreshTokenSchema) (now : ℤ)
  | expired
  | deviceMismatch
  | identityUnavailable
  | accountDisabled
  /-- `MARK_USED` found nothing -/
  | used
  deriving DecidableEq

/-- What the requests await. -/
inductive Op where
  | now
  | findActiveBySession (userId : ℤ) (sessionId : String)
  | fetchIdentityUser (userId : ℤ)
  | newSessionId
  /-- `generateAccess` and `generateRefresh`, for the claims of a session -/
  | generate (userId : ℤ) (sessionId : String)
  /-- the transaction of a login -/
  | create (input : RefreshTokenCreateInput)
  /-- the transaction of a refresh, for what was presented -/
  | rotate (presented : RefreshPresentation) (id : ℤ) (input : RefreshTokenCreateInput)
  /-- the transaction of a revocation -/
  | invalidate (userId : ℤ) (scope : SessionRevocationScope) (sessionId : String)
  /-- `PRUNE_STALE` by itself; the service only runs it when it rotates -/
  | prune (userId : ℤ)
  | refuse (input : RefreshTokenInput) (refusal : Refusal)
  deriving DecidableEq

/-- What each of them answers. -/
@[reducible] def Op.Ans : Op → Type
  | .now => ℤ
  | .findActiveBySession _ _ => Option RefreshTokenSchema
  | .fetchIdentityUser _ => Option (Option Bool)
  | .newSessionId => String
  | .generate _ _ => ResponseRefreshTokenDto
  | .rotate _ _ _ => Bool
  | _ => Unit

/-- What the outside answers when it is asked. -/
structure Outside where
  now : ℤ := 0
  /-- none when identity cannot be reached; whether the user it knows is active -/
  user : Option (Option Bool) := some (some true)
  sessionId : String := ""
  tokens : ResponseRefreshTokenDto := ⟨"", ""⟩

/-- What the claim is about: what is presented, issued and revoked. -/
inductive Note where
  /-- a login opened a session with this row -/
  | opened (row : RefreshTokenSchema)
  /-- what was presented consumed one row, and another one follows it -/
  | rotated (presented : RefreshPresentation) (row next : RefreshTokenSchema)
  | revoked (userId : ℤ) (scope : SessionRevocationScope) (sessionId : String)
  | refused (input : RefreshTokenInput) (refusal : Refusal)
  deriving DecidableEq

section System

variable (sha256Hex : String → String)

/-- The answer of an operation. -/
def answer (env : Outside) (db : Db) : (op : Op) → op.Ans
  | .now => env.now
  | .findActiveBySession userId sessionId => db.findActiveBySession userId sessionId
  | .fetchIdentityUser _ => env.user
  | .newSessionId => env.sessionId
  | .generate _ _ => env.tokens
  | .rotate _ id _ => (db.markable id).isSome
  | .create _ | .invalidate _ _ _ | .prune _ | .refuse _ _ => ()

/-- The table after an operation. -/
def effect (env : Outside) (db : Db) : Op → Db
  | .create input => db.create sha256Hex input env.now
  | .rotate _ id input => if (db.markable id).isSome then db.rotate sha256Hex id input env.now else db
  | .invalidate userId scope sessionId => db.invalidate userId scope sessionId
  | .prune userId => db.pruneStale userId env.now
  | _ => db

/-- What is noted of an operation. -/
def notes (env : Outside) (db : Db) : Op → List Note
  | .create input => [.opened (rowOf sha256Hex input db.nextId env.now)]
  | .rotate presented id input =>
    (db.markable id).toList.map fun row =>
      .rotated presented row (rowOf sha256Hex input db.nextId env.now)
  | .invalidate userId scope sessionId => [.revoked userId scope sessionId]
  | .refuse input refusal => [.refused input refusal]
  | _ => []

/-- The operations of the service, each as one step. -/
def exec (env : Outside) (op : Op) (db : Db) : op.Ans × List Note × Db :=
  (answer env db op, notes sha256Hex env db op, effect sha256Hex env db op)

end System

/-- A task of the service. -/
abbrev AuthTask := Task Op Op.Ans

/-- Await an operation. -/
def ask (op : Op) : AuthTask op.Ans := Task.call op

/-- A refusal ends the request. -/
def refuse {α : Type} (input : RefreshTokenInput) (refusal : Refusal) : AuthTask α := do
  ask (.refuse input refusal)
  Task.throw

/-! ### The service -/

/-- The claims of a refresh token that carries its session. -/
structure RefreshClaims where
  userId : ℤ
  sessionId : String
  carries : sessionId ≠ ""

/-- What the service is set up with, and the functions it hashes and verifies with. -/
structure Setup where
  sha256Hex : String → String
  /-- the claims of a refresh token, if it verifies -/
  verifyRefresh : String → Option RefreshClaims
  credentialMode : Bool
  isStableUserAgent : String → Bool
  credentialFingerprint : String → String → String
  addressFingerprint : String → String → String
  refreshTtlSeconds : ℤ
  refreshReuseGraceSeconds : ℤ := 30

/-- `SessionRevocation::revoke` -/
def SessionRevocation.revoke (userId : ℤ) (scope : SessionRevocationScope) (sessionId : String) :
    AuthTask Unit :=
  if scope ≠ .all ∧ sessionId = "" then pure () else ask (.invalidate userId scope sessionId)

namespace AuthFeatureService

variable (setup : Setup)

/-- `sameNetwork` -/
def sameNetwork (session : RefreshTokenSchema) (input : RefreshTokenInput) : Bool :=
  if session.networkHash = "" then session.deviceHash = input.deviceHash
  else session.networkHash = input.networkHash

/-- `sameBinding` -/
def sameBinding (session : RefreshTokenSchema) (input : RefreshTokenInput) : Bool :=
  if session.userAgent ≠ input.userAgent then false
  else if setup.credentialMode then session.deviceHash = input.deviceHash
  else sameNetwork session input

/-- `agentUpgradeAllowed` -/
def agentUpgradeAllowed (session : RefreshTokenSchema) (input : RefreshTokenInput) : Bool :=
  if setup.isStableUserAgent session.userAgent || !setup.isStableUserAgent input.userAgent then
    false
  else if setup.credentialMode then
    input.credentialHash ≠ "" &&
      setup.credentialFingerprint session.userAgent input.credentialHash = session.deviceHash
  else setup.addressFingerprint session.userAgent input.ip = session.deviceHash

/-- `racedRotation`: the token before the last, back from the same place and within the grace. -/
def racedRotation (session : RefreshTokenSchema) (input : RefreshTokenInput) (tokenHash : String)
    (now : ℤ) : Bool :=
  session.previousRefreshToken = tokenHash &&
    now - session.createdAt ≤ setup.refreshReuseGraceSeconds && sameBinding setup session input

/-- `settleStaleToken`; it returns when it looked, for the notes. -/
def settleStaleToken (session : RefreshTokenSchema) (input : RefreshTokenInput)
    (tokenHash : String) : AuthTask ℤ := do
  let now ← ask .now
  if racedRotation setup session input tokenHash now then
    pure now
  else
    SessionRevocation.revoke session.userId .one session.sessionId
    pure now

/-- Whether a request goes on when identity does not answer. -/
inductive IdentityLookup where
  | bestEffort | required
  deriving DecidableEq

/-- `refuseDisabledAccount` -/
def refuseDisabledAccount (input : RefreshTokenInput) (userId : ℤ) (lookup : IdentityLookup) :
    AuthTask Unit := do
  let user ← ask (.fetchIdentityUser userId)
  match user with
  | none =>
    match lookup with
    | .required => refuse input .identityUnavailable
    | .bestEffort => pure ()
  | some (some false) =>
    SessionRevocation.revoke userId .all ""
    refuse input .accountDisabled
  | some _ => pure ()

/-- The row that follows a row that is consumed, as `refreshToken` asks for it. -/
def following (presented : RefreshPresentation) (existing : RefreshTokenSchema)
    (input : RefreshTokenInput) (upgraded : Bool) (now : ℤ) (tokens : ResponseRefreshTokenDto) :
    RefreshTokenCreateInput where
  userId := presented.userId
  accessToken := tokens.accessToken
  refreshToken := tokens.refreshToken
  deviceHash := input.deviceHash
  userAgent := if upgraded then input.userAgent else existing.userAgent
  expiresAt := now + setup.refreshTtlSeconds
  sessionId := existing.sessionId
  platform := if input.platform = .unknown then existing.platform else input.platform
  deviceName := if input.deviceName = "" then existing.deviceName else input.deviceName
  sessionCreatedAt :=
    if existing.sessionCreatedAt > 0 then existing.sessionCreatedAt else existing.createdAt
  previousRefreshHash := presented.tokenHash
  networkHash := input.networkHash

/-- `refreshToken`, once the row of the session is read. -/
def refreshFrom (input : RefreshTokenInput) (presented : RefreshPresentation)
    (existing : RefreshTokenSchema) : AuthTask ResponseRefreshTokenDto := do
  if existing.refreshToken ≠ presented.tokenHash ∧ existing.refreshToken ≠ presented.token then
    let now ← settleStaleToken setup existing input presented.tokenHash
    refuse input (.stale existing now)
  else
    let now ← ask .now
    let upgraded := !sameBinding setup existing input && agentUpgradeAllowed setup existing input
    if existing.expiresAt ≤ now then
      refuse input .expired
    else if !sameBinding setup existing input && !upgraded then
      refuse input .deviceMismatch
    else
      refuseDisabledAccount input presented.userId .required
      let tokens ← ask (.generate presented.userId existing.sessionId)
      let rotated ← ask (.rotate presented existing.id
        (following setup presented existing input upgraded now tokens))
      if rotated then pure tokens else refuse input .used

/-- `refreshToken` -/
def refreshToken (input : RefreshTokenInput) : AuthTask ResponseRefreshTokenDto := do
  match setup.verifyRefresh input.refreshToken with
  | none => refuse input .invalid
  | some claims =>
    let presented : RefreshPresentation :=
      ⟨claims.userId, input.refreshToken, setup.sha256Hex input.refreshToken, claims.sessionId⟩
    let existing ← ask (.findActiveBySession claims.userId claims.sessionId)
    match existing with
    | none =>
      refuseDisabledAccount input claims.userId .bestEffort
      refuse input .invalid
    | some existing => refreshFrom setup input presented existing

/-- `issueSession`, of which the row of the new session is kept. -/
def issueSession (userId : ℤ) (device : RefreshTokenInput) : AuthTask ResponseRefreshTokenDto := do
  let sessionId ← ask .newSessionId
  let tokens ← ask (.generate userId sessionId)
  let now ← ask .now
  ask (.create
    { userId, accessToken := tokens.accessToken, refreshToken := tokens.refreshToken
      deviceHash := device.deviceHash, userAgent := device.userAgent
      expiresAt := now + setup.refreshTtlSeconds, sessionId, platform := device.platform
      deviceName := device.deviceName, sessionCreatedAt := 0, previousRefreshHash := ""
      networkHash := device.networkHash })
  pure tokens

end AuthFeatureService

/-! ### Requests -/

/-- What the service is asked, or does by its timer. -/
inductive Request where
  | refresh (input : RefreshTokenInput)
  | login (userId : ℤ) (device : RefreshTokenInput)
  | revoke (userId : ℤ) (scope : SessionRevocationScope) (sessionId : String)
  | prune (userId : ℤ)
  deriving DecidableEq

open Auth.Refresh.AuthFeatureService in
/-- What serves a request. -/
def program (setup : Setup) : Request → AuthTask Unit
  | .refresh input => do
    let _ ← refreshToken setup input
    pure ()
  | .login userId device => do
    let _ ← issueSession setup userId device
    pure ()
  | .revoke userId scope sessionId => SessionRevocation.revoke userId scope sessionId
  | .prune userId => ask (.prune userId)

/-- The service at work. -/
abbrev Step (setup : Setup) :=
  @Pool.Step Db Note Op Outside Request Op.Ans (exec setup.sha256Hex) (program setup)

/-- No session is open yet. -/
def start : Pool Db Op Op.Ans := { shared := {}, tasks := [] }

end Auth.Refresh

end ArgusBackend
