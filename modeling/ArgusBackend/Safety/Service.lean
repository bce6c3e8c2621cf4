import ArgusBackend.Safety.Store

/-!
# The PINs and the duress settings

The requests of `SafetyService` that read or write the PINs and the setting, as programs, with the
attempts at a PIN (`PinAttempts`).  What they tell the resource-change outbox belongs to the same
transactions and is left out.
-/

namespace ArgusBackend

namespace Safety

/-- `PinAttempts::Limits` -/
structure Limits where
  maxFailures : ℕ := 5
  windowSeconds : ℤ := 900
  deriving DecidableEq, Repr

/-- A try of a PIN, and when. -/
structure PinAttemptAt where
  userId : ℤ
  now : ℤ

/-- Whether a try is admitted, and whether the user is locked out. -/
structure PinReservation where
  admitted : Bool
  isLocked : Bool
  deriving DecidableEq, Repr

/-- What a PIN that is right stands for. -/
inductive DisarmVerdict where
  | allowed | duress
  deriving DecidableEq, Repr

/-- The PINs that a user sets. -/
structure PinSetInput where
  userId : ℤ
  userName : String
  disarmPin : String
  duressPin : String
  currentPin : Option String
  deriving DecidableEq, Repr

/-- A user who removes their PINs. -/
structure PinRemoveInput where
  userId : ℤ
  userName : String
  currentPin : Option String
  deriving DecidableEq, Repr

/-- What a user is shown. -/
structure SafetyStatus where
  duressEnabled : Bool
  hasPin : Bool
  hasPhrase : Bool
  reach : SafetyReach
  maskedCameras : List MaskedCamera

/-- Await an operation. -/
def ask (op : Op) : SafetyTask op.Ans := Task.call op

/-- Answer the user with an error. -/
def refuse {α : Type} (userId : ℤ) (error : SafetyError) : SafetyTask α := do
  ask (.refuse userId error)
  Task.throw

/-! ### Attempts at a PIN -/

namespace PinAttempts

variable (limits : Limits)

/-- `PinAttempts::locked`, with `PinAttemptRepository::failuresSince` -/
def locked (attempt : PinAttemptAt) : SafetyTask Bool := do
  ask (.pruneUser attempt.userId (attempt.now - limits.windowSeconds))
  let failures ← ask (.countSince attempt.userId (attempt.now - limits.windowSeconds))
  pure (decide (limits.maxFailures ≤ failures))

/-- The guarded part of `reserve`. -/
def admitAttempt (at_ : PinAttemptAt) : SafetyTask PinReservation := do
  let lockedOut ← locked limits at_
  if lockedOut then
    pure { admitted := true, isLocked := true }
  else
    ask (.recordFailure ⟨at_.userId, at_.now⟩)
    pure { admitted := true, isLocked := false }

/-- A try takes a place and is admitted; the place is released when that throws. -/
def reserve (at_ : PinAttemptAt) : SafetyTask PinReservation := do
  let admitted ← ask (.occupy at_.userId)
  if admitted = false then
    pure { admitted := false, isLocked := false }
  else
    let reservation ← (admitAttempt limits at_).attempt
    match reservation with
    | some reservation => pure reservation
    | none =>
      ask (.release at_.userId)
      Task.throw

/-- A try is over; one that succeeded clears the count. -/
def settle (userId : ℤ) (success : Bool) : SafetyTask Unit := do
  ask (.release userId)
  if success then
    ask (.clear userId)

/-- The attempts that are too old to count are deleted. -/
def purgeExpired (now : ℤ) : SafetyTask ℕ := ask (.purgeBefore (now - limits.windowSeconds))

end PinAttempts

/-! ### The service -/

namespace SafetyService

variable (limits : Limits)

/-- `verifyPin` -/
def verifyPin (request : DisarmRequest) (pin : UserPinRow) : SafetyTask DisarmVerdict := do
  match request.pin with
  | none => refuse request.userId .pinRequired
  | some entered =>
    if entered = "" then
      refuse request.userId .pinRequired
    else
      let now ← ask .now
      let reservation ← PinAttempts.reserve limits ⟨request.userId, now⟩
      if reservation.admitted = false then
        refuse request.userId .pinLocked
      else
        let found ← (ask (.verify entered pin.disarmHash pin.duressHash)).attempt
        match found with
        | none =>
          ask (.release request.userId)
          Task.throw
        | some found =>
          let accepted := !reservation.isLocked && (found.duress || found.disarm)
          PinAttempts.settle request.userId accepted
          if reservation.isLocked then
            if found.duress then
              ask (.duress request)
            refuse request.userId .pinLocked
          else if found.duress then
            pure .duress
          else if found.disarm then
            pure .allowed
          else
            refuse request.userId .pinInvalid

/-- A user with a PIN has to give it. -/
def requireCurrentPin (request : DisarmRequest) : SafetyTask Unit := do
  let stored ← ask (.findPin request.userId)
  match stored with
  | none => pure ()
  | some pin =>
    let verdict ← verifyPin limits request pin
    if verdict = .duress then
      ask (.duress request)

/-- What a user is shown. -/
def status (userId : ℤ) (setting : SafetySetting) (hasPin : Bool) : SafetyTask SafetyStatus := do
  let reach ← ask (.reach userId)
  let maskedCameras ← ask .maskedCameras
  pure
    { duressEnabled := setting.duressEnabled
      hasPin := hasPin
      hasPhrase := setting.duressEnabled && setting.phraseKey ≠ ""
      reach, maskedCameras }

/-- `setPin` -/
def setPin (input : PinSetInput) : SafetyTask SafetyStatus := do
  let setting ← ask .findSetting
  if setting.duressEnabled = false then
    refuse input.userId .duressDisabled
  else if input.disarmPin = input.duressPin then
    refuse input.userId .pinsMustDiffer
  else
    requireCurrentPin limits
      { userId := input.userId, userName := input.userName, pin := input.currentPin
        environmentId := none }
    let hashes ← ask (.makeHashes input.disarmPin input.duressPin)
    let now ← ask .now
    ask (.upsertPin ⟨input.userId, hashes.1, hashes.2, now⟩)
    ask (.clear input.userId)
    -- duress was enabled when the setting was read
    status input.userId setting true

/-- `removePin` -/
def removePin (input : PinRemoveInput) : SafetyTask SafetyStatus := do
  requireCurrentPin limits
    { userId := input.userId, userName := input.userName, pin := input.currentPin
      environmentId := none }
  ask (.removePin input.userId)
  ask (.clear input.userId)
  let setting ← ask .findSetting
  status input.userId setting false

/-- Nothing is kept of a user. -/
def forgetUser (userId : ℤ) : SafetyTask Unit := do
  ask (.removePin userId)
  ask (.clear userId)

/-- A phrase is sealed, or refused. -/
def sealPhrase (userId : ℤ) (phrase : String) : SafetyTask String := do
  let sealed ← ask (.seal phrase)
  match sealed with
  | none => refuse userId .phraseInvalid
  | some phraseKey => pure phraseKey

/-- The phrase key that `update` lets stand, from the setting it read. -/
def phraseKeyAfter (input : SafetyUpdateInput) (current : SafetySetting) : SafetyTask String :=
  if !input.toggle.duressEnabled || input.phraseChange = .clear then
    pure ""
  else if input.phraseChange = .set then
    sealPhrase input.toggle.actorUserId input.phrase
  else
    pure current.phraseKey

/-- `update` -/
def update (input : SafetyUpdateInput) : SafetyTask SafetySetting := do
  let toggle := input.toggle
  let current ← ask .findSetting
  if !toggle.duressEnabled && input.phraseChange = .set then
    refuse toggle.actorUserId .duressDisabled
  else
    let turningOff := !toggle.duressEnabled && current.duressEnabled
    let phraseChanges := input.phraseChange ≠ .keep && current.duressEnabled
    if turningOff || phraseChanges then
      requireCurrentPin limits
        { userId := toggle.actorUserId, userName := toggle.actorName, pin := toggle.currentPin
          environmentId := none }
    let phraseKey ← phraseKeyAfter input current
    let now ← ask .now
    ask (.updateSetting ⟨input, current, phraseKey, now⟩)
    pure
      { duressEnabled := toggle.duressEnabled, updatedAt := now, updatedBy := toggle.actorUserId
        phraseKey }

/-- `toggle` -/
def toggle (input : SafetyToggleInput) : SafetyTask SafetySetting :=
  update limits { toggle := input, phraseChange := .keep, phrase := "" }

/-- The part of `purgeExpired` that concerns the attempts. -/
def purgeExpired : SafetyTask ℕ := do
  let now ← ask .now
  PinAttempts.purgeExpired limits now

end SafetyService

/-! ### Requests -/

/-- What the service is asked. -/
inductive Request where
  | setPin (input : PinSetInput)
  | removePin (input : PinRemoveInput)
  | forgetUser (userId : ℤ)
  | update (input : SafetyUpdateInput)
  | toggle (input : SafetyToggleInput)
  | purgeExpired
  deriving DecidableEq, Repr

open SafetyService in
/-- What serves a request. -/
def program (limits : Limits) : Request → SafetyTask Unit
  | .setPin input => do
    let _ ← setPin limits input
    pure ()
  | .removePin input => do
    let _ ← removePin limits input
    pure ()
  | .forgetUser userId => forgetUser userId
  | .update input => do
    let _ ← update limits input
    pure ()
  | .toggle input => do
    let _ ← toggle limits input
    pure ()
  | .purgeExpired => do
    let _ ← purgeExpired limits
    pure ()

/-- The service at work. -/
abbrev Step (limits : Limits) :=
  @Pool.Step Db Note Op Outside Request Op.Ans exec (program limits)

/-- No request is being served. -/
def start (db : Db) : Pool Db Op Op.Ans := { shared := db, tasks := [] }

end Safety

end ArgusBackend
