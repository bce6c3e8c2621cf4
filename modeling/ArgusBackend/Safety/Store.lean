import ArgusBackend.Library.Table
import ArgusBackend.Library.Tasks
import Mathlib.Data.Finset.Basic

/-!
# The tables of the safety feature

`Db` holds the safety setting, the PINs of the users and the failed attempts at them, and the users
whose attempt is in flight (`PinAttempts::inFlight_`).  `Op` is what the service awaits: each
statement and each transaction acts at once, and what runs outside (the hashes on the blocking
lane, the clock, the sink) is answered by the environment.
-/

namespace ArgusBackend

namespace Safety

/-- Whether duress is on, and its phrase. -/
structure SafetySetting where
  duressEnabled : Bool := false
  updatedAt : ℤ := 0
  updatedBy : ℤ := 0
  phraseKey : String := ""
  deriving DecidableEq, Repr

/-- The PINs of a user. -/
structure UserPinRow where
  userId : ℤ
  disarmHash : String
  duressHash : String
  updatedAt : ℤ
  deriving DecidableEq, Repr

/-- A try of a PIN that counts. -/
structure PinFailureInput where
  userId : ℤ
  at_ : ℤ
  deriving DecidableEq, Repr

/-- A user who disarms with a PIN. -/
structure DisarmRequest where
  userId : ℤ
  userName : String
  pin : Option String
  environmentId : Option ℤ
  deriving DecidableEq, Repr

/-- Which of the two PINs was entered. -/
structure PinMatch where
  disarm : Bool := false
  duress : Bool := false
  deriving DecidableEq, Repr

/-- What is to become of the phrase. -/
inductive PhraseChange where
  | keep | clear | set
  deriving DecidableEq, Repr

/-- Who is reached in an emergency. -/
inductive SafetyReach where
  | others | contacts | nobody | unknown
  deriving DecidableEq, Repr

/-- A camera that shows nothing. -/
structure MaskedCamera where
  cameraId : ℤ
  name : String
  deriving DecidableEq, Repr

/-- `SafetyErrors`, with the one error of `GuardErrors` the service throws. -/
inductive SafetyError where
  | pinRequired | pinInvalid | pinLocked | duressDisabled | pinsMustDiffer | phraseInvalid
  deriving DecidableEq, Repr

/-- Duress is to be on or off. -/
structure SafetyToggleInput where
  duressEnabled : Bool
  actorUserId : ℤ
  actorName : String
  currentPin : Option String
  deriving DecidableEq, Repr

/-- Duress and its phrase are to change. -/
structure SafetyUpdateInput where
  toggle : SafetyToggleInput
  phraseChange : PhraseChange
  phrase : String
  deriving DecidableEq, Repr

/-- What the transaction of `update` writes: the setting it read, and the phrase key that is to
stand from now on. -/
structure SettingChange where
  input : SafetyUpdateInput
  current : SafetySetting
  phraseKey : String
  at_ : ℤ
  deriving DecidableEq, Repr

/-- The tables, and the users with a try under way. -/
structure Db where
  setting : SafetySetting := {}
  pins : Table ℤ UserPinRow := ∅
  attempts : List PinFailureInput := []
  inFlight : Finset ℤ := ∅

/-! ### The statements -/

namespace Db

variable (db : Db)

/-- `UPSERT_SETTING` -/
def upsertSetting (duressEnabled : Bool) (now updatedBy : ℤ) : Db :=
  { db with setting :=
    { db.setting with duressEnabled := duressEnabled, updatedAt := now, updatedBy := updatedBy } }

/-- `UPSERT_PHRASE` -/
def upsertPhrase (phraseKey : String) (now updatedBy : ℤ) : Db :=
  { db with setting :=
    { db.setting with phraseKey := phraseKey, updatedAt := now, updatedBy := updatedBy } }

/-- `UPSERT_PIN` -/
def upsertPin (pin : UserPinRow) : Db := { db with pins := db.pins.insert pin.userId pin }

/-- `DELETE_PIN` -/
def deletePin (userId : ℤ) : Db := { db with pins := db.pins.erase userId }

/-- `DELETE_ALL_PINS` -/
def deleteAllPins : Db := { db with pins := ∅ }

/-- `PRUNE_USER` -/
def pruneUser (userId since : ℤ) : Db :=
  { db with attempts := db.attempts.filter fun a => !(a.userId = userId ∧ a.at_ ≤ since) }

/-- `COUNT_SINCE` -/
def countSince (userId since : ℤ) : ℕ :=
  db.attempts.countP fun a => a.userId = userId ∧ since < a.at_

/-- `INSERT_FAILURE` -/
def insertFailure (failure : PinFailureInput) : Db :=
  { db with attempts := db.attempts ++ [failure] }

/-- `CLEAR_USER` -/
def clearUser (userId : ℤ) : Db :=
  { db with attempts := db.attempts.filter fun a => a.userId ≠ userId }

/-- `PURGE_BEFORE` -/
def purgeBefore (cutoff : ℤ) : Db :=
  { db with attempts := db.attempts.filter fun a => cutoff < a.at_ }

/-- The transaction of `update`: the setting, the phrase if it changes from what was read, and the
PINs when duress is turned off. -/
def update (change : SettingChange) : Db :=
  let toggle := change.input.toggle
  let db := db.upsertSetting toggle.duressEnabled change.at_ toggle.actorUserId
  let db := if change.phraseKey ≠ change.current.phraseKey then
    db.upsertPhrase change.phraseKey change.at_ toggle.actorUserId else db
  if toggle.duressEnabled then db else db.deleteAllPins

end Db

/-! ### What the service awaits -/

/-- What the requests await. -/
inductive Op where
  | now
  | findSetting
  | findPin (userId : ℤ)
  /-- `inFlight_.insert` -/
  | occupy (userId : ℤ)
  /-- `inFlight_.erase` -/
  | release (userId : ℤ)
  | pruneUser (userId since : ℤ)
  | countSince (userId since : ℤ)
  | recordFailure (failure : PinFailureInput)
  | clear (userId : ℤ)
  | purgeBefore (cutoff : ℤ)
  /-- `pin_hash::verify` of the entered PIN against both hashes, on the blocking lane -/
  | verify (entered disarmHash duressHash : String)
  /-- `pin_hash::make` of both PINs, on the blocking lane -/
  | makeHashes (disarmPin duressPin : String)
  /-- `secret_phrase::seal` and `encode`, on the blocking lane -/
  | seal (phrase : String)
  | upsertPin (pin : UserPinRow)
  | removePin (userId : ℤ)
  | updateSetting (change : SettingChange)
  | duress (request : DisarmRequest)
  | reach (userId : ℤ)
  | maskedCameras
  /-- the exception with which a request of the user is answered -/
  | refuse (userId : ℤ) (error : SafetyError)

/-- What each of them answers. -/
@[reducible] def Op.Ans : Op → Type
  | .now => ℤ
  | .findSetting => SafetySetting
  | .findPin _ => Option UserPinRow
  | .occupy _ => Bool
  | .countSince _ _ | .purgeBefore _ => ℕ
  | .verify _ _ _ => PinMatch
  | .makeHashes _ _ => String × String
  | .seal _ => Option String
  | .reach _ => SafetyReach
  | .maskedCameras => List MaskedCamera
  | _ => Unit

/-- What the outside answers when it is asked. -/
structure Outside where
  now : ℤ := 0
  entered : PinMatch := {}
  hashes : String × String := ("", "")
  sealed : Option String := none
  reach : SafetyReach := .unknown
  maskedCameras : List MaskedCamera := []

/-- An operation took place: what it found stored, and what it left. -/
structure Note where
  before : Db
  op : Op
  after : Db

/-- The answer to an operation. -/
def answer (env : Outside) (db : Db) : (op : Op) → op.Ans
  | .now => env.now
  | .findSetting => db.setting
  | .findPin userId => db.pins.lookup userId
  | .occupy userId => decide (userId ∉ db.inFlight)
  | .countSince userId since => db.countSince userId since
  | .purgeBefore cutoff => db.attempts.length - (db.purgeBefore cutoff).attempts.length
  | .verify _ _ _ => env.entered
  | .makeHashes _ _ => env.hashes
  | .seal _ => env.sealed
  | .reach _ => env.reach
  | .maskedCameras => env.maskedCameras
  | .release _ | .pruneUser _ _ | .recordFailure _ | .clear _ | .upsertPin _ | .removePin _
  | .updateSetting _ | .duress _ | .refuse _ _ => ()

/-- What an operation leaves stored. -/
def effect (db : Db) : Op → Db
  | .occupy userId => { db with inFlight := insert userId db.inFlight }
  | .release userId => { db with inFlight := db.inFlight.erase userId }
  | .pruneUser userId since => db.pruneUser userId since
  | .recordFailure failure => db.insertFailure failure
  | .clear userId => db.clearUser userId
  | .purgeBefore cutoff => db.purgeBefore cutoff
  | .upsertPin pin => db.upsertPin pin
  | .removePin userId => db.deletePin userId
  | .updateSetting change => db.update change
  | _ => db

/-- The answer of an operation, what is noted of it, and the tables after it. -/
def exec (env : Outside) (op : Op) (db : Db) : op.Ans × List Note × Db :=
  (answer env db op, [⟨db, op, effect db op⟩], effect db op)

/-- A task of the service. -/
abbrev SafetyTask := Task Op Op.Ans

end Safety

end ArgusBackend
