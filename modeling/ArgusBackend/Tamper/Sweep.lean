import ArgusBackend.Library.Passes
import ArgusBackend.Library.Runs
import ArgusBackend.Library.Table
import ArgusBackend.Tamper.Policy

/-!
# The tamper sweep

`checkTamperSweep` over the keys it stores.  What a sweep reads from elsewhere (camera health,
masks, postures, maintenance windows, sightings, asks) and what its raises and effects are answered
is a `Look`, free at every sweep; the running flag of the timer lets one sweep run at a time.

* `observe` : one camera's reading, its onset recorded;
* `raiseGroup` : the alarm of several cameras at once;
* `alarmCamera` : the alarm, ask or notice of one camera;
* `checkTamperSweep` : the sweep, which leaves a `Sweep` as its record.
-/

namespace ArgusBackend

namespace Tamper

open Maintenance (UserRole MaintenanceWindow)

/-- How long something has to last before it counts. -/
structure GuardConfig where
  tamper : TamperWindows := {}
  healthStaleS : ℤ := 300
  tamperSustainedS : ℤ := 300
  offlineSustainedS : ℤ := 240
  deriving DecidableEq, Repr

/-- What a camera last said of itself. -/
structure CameraHealth where
  cameraId : ℤ
  status : HealthStatus
  lastSeenMs : ℤ
  sudden : Bool := false
  link : String := "wifi"
  deriving DecidableEq, Repr

/-- What is wrong with a camera. -/
structure TamperReading where
  cameraId : ℤ
  status : HealthStatus
  sudden : Bool := false
  link : String := "wifi"
  deriving DecidableEq, Repr

/-- A fingerprint joins these with colons. -/
structure Fingerprint where
  firstOnset : ℤ
  cameraIds : List ℤ
  deriving DecidableEq, Repr

/-- What tells groups apart: the first onset and the cameras. -/
def TamperGroup.fingerprint (group : TamperGroup) : Fingerprint := ⟨group.firstOnset, group.cameraIds⟩

/-- The stored keys; a stamp is stored in decimals, and a missing key reads as no stamp. -/
structure Keys where
  /-- `tamper_onset_<camera>` -/
  onset : Table ℤ ℤ := ∅
  /-- `tamper_last_seen_<camera>` -/
  lastSeen : Table ℤ ℤ := ∅
  /-- `tamper_notified_onset_<camera>` -/
  notified : Table ℤ ℤ := ∅
  /-- `tamper_group_<environment>` -/
  group : Table ℤ Fingerprint := ∅

/-- `readStamp` -/
def readStamp (key : Table ℤ ℤ) (cameraId : ℤ) : ℤ := (key.lookup cameraId).getD 0

/-- The id of an alarm. -/
inductive EventId where
  /-- `tamper:<camera>:<onset>` -/
  | camera (cameraId onset : ℤ)
  /-- `tamper:group:<environment>:<fingerprint>` -/
  | group (environmentId : ℤ) (fingerprint : Fingerprint)
  deriving DecidableEq, Repr

/-- The cameras that an alarm is about. -/
def EventId.cameras : EventId → List ℤ
  | .camera cameraId _ => [cameraId]
  | .group _ fingerprint => fingerprint.cameraIds

/-- An alarm that is to be raised. -/
structure TamperRaise where
  cameraId : ℤ
  status : HealthStatus
  onset : ℤ
  now : ℤ
  danger : GuardDanger
  mode : GuardMode
  lost : List ℤ := []
  seenName : String := ""
  seenGuest : Bool := false
  probable : Bool := false
  canClaim : Bool := false
  eventId : EventId
  deriving DecidableEq, Repr

/-- The answers to the question who it was. -/
inductive TamperAskAnswer where
  | pending | me | no | timeout
  deriving DecidableEq, Repr

/-- What became of an alarm. -/
structure EffectResult where
  accepted : Bool := false
  resumable : Bool := false
  deriving DecidableEq, Repr

/-- What one sweep reads and is answered from outside its own keys. -/
structure Look where
  now : ℤ
  config : GuardConfig := {}
  /-- `healthByCamera_`, a map by camera -/
  health : List CameraHealth
  ordered : health.Pairwise (·.cameraId < ·.cameraId)
  maskedCameras : List ℤ := []
  cameraMasked : ℤ → Bool := fun _ => false
  /-- the active windows -/
  windows : List MaintenanceWindow := []
  environmentOf : ℤ → ℤ
  /-- the posture of the camera's environment -/
  mode : ℤ → GuardMode
  familyInside : ℤ → Bool := fun _ => true
  seenNear : ℤ → ℤ → SeenPerson := fun _ _ => {}
  userAway : ℤ → ℤ → Bool := fun _ _ => false
  dutyEnvironments : ℤ → List ℤ := fun _ => []
  askForOnset : ℤ → ℤ → Option TamperAskAnswer := fun _ _ => none
  askHousehold : ℤ → ℤ → Bool := fun _ _ => false
  raiseTamper : TamperRaise → Bool := fun _ => true
  performEffect : ℤ → ℤ → EffectResult := fun _ _ => { accepted := true }

/-- A camera that has been tampered with for long enough. -/
structure Tampering where
  reading : TamperReading
  onset : ℤ
  environmentId : ℤ
  mode : GuardMode
  protect : Bool
  maintained : Bool
  deriving DecidableEq, Repr

/-- What a sweep did about a group. -/
inductive GroupOutcome where
  | known | gone
  | raised (accepted : Bool)
  deriving DecidableEq, Repr

/-- What a sweep did about a camera. -/
inductive CameraOutcome where
  | known | grouped | ignored | maintained | waiting | asked
  | lensNotice (settled : Bool)
  | raised (accepted : Bool)
  deriving DecidableEq, Repr

/-- The outcome marks the onset as notified. -/
def CameraOutcome.marks : CameraOutcome → Bool
  | .maintained => true
  | .lensNotice settled => settled
  | .raised accepted => accepted
  | _ => false

namespace Keys

variable (keys : Keys)

/-- The keys of a camera are cleared. -/
def clear (cameraId : ℤ) : Keys :=
  { keys with onset := keys.onset.erase cameraId
              lastSeen := keys.lastSeen.erase cameraId
              notified := keys.notified.erase cameraId }

/-- `closeTamperForPrivacy` -/
def closeTamperForPrivacy (cameraId : ℤ) : Keys :=
  if readStamp keys.onset cameraId ≤ 0 then keys else keys.clear cameraId

/-- The onset of a camera counts as told. -/
def setNotified (cameraId onset : ℤ) : Keys :=
  { keys with notified := keys.notified.insert cameraId onset }

end Keys

namespace Look

variable (look : Look)

/-- The readings that are not stale. -/
def fresh : List TamperReading :=
  (look.health.filter fun health =>
    ¬look.now - health.lastSeenMs.tdiv 1000 > look.config.healthStaleS).map fun health =>
      { cameraId := health.cameraId, status := health.status, sudden := health.sudden
        link := health.link }

/-- A reading that the sweep follows: tampering, or a lens that went blurred. -/
def followed (reading : TamperReading) : Bool :=
  indicating reading.status reading.sudden || reading.status = .blurred

/-- What a sweep knows of a camera it follows. -/
def tamperingOf (reading : TamperReading) (onset : ℤ) : Tampering where
  reading
  onset
  environmentId := look.environmentOf reading.cameraId
  mode := look.mode reading.cameraId
  protect := protectionExpected (look.mode reading.cameraId)
  maintained := look.windows.any fun window => !window.duress && covers window reading.cameraId

/-- The first loop, at one reading. -/
def observe (keys : Keys) (reading : TamperReading) : Keys × Option Tampering :=
  let cameraId := reading.cameraId
  if look.cameraMasked cameraId then (keys, none)
  else if !followed reading then
    if readStamp keys.onset cameraId > 0 ∧
        look.now - readStamp keys.lastSeen cameraId ≥ look.config.tamperSustainedS then
      (keys.clear cameraId, none)
    else (keys, none)
  else
    let onset := readStamp keys.onset cameraId
    let seen := keys.lastSeen.insert cameraId look.now
    if onset ≤ 0 then
      ({ keys with onset := keys.onset.insert cameraId look.now, lastSeen := seen },
        some (look.tamperingOf reading look.now))
    else ({ keys with lastSeen := seen }, some (look.tamperingOf reading onset))

/-- The readings that may lose their sight together. -/
def refs (tampering : List Tampering) : List TamperReadingRef :=
  (tampering.filter fun entry =>
    !entry.maintained && indicating entry.reading.status entry.reading.sudden).map fun entry =>
      { cameraId := entry.reading.cameraId, environmentId := entry.environmentId
        onsetAt := entry.onset }

/-- The notified keys of a group's cameras. -/
def setMembers (tampering : List Tampering) (keys : Keys) (cameraIds : List ℤ) : Keys :=
  cameraIds.foldl (fun keys cameraId =>
    match tampering.find? (·.reading.cameraId = cameraId) with
    | some member => keys.setNotified cameraId member.onset
    | none => keys) keys

/-- The alarm of a group. -/
def groupRaise (first : Tampering) (group : TamperGroup) : TamperRaise where
  cameraId := group.cameraIds.headD 0
  status := first.reading.status
  onset := group.firstOnset
  now := look.now
  danger := groupDanger first.protect (look.familyInside group.environmentId)
  mode := first.mode
  lost := group.cameraIds
  eventId := .group group.environmentId group.fingerprint

/-- The second loop, at one group. -/
def raiseGroup (tampering : List Tampering) (keys : Keys) (group : TamperGroup) :
    Keys × GroupOutcome :=
  if keys.group.lookup group.environmentId = some group.fingerprint then (keys, .known)
  else
    match tampering.find? (·.reading.cameraId = group.cameraIds.headD 0) with
    | none => (keys, .gone)
    | some first =>
      let accepted := look.raiseTamper (look.groupRaise first group)
      if !accepted then (keys, .raised false)
      else
        -- the group's key first, then the key of each of its cameras
        let stored := { keys with group := keys.group.insert group.environmentId group.fingerprint }
        (setMembers tampering stored group.cameraIds, .raised true)

/-- What is done about a camera, and after how long. -/
def window (entry : Tampering) : TamperWindow :=
  windowFor
    { status := entry.reading.status, sudden := entry.reading.sudden, link := entry.reading.link
      protect := entry.protect, windows := look.config.tamper
      homeS := look.config.tamperSustainedS, offlineHomeS := look.config.offlineSustainedS }

/-- Who was seen near the camera at its onset. -/
def seen (entry : Tampering) : SeenPerson := look.seenNear entry.reading.cameraId (entry.onset * 1000)

/-- What the person who was seen makes of the onset. -/
def verdict (entry : Tampering) : SeenVerdict :=
  let seen := look.seen entry
  let personAway := seen.found && look.userAway entry.environmentId seen.userId
  let onDuty := seen.found && seen.role = .guard && 0 < seen.userId &&
    (look.dutyEnvironments seen.userId).contains entry.environmentId
  seenVerdict seen.found seen.role onDuty personAway entry.protect

/-- The ask for an onset, after the sweep has asked those at home when nobody was asked yet. -/
def standingAsk (entry : Tampering) : Option TamperAskAnswer :=
  match look.askForOnset entry.reading.cameraId entry.onset with
  | some answer => some answer
  | none =>
    if !entry.protect && look.verdict entry = .none &&
        shouldAsk entry.protect (look.verdict entry) (look.familyInside entry.environmentId) &&
        look.askHousehold entry.reading.cameraId entry.onset then some .pending
    else none

/-- How grave the alarm is. -/
def danger (entry : Tampering) : GuardDanger :=
  match look.verdict entry with
  | .homeNotice => .low
  | .lowered => .high
  | .keptCritical => .critical
  | .guestNamed | .none => if entry.protect then .critical else .high

/-- The alarm of a camera. -/
def cameraRaise (entry : Tampering) : TamperRaise where
  cameraId := entry.reading.cameraId
  status := entry.reading.status
  onset := entry.onset
  now := look.now
  danger := look.danger entry
  mode := entry.mode
  seenName := if look.verdict entry = .none then "" else (look.seen entry).name
  seenGuest := look.verdict entry = .guestNamed
  probable := look.verdict entry = .homeNotice || look.verdict entry = .lowered
  canClaim := entry.protect
  eventId := .camera entry.reading.cameraId entry.onset

/-- The last part of the third loop: ask those at home, or raise the alarm once it is due. -/
def askOrRaise (entry : Tampering) : CameraOutcome :=
  let asking := !entry.protect && look.verdict entry = .none
  let ask := look.standingAsk entry
  if asking && (ask = some .pending || ask = some .me) then .asked
  else if !(asking && ask = some .no) && look.now - entry.onset < (look.window entry).afterS then
    .waiting
  else .raised (look.raiseTamper (look.cameraRaise entry))

/-- The third loop, at one camera. -/
def cameraOutcome (grouped : List ℤ) (keys : Keys) (entry : Tampering) : CameraOutcome :=
  let cameraId := entry.reading.cameraId
  let window := look.window entry
  if keys.notified.lookup cameraId = some entry.onset then .known
  else if grouped.contains cameraId then .grouped
  else if window.action = .ignore then .ignored
  else if entry.maintained then .maintained
  else if window.action = .lensNotice then
    if look.now - entry.onset < window.afterS then .waiting
    else
      let sent := look.performEffect cameraId entry.onset
      .lensNotice (sent.accepted || !sent.resumable)
  else look.askOrRaise entry

/-- What a sweep does about a camera. -/
def alarmCamera (grouped : List ℤ) (keys : Keys) (entry : Tampering) : Keys × CameraOutcome :=
  let outcome := look.cameraOutcome grouped keys entry
  (if outcome.marks then keys.setNotified entry.reading.cameraId entry.onset else keys, outcome)

end Look

/-- The record of a sweep. -/
structure Sweep where
  look : Look
  /-- the keys once the readings are recorded -/
  observed : Keys
  tampering : List Tampering
  groups : List (TamperGroup × GroupOutcome)
  cameras : List (Tampering × CameraOutcome)

/-- `checkTamperSweep` -/
def checkTamperSweep (look : Look) (keys : Keys) : Keys × Sweep :=
  let keys := look.maskedCameras.foldl Keys.closeTamperForPrivacy keys
  let seen := Pass.run look.observe keys look.fresh
  let tampering := seen.2.filterMap (·.2)
  let found := groupsOf (Look.refs tampering) look.config.tamper.groupWindowS
  let groups := Pass.run (look.raiseGroup tampering) seen.1 found
  let grouped := found.flatMap (·.cameraIds)
  let cameras := Pass.run (look.alarmCamera grouped) groups.1 tampering
  (cameras.1, { look, observed := seen.1, tampering, groups := groups.2, cameras := cameras.2 })

/-- The stored keys, and the time of the last sweep. -/
structure Db where
  keys : Keys := {}
  clock : ℤ

/-- One sweep after the other, by a clock that does not run backwards. -/
def Step (db : Db) (notes : List Sweep) (db' : Db) : Prop :=
  ∃ look : Look, db.clock ≤ look.now ∧ db'.clock = look.now ∧
    db'.keys = (checkTamperSweep look db.keys).1 ∧ notes = [(checkTamperSweep look db.keys).2]

end Tamper

end ArgusBackend
