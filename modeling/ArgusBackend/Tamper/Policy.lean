import ArgusBackend.Library.Ranks
import ArgusBackend.Maintenance.Service

/-!
# What the reading of a camera's health means

The pure part of the tamper sweep: which states of a camera read as tampering, after how long each
of them alarms, and which cameras of an environment lost their sight together.
-/

namespace ArgusBackend

namespace Tamper

open Maintenance (UserRole MaintenanceWindow)

/-- The states that the health monitor tells apart; the others say nothing about tampering. -/
inductive HealthStatus where
  | moved | covered | whiteout | blinded | partialCover | darkSudden | unreachable | blurred
  | other (name : String)
  deriving DecidableEq, Repr

/-- The modes of the guard. -/
inductive GuardMode where
  | home | away | night | armed
  deriving DecidableEq, Repr

/-- The grades of danger. -/
inductive GuardDanger where
  | none | low | medium | high | critical
  deriving DecidableEq, Repr

/-- `protectionExpected` -/
def protectionExpected (mode : GuardMode) : Bool :=
  mode = .away || mode = .armed || mode = .night

/-- `MaintenanceWindow::covers` -/
def covers (window : MaintenanceWindow) (cameraId : ℤ) : Bool := window.cameraIds.contains cameraId

/-- How long a state of a camera has to last. -/
structure TamperWindows where
  coverS : ℤ := 15
  whiteoutS : ℤ := 15
  blindS : ℤ := 10
  blindHomeS : ℤ := 120
  partialS : ℤ := 45
  defocusS : ℤ := 60
  reaimS : ℤ := 20
  darkS : ℤ := 45
  signalWiredS : ℤ := 15
  signalWifiS : ℤ := 30
  groupWindowS : ℤ := 30
  lensNoticeS : ℤ := 600
  deriving DecidableEq, Repr

/-- What is done about a camera. -/
inductive TamperAction where
  | ignore | alarm | lensNotice
  deriving DecidableEq, Repr

/-- What is done, and after how long. -/
structure TamperWindow where
  action : TamperAction := .ignore
  afterS : ℤ := 0
  deriving DecidableEq, Repr

/-- What is known of a camera. -/
structure TamperWindowInput where
  status : HealthStatus
  sudden : Bool := false
  link : String
  protect : Bool := false
  windows : TamperWindows
  homeS : ℤ := 300
  offlineHomeS : ℤ := 240
  deriving DecidableEq, Repr

/-- `guard_tamper::indicating` -/
def indicating (status : HealthStatus) (sudden : Bool) : Bool :=
  match status with
  | .blurred => sudden
  | .moved | .covered | .whiteout | .blinded | .partialCover | .darkSudden | .unreachable => true
  | .other _ => false

/-- `guard_tamper::windowFor` -/
def windowFor (input : TamperWindowInput) : TamperWindow :=
  let windows := input.windows
  match input.status with
  | .covered => ⟨.alarm, if input.protect then windows.coverS else input.homeS⟩
  | .whiteout => ⟨.alarm, if input.protect then windows.whiteoutS else input.homeS⟩
  | .blinded => ⟨.alarm, if input.protect then windows.blindS else windows.blindHomeS⟩
  | .partialCover => ⟨.alarm, if input.protect then windows.partialS else input.homeS⟩
  | .moved => ⟨.alarm, if input.protect then windows.reaimS else input.homeS⟩
  | .darkSudden => if input.protect then ⟨.alarm, windows.darkS⟩ else ⟨.ignore, 0⟩
  | .unreachable =>
    if !input.protect then ⟨.alarm, input.offlineHomeS⟩
    else ⟨.alarm, if input.link = "wired" then windows.signalWiredS else windows.signalWifiS⟩
  | .blurred =>
    if input.sudden && input.protect then ⟨.alarm, windows.defocusS⟩
    else ⟨.lensNotice, windows.lensNoticeS⟩
  | .other _ => ⟨.ignore, 0⟩

/-- What alarms reads as tampering. -/
theorem indicating_of_alarm {input : TamperWindowInput} (h : (windowFor input).action = .alarm) :
    indicating input.status input.sudden = true := by
  unfold windowFor at h
  cases hstatus : input.status with
  | blurred =>
    simp only [hstatus] at h
    split at h
    next hboth => exact (Bool.and_eq_true_iff.1 hboth).1
    next => cases h
  | other name =>
    rw [hstatus] at h
    cases h
  | _ => rfl

/-- A camera that was tampered with, and since when. -/
structure TamperReadingRef where
  cameraId : ℤ
  environmentId : ℤ
  onsetAt : ℤ
  deriving DecidableEq, Repr

/-- Cameras of an environment that were tampered with together. -/
structure TamperGroup where
  environmentId : ℤ
  cameraIds : List ℤ
  firstOnset : ℤ
  deriving DecidableEq, Repr

/-- From the first reading of a cluster on: readings that start within `windowS` of it join it,
the next one starts another cluster. -/
def clustersFrom (windowS : ℤ) (start : TamperReadingRef) (members : List TamperReadingRef) :
    List TamperReadingRef → List (List TamperReadingRef)
  | [] => [members]
  | reading :: rest =>
    if reading.onsetAt - start.onsetAt ≤ windowS then
      clustersFrom windowS start (members ++ [reading]) rest
    else members :: clustersFrom windowS reading [reading] rest

/-- The readings in clusters, each within a span of its first one. -/
def clusters (windowS : ℤ) : List TamperReadingRef → List (List TamperReadingRef)
  | [] => []
  | reading :: rest => clustersFrom windowS reading [reading] rest

/-- The group that a cluster makes, when it has two cameras or more. -/
def groupOf (environmentId : ℤ) : List TamperReadingRef → Option TamperGroup
  | first :: second :: rest =>
    some { environmentId, firstOnset := first.onsetAt
           cameraIds := ((first :: second :: rest).map (·.cameraId)).insertionSort (· ≤ ·) }
  | _ => none

/-- `guard_tamper::groupsOf` -/
def groupsOf (readings : List TamperReadingRef) (windowS : ℤ) : List TamperGroup :=
  (Ranks.distinct (readings.map (·.environmentId))).flatMap fun environmentId =>
    let members := (readings.filter (·.environmentId = environmentId)).insertionSort
      (·.onsetAt ≤ ·.onsetAt)
    (clusters windowS members).filterMap (groupOf environmentId)

/-- `guard_tamper::groupDanger` -/
def groupDanger (protect anyoneHome : Bool) : GuardDanger :=
  if protect || !anyoneHome then .critical else .high

/-- Who was seen. -/
structure SeenPerson where
  found : Bool := false
  userId : ℤ := 0
  name : String := ""
  role : UserRole := .unknown
  deriving DecidableEq, Repr

/-- What the person who was seen makes of an onset. -/
inductive SeenVerdict where
  | none | homeNotice | lowered | keptCritical | guestNamed
  deriving DecidableEq, Repr

/-- `guard_tamper::seenVerdict` -/
def seenVerdict (found : Bool) (role : UserRole) (onDuty personAway protect : Bool) : SeenVerdict :=
  if !found then .none
  else if role = .guest then .guestNamed
  else if !(role = .owner || role = .resident || (role = .guard && onDuty)) then .none
  else if !protect then .homeNotice
  else if personAway then .keptCritical
  else .lowered

/-- `guard_tamper::shouldAsk` -/
def shouldAsk (protect : Bool) (seen : SeenVerdict) (anyoneHome : Bool) : Bool :=
  !protect && seen = .none && anyoneHome

end Tamper

end ArgusBackend
