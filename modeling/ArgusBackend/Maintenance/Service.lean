import ArgusBackend.Library.Facts
import ArgusBackend.Library.Ranks
import ArgusBackend.Library.Serial

/-!
# Maintenance windows

While a maintenance window is active, what happens to the view of its cameras is no alarm.  A window
is stored with one environment and the cameras it covers; the service opens windows, and ends them
when they are done, when they expire, and when an unknown person is seen in their environment.

* `Places` : which camera is assigned to which environment;
* `Db` : the table of windows;
* `MaintenanceService.declare`, `end_`, `expireDue`, `endForUnknownPerson` : the requests.
-/

namespace ArgusBackend

namespace Maintenance

/-- The roles of a user. -/
inductive UserRole where
  | owner | resident | guard | guest | unknown
  deriving DecidableEq, Repr

/-- Where a declaration came from. -/
inductive MaintenanceSource where
  | app | assistant | reply | alert
  deriving DecidableEq, Repr

/-- Why a window ended; `none` while it is open. -/
inductive MaintenanceEndReason where
  | none | done | expired | unknownPerson | replaced
  deriving DecidableEq, Repr

/-- What was said to a check of a camera's view. -/
inductive ViewCheckState where
  | pending | accepted | refused
  deriving DecidableEq, Repr

/-- The check of the view of one camera. -/
structure ViewCheck where
  cameraId : ℤ
  cameraName : String
  state : ViewCheckState := .pending
  deriving DecidableEq, Repr

/-- A time in which cameras are worked on, as its row has it. -/
structure MaintenanceWindow where
  id : ℕ
  environmentId : ℤ
  cameraIds : List ℤ
  declaredBy : ℤ
  declaredRole : UserRole
  declaredName : String
  source : MaintenanceSource
  duress : Bool
  startedAt : ℤ
  endsAt : ℤ
  endedAt : ℤ := 0
  endReason : MaintenanceEndReason := .none
  viewChecks : List ViewCheck := []
  deriving DecidableEq, Repr

/-- `MaintenanceWindow::active` -/
def MaintenanceWindow.active (w : MaintenanceWindow) (now : ℤ) : Bool :=
  w.endedAt = 0 && now < w.endsAt

/-- The columns of a new row. -/
structure MaintenanceCreateInput where
  environmentId : ℤ
  cameraIds : List ℤ
  declaredBy : ℤ
  declaredRole : UserRole
  declaredName : String
  source : MaintenanceSource
  duress : Bool
  startedAt : ℤ
  endsAt : ℤ
  deriving DecidableEq, Repr

/-- The row an input makes under an id. -/
def MaintenanceCreateInput.row (input : MaintenanceCreateInput) (id : ℕ) : MaintenanceWindow where
  id := id
  environmentId := input.environmentId
  cameraIds := input.cameraIds
  declaredBy := input.declaredBy
  declaredRole := input.declaredRole
  declaredName := input.declaredName
  source := input.source
  duress := input.duress
  startedAt := input.startedAt
  endsAt := input.endsAt

/-- Who asks. -/
structure MaintenanceActor where
  userId : ℤ
  role : UserRole
  deriving DecidableEq, Repr

/-- A window that is asked for. -/
structure MaintenanceDeclareInput where
  actor : MaintenanceActor
  cameraIds : List ℤ
  environmentId : ℤ := 0
  minutes : ℤ := 0
  source : MaintenanceSource := .app
  deriving DecidableEq, Repr

/-- A window that is to end. -/
structure MaintenanceEndRequest where
  actor : MaintenanceActor
  id : ℕ
  deriving DecidableEq, Repr

/-- An unknown person was seen. -/
structure UnknownSighting where
  environmentId : ℤ
  at_ : ℤ
  deriving DecidableEq, Repr

/-- How long a window may be, and how long a duress is remembered. -/
structure MaintenanceConfig where
  defaultMinutes : ℤ := 15
  maxMinutes : ℤ := 120
  duressWindowS : ℤ := 900
  deriving DecidableEq, Repr

/-- A user who may be told of a duress. -/
structure ResponseUser where
  userId : ℤ
  name : String
  role : UserRole
  active : Bool
  deriving DecidableEq, Repr

/-- What a request may be refused with. -/
inductive GuardError where
  | maintenanceForbidden | maintenanceCamerasRequired | maintenanceOffDuty
  | maintenanceOutOfScope | maintenanceNotFound | maintenanceNotYours
  deriving DecidableEq, Repr

/-! ### Where the cameras are -/

/-- The environment of a camera. -/
structure CameraAssignment where
  cameraId : ℤ
  environmentId : ℤ
  deriving DecidableEq, Repr

/-- The stored assignments, each camera once and in the order of the cameras, and the default
environment. -/
structure Places where
  assignments : List CameraAssignment
  sorted : assignments.Pairwise fun a a' => a.cameraId < a'.cameraId
  defaultId : ℤ

/-- `environmentFor` of `open`, over the assignments it has read. -/
def environmentFor (assignments : List CameraAssignment) (fallbackEnvironment cameraId : ℤ) : ℤ :=
  let environmentOf : Table ℤ CameraAssignment :=
    assignments.foldl (fun m a => m.insert a.cameraId a) ∅
  match environmentOf.lookup cameraId with
  | none => fallbackEnvironment
  | some found => if found.environmentId ≤ 0 then fallbackEnvironment else found.environmentId

namespace Places

variable (places : Places)

/-- `CAMERA_ASSIGNMENTS`, which reads at most 2000 rows. -/
def cameraAssignments : List CameraAssignment := places.assignments.take 2000

/-- The environment a camera is assigned to, the default one if there is none. -/
def environmentOf (cameraId : ℤ) : ℤ :=
  environmentFor places.assignments places.defaultId cameraId

/-- The environment `open` takes a camera to be in. -/
def resolved (cameraId : ℤ) : ℤ :=
  environmentFor places.cameraAssignments places.defaultId cameraId

end Places

/-! ### The table -/

/-- The table of the windows. -/
structure Db where
  windows : Serial MaintenanceWindow.id := .empty

namespace Db

variable (db : Db)

/-- `LIST_OPEN` -/
def listOpen : List MaintenanceWindow := db.windows.rows.filter fun w => w.endedAt = 0

/-- `END_WINDOW` -/
def endWindow (id : ℕ) (reason : MaintenanceEndReason) (at_ : ℤ) : Db where
  windows := db.windows.update id
    (fun w => if w.endedAt = 0 then { w with endedAt := at_, endReason := reason } else w)
    fun w => by split_ifs <;> rfl

/-- `SET_VIEW_CHECKS` -/
def setViewChecks (id : ℕ) (checks : List ViewCheck) : Db where
  windows := db.windows.update id (fun w => { w with viewChecks := checks }) fun _ => rfl

/-- `INSERT_WINDOW` -/
def create (input : MaintenanceCreateInput) : Db where
  windows := db.windows.insert input.row fun _ => rfl

end Db

/-! ### What the service awaits -/

/-- What the service awaits. -/
inductive Op where
  | cameraAssignments
  | defaultId
  | dutyEnvironments (userId : ℤ)
  | config
  | now
  | recentDuress (userId since : ℤ)
  | users
  | healthOf (cameraId : ℤ)
  | cameraName (cameraId : ℤ)
  /-- the input of `open` comes along for the record -/
  | create (input : MaintenanceDeclareInput) (row : MaintenanceCreateInput)
  | findById (id : ℕ)
  | listOpen
  | endWindow (id : ℕ) (reason : MaintenanceEndReason) (at_ : ℤ)
  | setViewChecks (id : ℕ) (checks : List ViewCheck)
  | announce (window : MaintenanceWindow) (actorId : ℤ)
  | publishEnded (window : MaintenanceWindow)
  | notifyDuress (window : MaintenanceWindow) (owners : List ResponseUser)
  | notifyViewCheck (window : MaintenanceWindow) (check : ViewCheck)
      (declarer : List ResponseUser)
  | refuse (actor : MaintenanceActor) (error : GuardError)
  /-- `endForUnknownPerson` begins; answered with the next id of a window -/
  | begin (sighting : UnknownSighting)
  /-- the run of `endForUnknownPerson` that began when `mark` was the next id has finished -/
  | finish (sighting : UnknownSighting) (mark : ℕ)
  deriving DecidableEq

/-- What each of them answers. -/
@[reducible] def Op.Ans : Op → Type
  | .cameraAssignments => List CameraAssignment
  | .defaultId | .now => ℤ
  | .dutyEnvironments _ => List ℤ
  | .config => MaintenanceConfig
  | .recentDuress _ _ => Bool
  | .users => List ResponseUser
  | .healthOf _ | .cameraName _ => String
  | .create _ _ => MaintenanceWindow
  | .findById _ => Option MaintenanceWindow
  | .listOpen => List MaintenanceWindow
  | .endWindow _ _ _ => Bool
  | .begin _ => ℕ
  | _ => Unit

/-- What the outside answers when it is asked.  The clock counts seconds since 1970. -/
structure Outside where
  now : ℤ := 1
  now_pos : 0 < now := by first | exact Int.one_pos | decide
  duty : List ℤ := []
  config : MaintenanceConfig := {}
  recentDuress : Bool := false
  users : List ResponseUser := []
  health : String := ""
  cameraName : String := ""

/-- What the claims are about: windows that were opened and ended, and who asked. -/
inductive Note where
  /-- the user is on duty in these environments -/
  | duty (userId : ℤ) (environments : List ℤ)
  | opened (input : MaintenanceDeclareInput) (window : MaintenanceWindow)
  | ended (id : ℕ) (reason : MaintenanceEndReason)
  /-- a run of `endForUnknownPerson` finished that began when `mark` was the next id -/
  | finished (sighting : UnknownSighting) (mark : ℕ)
  | refused (actor : MaintenanceActor) (error : GuardError)
  deriving DecidableEq, Repr

variable (places : Places)

/-- The answer of an operation. -/
def answer (env : Outside) (db : Db) : (op : Op) → op.Ans
  | .cameraAssignments => places.cameraAssignments
  | .defaultId => places.defaultId
  | .dutyEnvironments _ => env.duty
  | .config => env.config
  | .now => env.now
  | .recentDuress _ _ => env.recentDuress
  | .users => env.users
  | .healthOf _ => env.health
  | .cameraName _ => env.cameraName
  | .create _ row => row.row db.windows.nextId
  | .findById id => db.windows.find id
  | .listOpen => db.listOpen
  | .endWindow id _ _ => db.listOpen.any fun w => w.id = id
  | .begin _ => db.windows.nextId
  | .setViewChecks _ _ | .announce _ _ | .publishEnded _ | .notifyDuress _ _
  | .notifyViewCheck _ _ _ | .refuse _ _ | .finish _ _ => ()

/-- The table after an operation. -/
def effect (db : Db) : Op → Db
  | .create _ row => db.create row
  | .endWindow id reason at_ => db.endWindow id reason at_
  | .setViewChecks id checks => db.setViewChecks id checks
  | _ => db

/-- What is noted of an operation. -/
def notes (env : Outside) (db : Db) : Op → List Note
  | .dutyEnvironments userId => [.duty userId env.duty]
  | .create input row => [.opened input (row.row db.windows.nextId)]
  | .endWindow id reason _ => if db.listOpen.any fun w => w.id = id then [.ended id reason] else []
  | .finish sighting mark => [.finished sighting mark]
  | .refuse actor error => [.refused actor error]
  | _ => []

/-- The service's operations, each as one step. -/
def exec (env : Outside) (op : Op) (db : Db) : op.Ans × List Note × Db :=
  (answer places env db op, notes env db op, effect db op)

/-- A task of the service. -/
abbrev MaintenanceTask := Task Op Op.Ans

/-- Await an operation. -/
def ask (op : Op) : MaintenanceTask op.Ans := Task.call op

/-- Answer the actor with an error. -/
def refuse {α : Type} (actor : MaintenanceActor) (error : GuardError) : MaintenanceTask α := do
  ask (.refuse actor error)
  Task.throw

/-! ### The service -/

namespace MaintenanceService

/-- `household` -/
def household (role : UserRole) : Bool := role = .owner || role = .resident

/-- The cameras of a window: those named, and those of the environment named. -/
def camerasOf (input : MaintenanceDeclareInput) (assignments : List CameraAssignment) : List ℤ :=
  let assigned := if 0 < input.environmentId then
    (assignments.filter fun a => a.environmentId = input.environmentId).map (·.cameraId) else []
  (Ranks.distinct (input.cameraIds ++ assigned)).filter (0 < ·)

/-- Whether a guard on duty in `duty` may open a window over the cameras. -/
def scopeError (duty : List ℤ) (environments : List ℤ) : Option GuardError :=
  if duty = [] then some .maintenanceOffDuty
  else if environments.all (· ∈ duty) then none
  else some .maintenanceOutOfScope

/-- The scope check of `open`. -/
def checkScope (actor : MaintenanceActor) (environments : List ℤ) : MaintenanceTask Unit := do
  if actor.role = .guard then
    let duty ← ask (.dutyEnvironments actor.userId)
    match scopeError duty environments with
    | some error => refuse actor error
    | none => pure ()

/-- A change of a window is published. -/
def announce (window : MaintenanceWindow) (actorId : ℤ) : MaintenanceTask Unit :=
  ask (.announce window actorId)

/-- The household is told of a window that was opened under duress. -/
def notifyDuress (window : MaintenanceWindow) : MaintenanceTask Unit := do
  let users ← ask .users
  ask (.notifyDuress window (users.filter fun u =>
    u.active && u.role = .owner && u.userId ≠ window.declaredBy))

/-- `open`: a window for cameras, or for an environment. -/
def open_ (input : MaintenanceDeclareInput) : MaintenanceTask MaintenanceWindow := do
  let actor := input.actor
  if !household actor.role && actor.role ≠ .guard then
    refuse actor .maintenanceForbidden
  else
    let assignments ← ask .cameraAssignments
    let fallbackEnvironment ← ask .defaultId
    match camerasOf input assignments with
    | [] => refuse actor .maintenanceCamerasRequired
    | front :: rest =>
      let place := environmentFor assignments fallbackEnvironment
      checkScope actor ((front :: rest).map place)
      let limits ← ask .config
      let wished := if 0 < input.minutes then input.minutes else limits.defaultMinutes
      let minutes := max 1 (min wished limits.maxMinutes)
      let now ← ask .now
      let duress ← ask (.recentDuress actor.userId (now - limits.duressWindowS))
      let users ← ask .users
      let name := (users.reverse.find? fun u => u.userId = actor.userId).elim "" (·.name)
      let window ← ask (.create input
        { environmentId := if 0 < input.environmentId then input.environmentId else place front
          cameraIds := front :: rest
          declaredBy := actor.userId
          declaredRole := actor.role
          declaredName := name
          source := input.source
          duress
          startedAt := now
          endsAt := now + minutes * 60 })
      announce window actor.userId
      if duress then
        notifyDuress window
      pure window

/-- `declare`; what it answers is the window as JSON. -/
def declare (input : MaintenanceDeclareInput) : MaintenanceTask MaintenanceWindow := open_ input

/-- `guard_tamper::indicating` -/
def indicating (status : String) (sudden : Bool) : Bool :=
  if status = "blurred" then sudden
  else status ∈ ["moved", "covered", "whiteout", "blinded", "partial_cover", "dark_sudden",
    "unreachable"]

/-- The check of the view of one camera, if it looks different now. -/
def viewCheck (cameraId : ℤ) : MaintenanceTask (Option ViewCheck) := do
  let status ← ask (.healthOf cameraId)
  if indicating status true then
    let cameraName ← ask (.cameraName cameraId)
    pure (some { cameraId, cameraName })
  else
    pure none

/-- A window that is open ends. -/
def close (window : MaintenanceWindow) (reason : MaintenanceEndReason) (actorId : ℤ) :
    MaintenanceTask Unit := do
  let now ← ask .now
  let ended ← ask (.endWindow window.id reason now)
  if ended then
    let checks ← Task.collect viewCheck window.cameraIds
    let window := { window with
      endedAt := now, endReason := reason, viewChecks := window.viewChecks ++ checks.reduceOption }
    if window.viewChecks ≠ [] then
      ask (.setViewChecks window.id window.viewChecks)
      let users ← ask .users
      let declarer := users.filter fun u => u.userId = window.declaredBy && u.active
      Task.each (fun check => ask (.notifyViewCheck window check declarer)) window.viewChecks
    announce window actorId
    if window.startedAt ≤ window.endedAt then
      ask (.publishEnded window)

/-- The window of an id, or a refusal. -/
def require (actor : MaintenanceActor) (id : ℕ) : MaintenanceTask MaintenanceWindow := do
  let window ← ask (.findById id)
  match window with
  | none => refuse actor .maintenanceNotFound
  | some window => pure window

/-- `end` -/
def end_ (input : MaintenanceEndRequest) : MaintenanceTask MaintenanceWindow := do
  let window ← require input.actor input.id
  if input.actor.role = .guard ∧ window.declaredBy ≠ input.actor.userId then
    refuse input.actor .maintenanceNotYours
  else if !household input.actor.role && input.actor.role ≠ .guard then
    refuse input.actor .maintenanceForbidden
  else
    if window.endedAt = 0 then
      close window .done input.actor.userId
    require input.actor input.id

/-- The windows that are active at a moment. -/
def activeWindows (at_ : ℤ) : MaintenanceTask (List MaintenanceWindow) := do
  let windows ← ask .listOpen
  pure (windows.filter (·.active at_))

/-- An unknown person ends the windows of their environment. -/
def endForUnknownPerson (sighting : UnknownSighting) : MaintenanceTask Unit := do
  let mark ← ask (.begin sighting)
  let windows ← activeWindows sighting.at_
  Task.each (fun window =>
    if window.environmentId ≠ sighting.environmentId then pure ()
    else close window .unknownPerson 0) windows
  ask (.finish sighting mark)

/-- The windows whose time is over end. -/
def expireDue (at_ : ℤ) : MaintenanceTask Unit := do
  let windows ← ask .listOpen
  Task.each (fun window =>
    if window.endsAt ≤ at_ then close window .expired 0 else pure ()) windows

end MaintenanceService

/-! ### Requests -/

/-- What the service is asked, or does by its timer. -/
inductive Request where
  | declare (input : MaintenanceDeclareInput)
  | end_ (input : MaintenanceEndRequest)
  | expireDue (at_ : ℤ)
  | unknownPerson (sighting : UnknownSighting)
  deriving DecidableEq, Repr

open MaintenanceService in
/-- What serves a request. -/
def program : Request → MaintenanceTask Unit
  | .declare input => do
    let _ ← declare input
    pure ()
  | .end_ input => do
    let _ ← end_ input
    pure ()
  | .expireDue at_ => expireDue at_
  | .unknownPerson sighting => endForUnknownPerson sighting

/-- The service at work. -/
abbrev Step := @Pool.Step Db Note Op Outside Request Op.Ans (exec places) program

/-- No request is being served. -/
def start (db : Db) : Pool Db Op Op.Ans := { shared := db, tasks := [] }

end Maintenance

end ArgusBackend
