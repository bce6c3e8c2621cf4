import ArgusBackend.Library.Serial
import ArgusBackend.Modules.Resolver
import Mathlib

/-!
# The engine of the modules

Settings installs and removes modules by jobs.  The commands change the engine under its lock; its
thread takes one job at a time and moves it on: it picks the job and plans a step under the lock,
calls the owners of the components without it, and applies the step under the lock again.

* `ModuleEngine` : the table of jobs, what is enabled, and where the thread is;
* `ModuleEngine.nextJob`, `plan`, `apply` : a step of the thread;
* `ModuleEngine.exec` : what can happen to the engine, one locked block at a time.
-/

namespace ArgusBackend

namespace Modules

/-- The states of a job. -/
inductive JobState where
  | queued | checking | downloading | verifying | activating | healthCheck | removing | purging
  | done | paused | failed | cancelled
  deriving DecidableEq

/-- A job in such a state is over. -/
def jobTerminal : JobState → Bool
  | .done | .failed | .cancelled => true
  | _ => false

/-- A job in such a state is at work. -/
def jobRunning : JobState → Bool
  | .checking | .downloading | .verifying | .activating | .healthCheck | .removing | .purging => true
  | _ => false

/-- What a job does to its module. -/
inductive JobKind where
  | install | uninstall | purge
  deriving DecidableEq

/-- A row of the jobs. -/
structure ModuleJob where
  id : ℕ
  moduleId : String
  kind : JobKind
  owner : String := ""
  state : JobState := .queued
  reason : String := ""
  bytesDone : ℤ := 0
  bytesTotal : ℤ
  requestedBy : ℤ
  createdAt : ℤ
  updatedAt : ℤ
  stateSince : ℤ
  deriving DecidableEq

/-- `UPDATE module_job`; a column without a value is left as it is. -/
structure ModuleJobUpdate where
  now : ℤ
  state : Option JobState := none
  reason : Option String := none
  owner : Option String := none
  bytesDone : Option ℤ := none
  bytesTotal : Option ℤ := none

/-- An update sets the fields that it has, and the moment of the state with the state. -/
def ModuleJob.update (job : ModuleJob) (input : ModuleJobUpdate) : ModuleJob :=
  { job with
    updatedAt := input.now
    state := input.state.getD job.state
    stateSince := if input.state.isSome then input.now else job.stateSince
    reason := input.reason.getD job.reason
    owner := input.owner.getD job.owner
    bytesDone := input.bytesDone.getD job.bytesDone
    bytesTotal := input.bytesTotal.getD job.bytesTotal }

/-- The row that `INSERT INTO module_job` adds. -/
def newJob (moduleId : String) (kind : JobKind) (bytesTotal userId now : ℤ) (id : ℕ) : ModuleJob :=
  { id, moduleId, kind, bytesTotal, requestedBy := userId, createdAt := now, updatedAt := now,
    stateSince := now }

theorem update_id (input : ModuleJobUpdate) (job : ModuleJob) : (job.update input).id = job.id := rfl

theorem newJob_id (moduleId : String) (kind : JobKind) (bytesTotal userId now : ℤ) (id : ℕ) :
    (newJob moduleId kind bytesTotal userId now id).id = id := rfl

/-- The kinds of module in the catalog. -/
inductive ModuleKind where
  | core | available | comingSoon
  deriving DecidableEq

/-- Whether a module is installed and in use. -/
inductive ModuleLifecycle where
  | notInstalled | active | disabled | uninstalledDataKept
  deriving DecidableEq

/-- What the audit log records. -/
inductive ModuleAuditAction where
  | adopted | installRequested | enabled | disabled | rolledBack | paused | resumed | cancelled
  | failed | uninstallRequested | removed | purged
  deriving DecidableEq

/-- The records after which another set of modules may be enabled. -/
def changesEnabledSet : ModuleAuditAction → Bool
  | .adopted | .enabled | .disabled | .rolledBack | .removed | .purged => true
  | _ => false

/-- Whether a component is downloaded or comes with the host. -/
inductive ComponentSource where
  | download | provisioned
  deriving DecidableEq

/-- The state of a component as its owner reports it. -/
inductive ComponentState where
  | installed | missing | installing | failed | hostOnly
  deriving DecidableEq

/-- Whether the owner of a component answers. -/
inductive OwnerReach where
  | answered | unsupported | unreachable
  deriving DecidableEq

/-- What an owner last said of a component. -/
structure ComponentReading where
  state : ComponentState
  bytesPresent : ℤ
  ready : Bool
  reason : String
  reach : OwnerReach
  known : Bool

/-- A component about which its owner need not be asked again. -/
def settledReading (reading : ComponentReading) : Bool :=
  reading.reach = .unsupported || (reading.reach = .answered && reading.state = .installed)

/-- A component that can be used. -/
def readyReading (reading : ComponentReading) : Bool :=
  reading.reach = .unsupported ||
    (reading.reach = .answered && reading.state = .installed && reading.ready)

/-- A component in the catalog. -/
structure CatalogComponent where
  id : String
  source : ComponentSource
  totalBytes : ℤ
  owner : String
  deriving DecidableEq

/-- A module of the catalog with what the engine reads of it. -/
structure EngineModule extends CatalogModule where
  kind : ModuleKind := .available
  components : List String := []
  dataOwners : List String := []

/-- A catalog that was read: it lists modules, and repeats no id of one. -/
structure EngineCatalog where
  modules : List EngineModule
  components : List CatalogComponent
  nonempty : modules ≠ []
  distinct : (modules.map (·.id)).Nodup

namespace EngineCatalog

variable (catalog : EngineCatalog)

/-- The module of an id. -/
def module (id : String) : Option EngineModule := catalog.modules.find? fun m => m.id = id

/-- The component of an id. -/
def component (id : String) : Option CatalogComponent := catalog.components.find? fun c => c.id = id

/-- The bytes of a module: those of its components. -/
def sizeBytes (m : EngineModule) : ℤ :=
  ((m.components.filterMap catalog.component).map (·.totalBytes)).sum

/-- The catalog as the resolver sees it. -/
def resolver : ModuleCatalog := ⟨catalog.modules.map (·.toCatalogModule)⟩

/-- The modules that are always there. -/
def coreIds : Finset String := ((catalog.modules.filter (·.kind = .core)).map (·.id)).toFinset

end EngineCatalog

/-- A call to the owner of a component. -/
structure OwnerCall where
  owner : String
  component : String

/-- An update of a job that is made only if the job is still in the state it starts from. -/
structure Transition where
  jobId : ℕ
  source : JobState
  update : ModuleJobUpdate

/-- What one step of a job does: the calls to owners, and what it changes. -/
structure StepPlan where
  transition : Option Transition := none
  installs : List OwnerCall := []
  cancels : List OwnerCall := []
  removes : List OwnerCall := []
  purges : List String := []
  activate : Bool := false
  rollback : Bool := false
  finishUninstall : Bool := false

/-- The plan after a failure of an owner. -/
def StepPlan.fail (plan : StepPlan) (owner reason : String) : StepPlan :=
  match plan.transition with
  | none => plan
  | some t =>
    { plan with
      finishUninstall := false
      transition := some { t with update := { t.update with state := some .failed,
                                                            reason := some reason,
                                                            owner := some owner } } }

/-- Where the thread is between two locked blocks. -/
inductive Stage where
  | idle
  | picked (job : ModuleJob)
  | planned (job : ModuleJob) (m : EngineModule) (plan : StepPlan)
  /-- the owners were called -/
  | called (job : ModuleJob) (m : EngineModule) (plan : StepPlan)

/-- The highest id of an entry that changed what is enabled. -/
def enabledVersion (audits : List ModuleAuditAction) : ℕ :=
  (audits.zipIdx 1).foldl
    (fun version (action, id) => if changesEnabledSet action then max version id else version) 0

/-- The lifecycle of a module is set, whether or not it has a row. -/
def upsert (states : List (String × ModuleLifecycle)) (moduleId : String)
    (lifecycle : ModuleLifecycle) : List (String × ModuleLifecycle) :=
  states.filter (·.1 ≠ moduleId) ++ [(moduleId, lifecycle)]

/-- The tables `module_job`, `module_state`, `module_audit` and `module_purge`, what is kept of them
in memory, and where the thread is. -/
structure ModuleEngine where
  rows : Serial ModuleJob.id := .empty
  states : List (String × ModuleLifecycle) := []
  audits : List ModuleAuditAction := []
  purged : Finset (String × String) := ∅
  enabled : Finset String := ∅
  settled : Bool := false
  version : ℕ := 0
  readings : String → Option ComponentReading := fun _ => none
  stage : Stage := .idle

/-- What a request may be refused with. -/
inductive ModuleErrors where
  | unknownModule | notSettled | comingSoon | alreadyEnabled | jobRunning | hardwareInsufficient
  | noJob | jobBusy | coreModule | requiredBy
  /-- the catalog has a cycle -/
  | cycle
  deriving DecidableEq

namespace ModuleEngine

variable (catalog : EngineCatalog)

/-- `jobs_`, the last job of each module. -/
def jobOf (s : ModuleEngine) (moduleId : String) : Option ModuleJob :=
  s.rows.rows.reverse.find? fun job => job.moduleId = moduleId

/-- The job of a module, unless it is over. -/
def openJob (s : ModuleEngine) (moduleId : String) : Option ModuleJob :=
  (s.jobOf moduleId).filter fun job => !jobTerminal job.state

/-- An update of a row of the jobs. -/
def changeJob (s : ModuleEngine) (jobId : ℕ) (input : ModuleJobUpdate) : ModuleEngine :=
  { s with rows := s.rows.update jobId (·.update input) (update_id input) }

/-- `jobRepository_.create` -/
def createJob (s : ModuleEngine) (moduleId : String) (kind : JobKind) (bytesTotal userId now : ℤ) :
    ModuleEngine :=
  { s with
    rows := s.rows.insert (newJob moduleId kind bytesTotal userId now)
      (newJob_id moduleId kind bytesTotal userId now) }

/-- A line in the audit log; some move the version of the enabled set to their number. -/
def audit (s : ModuleEngine) (action : ModuleAuditAction) : ModuleEngine :=
  { s with
    audits := s.audits ++ [action]
    version := if changesEnabledSet action then s.audits.length + 1 else s.version }

/-- The lifecycle of a module; one without a row is not installed. -/
def lifecycle (s : ModuleEngine) (moduleId : String) : ModuleLifecycle :=
  (s.states.lookup moduleId).getD .notInstalled

/-- The lifecycle of a module with its line in the log and its place in the enabled set. -/
def setLifecycle (s : ModuleEngine) (moduleId : String) (lifecycle : ModuleLifecycle)
    (action : ModuleAuditAction) : ModuleEngine :=
  { s.audit action with
    states := upsert s.states moduleId lifecycle
    enabled := if lifecycle = .active then insert moduleId s.enabled else s.enabled.erase moduleId }

/-- What memory holds of the tables; `jobs_` is read off `rows` wherever it is used. -/
def reload (s : ModuleEngine) : ModuleEngine :=
  { s with
    enabled := ((s.states.filter (·.2 = .active)).map (·.1)).toFinset ∪
      if s.states = [] then ∅ else catalog.coreIds
    settled := s.states ≠ []
    version := enabledVersion s.audits }

/-! ### The first set -/

/-- What the owner of a component last said of it, if it could be reached. -/
def known (s : ModuleEngine) (id : String) : Option ComponentReading :=
  (s.readings id).filter fun reading => reading.known && reading.reach ≠ .unreachable

/-- Every component has been heard of. -/
def seedReady (s : ModuleEngine) : Bool := catalog.components.all fun c => (s.known c.id).isSome

/-- Whether a module counts as installed when the tables are seeded. -/
def adopts (s : ModuleEngine) (m : EngineModule) : Bool :=
  match m.kind with
  | .core => true
  | .available => m.components.all fun id => (s.known id).all settledReading
  | .comingSoon => false

/-- The first lifecycles of all modules, with a line in the log for each that is adopted. -/
def seed (s : ModuleEngine) : ModuleEngine :=
  let audits := s.audits ++ (catalog.modules.filter s.adopts).map fun _ => .adopted
  { s with
    states := catalog.modules.foldl
      (fun states m => upsert states m.id (if s.adopts m then .active else .notInstalled)) s.states
    audits
    enabled := ((catalog.modules.filter s.adopts).map (·.id)).toFinset
    settled := true
    version := enabledVersion audits }

/-! ### The next job -/

/-- The update of a job that needs a module whose job has failed. -/
def failed (now : ℤ) : ModuleJobUpdate :=
  { now, state := some .failed, reason := some "dependency_failed" }

/-- The first of the open jobs whose requirements are all enabled; one of which a requirement is
neither enabled nor on its way fails. -/
def nextJobAmong (now : ℤ) : List ModuleJob → ModuleEngine → Option ModuleJob × ModuleEngine
  | [], s => (none, s)
  | job :: rest, s =>
    match catalog.module job.moduleId with
    | none => nextJobAmong now rest (s.changeJob job.id (failed now))
    | some m =>
      let missing := m.required.filter fun id => id ∉ s.enabled
      if missing.any fun id => (s.openJob id).isNone then
        nextJobAmong now rest ((s.changeJob job.id (failed now)).audit .failed)
      else if missing ≠ [] then nextJobAmong now rest s
      else (some job, s)

/-- The jobs that are neither over nor paused, one for each module. -/
def openJobs (s : ModuleEngine) : List ModuleJob :=
  s.rows.rows.filter fun job =>
    s.jobOf job.moduleId = some job ∧ !jobTerminal job.state ∧ job.state ≠ .paused

/-- The job to work on: one that is running, else the first whose needs are met. -/
def nextJob (s : ModuleEngine) (now : ℤ) : Option ModuleJob × ModuleEngine :=
  match s.openJobs.find? fun job => jobRunning job.state with
  | some job => (some job, s)
  | none => nextJobAmong catalog now s.openJobs s

/-! ### Plans -/

/-- The transition of a job from its present state. -/
def moveTo (job : ModuleJob) (now : ℤ) (state : JobState) (reason owner : Option String) :
    Option Transition :=
  some { jobId := job.id, source := job.state, update := { now, state := some state, reason, owner } }

/-- A download that no enabled module shares and that is not known to be gone. -/
def removals (s : ModuleEngine) (m : EngineModule) : List OwnerCall :=
  (m.components.filterMap catalog.component).filterMap fun c =>
    let shared := catalog.modules.any fun other =>
      other.id ≠ m.id && other.id ∈ s.enabled && c.id ∈ other.components
    let absent := (s.readings c.id).any fun reading =>
      reading.known && reading.reach = .answered && reading.bytesPresent = 0
    if c.source = .download && !shared && !absent then some ⟨c.owner, c.id⟩ else none

/-- The step of a job that removes a module. -/
def planUninstall (s : ModuleEngine) (job : ModuleJob) (m : EngineModule) (now : ℤ) : StepPlan :=
  let move := fun state => moveTo job now state (some "") (some "")
  match job.state with
  | .queued => { transition := move .removing }
  | .removing =>
    { removes := s.removals catalog m
      finishUninstall := job.kind = .uninstall
      transition := move (if job.kind = .uninstall then .done else .purging) }
  | .purging =>
    { purges := m.dataOwners.filter fun owner => (m.id, owner) ∉ s.purged
      finishUninstall := true
      transition := move .done }
  | _ => {}

/-- The bytes of a module that its owners have, as far as they are known. -/
def presentBytes (s : ModuleEngine) (m : EngineModule) : ℤ :=
  ((m.components.filterMap catalog.component).map fun c =>
    match s.readings c.id with
    | some reading => if reading.known then min reading.bytesPresent c.totalBytes else min 0 c.totalBytes
    | none => min 0 c.totalBytes).sum

/-- The components with what is known of them. -/
def componentsOf (s : ModuleEngine) (m : EngineModule) :
    List (Option (CatalogComponent × ComponentReading)) :=
  m.components.map fun id => (catalog.component id).bind fun c => (s.known id).map (c, ·)

/-- `insufficient` is the verdict on the host. -/
def planInstall (s : ModuleEngine) (job : ModuleJob) (m : EngineModule) (now timeout : ℤ)
    (insufficient : Bool) : StepPlan :=
  let move := fun state reason => moveTo job now state (some reason) none
  let components := s.componentsOf catalog m
  let readings := components.reduceOption
  let unknown := components.any (·.isNone)
  let allSettled := !unknown && readings.all fun (_, reading) => settledReading reading
  let allReady := !unknown && readings.all fun (_, reading) => readyReading reading
  let lacking := readings.filter fun (_, reading) =>
    reading.reach = .answered && reading.state ≠ .installed
  let hostOnly := lacking.any fun (c, _) => c.source = .provisioned
  let downloads := lacking.filter fun (c, _) => c.source ≠ .provisioned
  let broken := (downloads.filter fun (_, reading) => reading.state = .failed).getLast?
  let missing := (downloads.filter fun (_, reading) =>
    reading.state ≠ .failed && reading.state ≠ .installing).map fun (c, _) => OwnerCall.mk c.owner c.id
  match job.state with
  | .queued => { transition := move .checking "" }
  | .checking =>
    if unknown then
      if job.reason ≠ "owner_unreachable" then
        { transition := some { jobId := job.id, source := job.state,
                               update := { now, reason := some "owner_unreachable" } } }
      else {}
    else if insufficient then { transition := move .failed "hardware_insufficient" }
    else if hostOnly then { transition := move .failed "host_only" }
    else if allSettled then { transition := move .verifying "" }
    else { installs := missing, transition := move .downloading "" }
  | .downloading =>
    match broken with
    | some (_, reading) =>
      { cancels := ((m.components.filterMap catalog.component).filter fun c =>
          c.source = .download).map fun c => ⟨c.owner, c.id⟩
        transition := move .failed (if reading.reason = "" then "network" else reading.reason) }
    | none => if allSettled then { transition := move .verifying "" } else { installs := missing }
  | .verifying =>
    if allSettled then { transition := move .activating "" }
    else if !unknown then { transition := move .downloading "" }
    else {}
  | .activating => { activate := true, transition := move .healthCheck "" }
  | .healthCheck =>
    if allReady then
      { transition := some { jobId := job.id, source := job.state,
                             update := { now, state := some .done, reason := some "",
                                         bytesDone := some (max job.bytesDone job.bytesTotal) } } }
    else if now - job.stateSince > timeout then
      { rollback := true, transition := move .failed "health_check_failed" }
    else {}
  | _ => {}

/-- The step of a job. -/
def plan (s : ModuleEngine) (job : ModuleJob) (m : EngineModule) (now timeout : ℤ)
    (insufficient : Bool) : StepPlan :=
  if job.kind = .install then s.planInstall catalog job m now timeout insufficient
  else s.planUninstall catalog job m now

/-! ### A step -/

/-- What an owner answers; a reason says why it has not done what it was asked. -/
structure OwnerAnswers where
  remove : OwnerCall → Option String
  purgeData : String → Option String

/-- The first owner that fails, and the owners whose data were purged before. -/
def purgeOwners (answers : OwnerAnswers) : List String → Option (String × String) × List String
  | [] => (none, [])
  | owner :: rest =>
    match answers.purgeData owner with
    | some reason => (some (owner, reason), [])
    | none => let (failure, done) := purgeOwners answers rest; (failure, owner :: done)

/-- The calls of a plan: the first failure with its owner, and the owners that have purged. -/
def runOwnerCalls (answers : OwnerAnswers) (plan : StepPlan) :
    Option (String × String) × List String :=
  match plan.removes.findSome? fun call => (answers.remove call).map (call.owner, ·) with
  | some failure => (some failure, [])
  | none => purgeOwners answers plan.purges

/-- What the plan does to the module. -/
def applyLifecycle (s : ModuleEngine) (plan : StepPlan) (current : ModuleJob) (m : EngineModule) :
    ModuleEngine :=
  let s := if plan.activate then s.setLifecycle m.id .active .enabled else s
  let s := if plan.rollback then s.setLifecycle m.id .disabled .rolledBack else s
  if plan.finishUninstall then
    if current.kind = .purge then
      { s.audit .purged with
        states := upsert s.states m.id .notInstalled
        purged := s.purged.filter fun entry => entry.1 ≠ m.id }
    else
      s.setLifecycle m.id (if s.lifecycle m.id = .notInstalled then .notInstalled
        else .uninstalledDataKept) .removed
  else s

/-- The bytes of a job go up to those present. -/
def progress (s : ModuleEngine) (job : ModuleJob) (m : EngineModule) (now : ℤ) : ModuleEngine :=
  let present := min (s.presentBytes catalog m) job.bytesTotal
  if present ≤ job.bytesDone then s else s.changeJob job.id { now, bytesDone := some present }

/-- The transition of a plan; a failure is a line in the log. -/
def applyTransition (s : ModuleEngine) (plan : StepPlan) (jobId : ℕ) : ModuleEngine :=
  match plan.transition with
  | none => s
  | some t =>
    let s := s.changeJob jobId t.update
    if t.update.state = some .failed then s.audit .failed else s

/-- What a plan changes, if its job is still in the state that was planned for. -/
def apply (s : ModuleEngine) (plan : StepPlan) (m : EngineModule) (now : ℤ) : ModuleEngine :=
  match s.jobOf m.id with
  | none => s
  | some current =>
    if plan.transition.any fun t => current.state ≠ t.source then s
    else
      let s := s.applyLifecycle plan current m
      if current.state = .downloading ∨ current.state = .verifying then
        (s.progress catalog current m now).applyTransition plan current.id
      else s.applyTransition plan current.id

/-! ### Commands -/

/-- The modules of an order for which a job is made. -/
def wanted (s : ModuleEngine) (id : String) : Bool :=
  (catalog.module id).any fun m => id ∉ s.enabled && m.kind ≠ .core && (s.openJob id).isNone

/-- A job that installs a module, with its line in the log. -/
def request (s : ModuleEngine) (id : String) (userId now : ℤ) : ModuleEngine :=
  (s.createJob id .install (((catalog.module id).map catalog.sizeBytes).getD 0) userId now).audit
    .installRequested

/-- `install`: a module is asked for, with the modules that it needs. -/
def install (s : ModuleEngine) (id : String) (userId now : ℤ) (insufficient : Bool) :
    Except ModuleErrors ModuleEngine :=
  if !s.settled then .error .notSettled
  else
    match catalog.module id with
    | none => .error .unknownModule
    | some m =>
      if m.kind = .comingSoon then .error .comingSoon
      else if m.kind = .core ∨ m.id ∈ s.enabled then .error .alreadyEnabled
      else if (s.openJob m.id).isSome then .error .jobRunning
      else
        match catalog.resolver.installOrder m.id with
        | some (.ok order) =>
          if order.any fun id => (catalog.module id).any fun m => m.kind = .comingSoon then
            .error .comingSoon
          else if insufficient then .error .hardwareInsufficient
          else
            .ok ((order.filter (s.wanted catalog)).foldl
              (fun s id => s.request catalog id userId now) s)
        | _ => .error .cycle

/-- The job that `pause`, `resume` and `cancel` are about. -/
def commanded (s : ModuleEngine) (id : String) : Except ModuleErrors ModuleJob :=
  match catalog.module id with
  | none => .error .unknownModule
  | some _ =>
    match s.openJob id with
    | none => .error .noJob
    | some job => .ok job

/-- A job that can be neither paused nor cancelled. -/
def busy (job : ModuleJob) : Bool := job.state = .activating || job.state = .healthCheck

/-- `pause` -/
def pause (s : ModuleEngine) (id : String) (now : ℤ) : Except ModuleErrors ModuleEngine := do
  let job ← s.commanded catalog id
  if busy job then .error .jobBusy
  else if job.state ≠ .paused then
    .ok ((s.changeJob job.id { now, state := some .paused }).audit .paused)
  else .ok s

/-- `resume` -/
def resume (s : ModuleEngine) (id : String) (now : ℤ) : Except ModuleErrors ModuleEngine := do
  let job ← s.commanded catalog id
  if job.state = .paused then
    .ok ((s.changeJob job.id { now, state := some .queued, reason := some "" }).audit .resumed)
  else .ok s

/-- `cancel` -/
def cancel (s : ModuleEngine) (id : String) (now : ℤ) : Except ModuleErrors ModuleEngine := do
  let job ← s.commanded catalog id
  if busy job then .error .jobBusy
  else .ok ((s.changeJob job.id { now, state := some .cancelled }).audit .cancelled)

/-- The module that `disable` and `uninstall` are about, when nothing is in their way. -/
def leaving (s : ModuleEngine) (id : String) : Except ModuleErrors EngineModule :=
  if !s.settled then .error .notSettled
  else
    match catalog.module id with
    | none => .error .unknownModule
    | some m =>
      if m.kind = .core then .error .coreModule
      else if (s.openJob m.id).isSome then .error .jobRunning
      else .ok m

/-- No enabled module needs the module. -/
def unneeded (s : ModuleEngine) (m : EngineModule) : Except ModuleErrors Unit :=
  match catalog.resolver.enabledDependents m.id s.enabled with
  | some (.ok []) => .ok ()
  | some (.ok _) => .error .requiredBy
  | _ => .error .cycle

/-- `disable` -/
def disable (s : ModuleEngine) (id : String) : Except ModuleErrors ModuleEngine := do
  let m ← s.leaving catalog id
  if m.id ∈ s.enabled then
    s.unneeded catalog m
    .ok (s.setLifecycle m.id .disabled .disabled)
  else .ok s

/-- `uninstall`, which disables the module first. -/
def uninstall (s : ModuleEngine) (id : String) (userId now : ℤ) (keepData : Bool) :
    Except ModuleErrors ModuleEngine := do
  let m ← s.leaving catalog id
  s.unneeded catalog m
  let s := if m.id ∈ s.enabled then s.setLifecycle m.id .disabled .disabled else s
  .ok ((s.createJob m.id (if keepData then .uninstall else .purge) 0 userId now).audit
    .uninstallRequested)

/-- `load`: the thread is gone, and the job it had waits again. -/
def restart (s : ModuleEngine) (now : ℤ) : ModuleEngine :=
  let s := (s.rows.rows.filter fun job => jobRunning job.state).foldl
    (fun s job => s.changeJob job.id { now, state := some .queued }) (s.reload catalog)
  { s with readings := fun _ => none, stage := .idle }

/-! ### Runs -/

/-- What happens to the engine; refused commands change nothing. -/
inductive Act where
  | refresh (readings : String → Option ComponentReading)
  /-- `waited` says whether `seedWait` is over -/
  | seed (waited : Bool)
  | install (id : String) (userId now : ℤ) (insufficient : Bool)
  | pause (id : String) (now : ℤ)
  | resume (id : String) (now : ℤ)
  | cancel (id : String) (now : ℤ)
  | disable (id : String)
  | uninstall (id : String) (userId now : ℤ) (keepData : Bool)
  | pick (now : ℤ)
  | plan (now timeout : ℤ) (insufficient : Bool)
  | callOwners (answers : OwnerAnswers)
  | apply (now : ℤ)
  /-- a transaction fails, of a command or of the thread, and memory is read again -/
  | rollback (ofThread : Bool)
  /-- the step of the thread throws -/
  | abandon
  | restart (now : ℤ)

/-- The thread takes a job. -/
def pick (s : ModuleEngine) (now : ℤ) : ModuleEngine :=
  if s.settled then
    let (job, s) := s.nextJob catalog now
    { s with stage := job.elim .idle .picked }
  else s

/-- The thread plans for the job it has taken, if the job is as it was. -/
def planPicked (s : ModuleEngine) (job : ModuleJob) (now timeout : ℤ) (insufficient : Bool) :
    ModuleEngine :=
  match catalog.module job.moduleId, s.jobOf job.moduleId with
  | some m, some current =>
    if current.state = job.state then
      { s with stage := .planned current m (s.plan catalog current m now timeout insufficient) }
    else { s with stage := .idle }
  | _, _ => { s with stage := .idle }

/-- The thread calls the owners; what they have purged is noted. -/
def callPlanned (s : ModuleEngine) (job : ModuleJob) (m : EngineModule) (plan : StepPlan)
    (answers : OwnerAnswers) : ModuleEngine :=
  let (failure, done) := runOwnerCalls answers plan
  { s with
    purged := s.purged ∪ (done.map fun owner => (m.id, owner)).toFinset
    stage := .called job m (match failure with
      | some (owner, reason) => plan.fail owner reason
      | none => plan) }

/-- One locked block of the engine, or the answers of the owners. -/
def exec (s : ModuleEngine) (act : Act) : ModuleEngine :=
  match act with
  | .refresh readings => { s with readings }
  | .seed waited => if !s.settled && (s.seedReady catalog || waited) then s.seed catalog else s
  | .install id userId now insufficient =>
    (s.install catalog id userId now insufficient).toOption.getD s
  | .pause id now => (s.pause catalog id now).toOption.getD s
  | .resume id now => (s.resume catalog id now).toOption.getD s
  | .cancel id now => (s.cancel catalog id now).toOption.getD s
  | .disable id => (s.disable catalog id).toOption.getD s
  | .uninstall id userId now keepData =>
    (s.uninstall catalog id userId now keepData).toOption.getD s
  | .pick now =>
    match s.stage with
    | .idle => s.pick catalog now
    | _ => s
  | .plan now timeout insufficient =>
    match s.stage with
    | .picked job => s.planPicked catalog job now timeout insufficient
    | _ => s
  | .callOwners answers =>
    match s.stage with
    | .planned job m plan => s.callPlanned job m plan answers
    | _ => s
  | .apply now =>
    match s.stage with
    | .called _ m plan => { s.apply catalog plan m now with stage := .idle }
    | _ => s
  | .rollback ofThread =>
    { s.reload catalog with stage := if ofThread then .idle else s.stage }
  | .abandon => { s with stage := .idle }
  | .restart now => s.restart catalog now

/-- The acts of a run one after another. -/
def runFrom (s : ModuleEngine) (acts : List Act) : ModuleEngine :=
  acts.foldl (fun s act => s.exec catalog act) s

end ModuleEngine

end Modules

end ArgusBackend
