import ArgusBackend.Library.Ranks

/-!
# Response plans

Who is to be called in which step when an alarm is raised: `members` gives the people of a place
their modes and steps, and `build` makes the plan of an alarm of them.

* `ResponsePlan.compactSteps` : the steps in use are numbered from 0;
* `strategyFor`, `placed` : how the strategy of an alarm changes the steps and modes;
* `members`, `build` : the functions of `response_plan`.
-/

namespace ArgusBackend

namespace Response

/-- The roles of a user. -/
inductive UserRole where
  | owner | resident | guard | guest | unknown
  deriving DecidableEq, Repr

/-- How a recipient is reached. -/
inductive RecipientMode where
  | call | notify | off
  deriving DecidableEq, Repr

/-- Whether someone is at home. -/
inductive PresenceState where
  | unknown | home | away
  deriving DecidableEq, Repr

/-- By what that is known. -/
inductive PresenceSource where
  | none | lanSession | tunnelSession | appActivity | camera | timeout | consent
  deriving DecidableEq, Repr

/-- In what order the members are reached. -/
inductive ResponseStrategy where
  | ordered | insideFirst | everyone | nightQuiet
  deriving DecidableEq, Repr

/-- What there is to respond to. -/
inductive ResponseTrigger where
  | intrusion | escalation | panic | duress | tamper
  deriving DecidableEq, Repr

/-- A user who may be a member. -/
structure ResponseUser where
  userId : ℤ
  role : UserRole
  active : Bool := true
  name : String := ""
  deriving DecidableEq, Repr

/-- What is set for a user in an environment. -/
structure ResponseRecipientRow where
  userId : ℤ
  mode : Option RecipientMode := none
  step : Option ℤ := none
  onDuty : Bool := false
  deriving DecidableEq, Repr

/-- The presence of a user. -/
structure PresenceRow where
  userId : ℤ
  state : PresenceState
  source : PresenceSource := .none
  deriving DecidableEq, Repr

/-- An emergency contact. -/
structure ResponseContactRow where
  name : String
  phone : String
  note : String
  deriving DecidableEq, Repr

/-- A member, by the user and what is set for them. -/
structure ResponseMember where
  userId : ℤ
  role : UserRole
  name : String
  mode : RecipientMode
  step : ℤ
  onDuty : Bool
  customized : Bool
  deriving DecidableEq, Repr

/-- The users and what is set for them. -/
structure ResponseMembersInput where
  users : List ResponseUser
  rows : List ResponseRecipientRow
  deriving DecidableEq, Repr

/-- What a plan is made from. -/
structure ResponsePlanInput where
  environmentId : ℤ := 0
  members : List ResponseMember
  presence : List PresenceRow := []
  excluded : List ℤ := []
  trigger : ResponseTrigger := .intrusion
  indoor : Bool := false
  night : Bool := false
  clearThreat : Bool := false
  staffedNow : Bool := false
  hasCamera : Bool := false
  stepSeconds : ℤ := 45
  emergencyNumber : String := ""
  contacts : List ResponseContactRow := []
  deriving DecidableEq, Repr

/-- A member in a plan: in which step, and how they are reached. -/
structure ResponsePlanEntry where
  userId : ℤ
  step : ℤ
  mode : RecipientMode := .call
  mandatory : Bool := false
  discreet : Bool := false
  deriving DecidableEq, Repr

/-- Who is reached, in which step, and how long a step waits. -/
structure ResponsePlan where
  environmentId : ℤ
  strategy : ResponseStrategy
  entries : List ResponsePlanEntry
  stepCount : ℤ
  stepSeconds : ℤ
  offerCamera : Bool
  offerSiren : Bool
  emergencyNumber : String
  contacts : List ResponseContactRow
  deriving DecidableEq, Repr

/-- The last step that can be set. -/
def kMaxStep : ℤ := 32

/-! ### Members -/

/-- The place of a role in the order. -/
def roleOrder : UserRole → ℕ
  | .owner => 0
  | .guard => 1
  | .resident => 2
  | .guest => 3
  | .unknown => 4

/-- How a role is reached when nothing is set. -/
def defaultMode (role : UserRole) : RecipientMode :=
  if role = .guest ∨ role = .unknown then .off else .call

/-- The order of the members: by step, then by role, then by id. -/
def before (left right : ResponseMember) : Prop :=
  left.step < right.step ∨ (left.step = right.step ∧
    (roleOrder left.role < roleOrder right.role ∨
      (roleOrder left.role = roleOrder right.role ∧ left.userId ≤ right.userId)))

instance : DecidableRel before := fun left right =>
  inferInstanceAs (Decidable (left.step < right.step ∨ (left.step = right.step ∧
    (roleOrder left.role < roleOrder right.role ∨
      (roleOrder left.role = roleOrder right.role ∧ left.userId ≤ right.userId)))))

/-- The member a user is, where `nextResident` is the step of the next resident without one. -/
def memberOf (rows : List ResponseRecipientRow) (user : ResponseUser) (nextResident : ℤ) :
    ResponseMember :=
  let row := rows.find? fun r => r.userId = user.userId
  let explicit := row.bind (·.step)
  { userId := user.userId
    role := user.role
    name := user.name
    mode := (row.bind (·.mode)).getD (defaultMode user.role)
    step := match explicit with
      | some step => max 0 (min step kMaxStep)
      | none => if user.role = .resident then min nextResident kMaxStep else 0
    onDuty := row.any (·.onDuty)
    customized := row.any fun r => r.mode.isSome || r.step.isSome }

/-- The members of the users, in the order of the users. -/
def membersFrom (rows : List ResponseRecipientRow) : List ResponseUser → ℤ → List ResponseMember
  | [], _ => []
  | user :: users, nextResident =>
    if !user.active || user.userId ≤ 0 then
      membersFrom rows users nextResident
    else
      let explicit := (rows.find? fun r => r.userId = user.userId).bind (·.step)
      let taken := explicit = none ∧ user.role = .resident
      memberOf rows user nextResident ::
        membersFrom rows users (if taken then nextResident + 1 else nextResident)

/-- `response_plan::members` -/
def members (input : ResponseMembersInput) : List ResponseMember :=
  let maxExplicit := (input.rows.filterMap (·.step)).foldl max 0
  (membersFrom input.rows input.users (maxExplicit + 1)).insertionSort before

/-! ### Plans -/

/-- The presence of a user. -/
def presenceOf (rows : List PresenceRow) (userId : ℤ) : Option PresenceRow :=
  rows.find? fun r => r.userId = userId

/-- A user is at home. -/
def isHome (rows : List PresenceRow) (userId : ℤ) : Bool :=
  (presenceOf rows userId).any fun r => r.state = .home

/-- Who of the members is at home, as far as it is known. -/
structure PresenceSummary where
  anyHome : Bool
  allHome : Bool
  confirmedAway : Bool
  deriving DecidableEq, Repr

/-- `summarize`, of the people of the entries. -/
def summarize (userIds : List ℤ) (presence : List PresenceRow) : PresenceSummary :=
  let state := fun userId => ((presenceOf presence userId).map (·.state)).getD .unknown
  let tunnels := fun userId => (presenceOf presence userId).any fun r => r.source = .tunnelSession
  let anyHome := userIds.any fun u => state u = .home
  let anyAway := userIds.any fun u => state u = .away
  let everyoneAway := userIds ≠ [] && userIds.all fun u => state u = .away
  { anyHome
    allHome := anyHome && !anyAway
    confirmedAway := everyoneAway && userIds.any fun u => state u = .away && tunnels u }

/-- The order that the trigger and the presence ask for. -/
def strategyFor (input : ResponsePlanInput) (summary : PresenceSummary) : ResponseStrategy :=
  match input.trigger with
  | .panic | .duress | .escalation => .everyone
  | .tamper => .ordered
  | .intrusion =>
    if summary.anyHome && input.indoor then .everyone
    else if input.night && summary.allHome && !input.clearThreat then .nightQuiet
    else if summary.anyHome then .insideFirst
    else .ordered

namespace ResponsePlanInput

variable (input : ResponsePlanInput)

/-- The members an alarm goes to. -/
def included : List ResponseMember :=
  input.members.filter fun m => m.mode ≠ .off && m.userId ∉ input.excluded

/-- A member who is reached in any case. -/
def mandatory (member : ResponseMember) : Bool :=
  member.role = .guard && (member.onDuty || input.staffedNow)

/-- The entry of a member, before the strategy. -/
def entryOf (member : ResponseMember) : ResponsePlanEntry where
  userId := member.userId
  step := member.step
  mode := if input.mandatory member then .call else member.mode
  mandatory := input.mandatory member

/-- The presence of the members who are not left out. -/
def summary : PresenceSummary := summarize (input.included.map (·.userId)) input.presence

/-- The order of the plan. -/
def strategy : ResponseStrategy := strategyFor input input.summary

/-- What the strategy makes of an entry. -/
def placed (entry : ResponsePlanEntry) : ResponsePlanEntry :=
  match input.strategy with
  | .everyone => { entry with step := 0 }
  | .nightQuiet => { entry with
      step := 0, mode := if entry.mandatory then entry.mode else .notify }
  | .insideFirst =>
    if isHome input.presence entry.userId then { entry with step := 0, discreet := true }
    else { entry with step := entry.step + 1 }
  | .ordered => entry

/-- The entries before their steps are compacted. -/
def placedEntries : List ResponsePlanEntry := input.included.map fun m => input.placed (input.entryOf m)

end ResponsePlanInput

/-- `compactSteps` -/
def compactSteps (entries : List ResponsePlanEntry) : List ResponsePlanEntry :=
  let steps := Ranks.distinct (entries.map (·.step))
  entries.map fun e => { e with step := Ranks.lowerBound steps e.step }

/-- `response_plan::build` -/
def build (input : ResponsePlanInput) : ResponsePlan :=
  let entries := (compactSteps input.placedEntries).insertionSort fun e e' => e.step ≤ e'.step
  { environmentId := input.environmentId
    strategy := input.strategy
    entries
    stepCount := entries.getLast?.elim 0 fun e => e.step + 1
    stepSeconds := input.stepSeconds
    offerCamera := input.hasCamera
    offerSiren := (input.trigger = .intrusion || input.trigger = .escalation) &&
      input.summary.confirmedAway
    emergencyNumber := input.emergencyNumber
    contacts := input.contacts }

end Response

end ArgusBackend
