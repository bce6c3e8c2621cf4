import ArgusBackend.Response.Plan
import Mathlib

/-!
# Response plans on the wire

The guard sends a plan as JSON (`toJson`), and the notification service reads it (`parsePlan`),
with its own limits on steps, seconds and repeated users.
-/

namespace ArgusBackend

namespace Response

/-! ### JSON -/

/-- The JSON values in plans; their numbers are integers of 64 bits. -/
inductive Json where
  | null
  | bool (value : Bool)
  | int (value : ℤ)
  | str (value : String)
  | arr (items : List Json)
  | obj (fields : List (String × Json))

namespace Json

/-- What is asked as an integer or a boolean throws when it is of another type. -/
inductive Error where
  | notConvertible | outOfRange
  deriving DecidableEq, Repr

/-- `json[key]`, which is null when there is none. -/
def field (json : Json) (key : String) : Json :=
  match json with
  | .obj fields => ((fields.find? fun f => f.1 = key).map (·.2)).getD .null
  | _ => .null

/-- `json.get(key, fallback)` -/
def get (json : Json) (key : String) (fallback : Json) : Json :=
  match json with
  | .obj fields => ((fields.find? fun f => f.1 = key).map (·.2)).getD fallback
  | _ => fallback

/-- The value is an object. -/
def isObject : Json → Bool
  | .obj _ => true
  | _ => false

/-- The value is an integer. -/
def isIntegral : Json → Bool
  | .int _ => true
  | _ => false

/-- `isInt`, of an `int` with 32 bits -/
def isInt : Json → Bool
  | .int n => -2 ^ 31 ≤ n && n < 2 ^ 31
  | _ => false

/-- What a loop over a value goes through: the items, or the values in the order of their keys. -/
def items : Json → List Json
  | .arr items => items
  | .obj fields => (fields.insertionSort fun f f' => f.1 ≤ f'.1).map (·.2)
  | _ => []

/-- `json[key] = value` on an object -/
def set (json : Json) (key : String) (value : Json) : Json :=
  match json with
  | .obj fields =>
    if fields.any (·.1 = key) then
      .obj (fields.map fun f => if f.1 = key then (key, value) else f)
    else .obj (fields ++ [(key, value)])
  | _ => json

/-- `asInt`, of an `int` with 32 bits -/
def asInt : Json → Except Error ℤ
  | .int n => if -2 ^ 31 ≤ n ∧ n < 2 ^ 31 then .ok n else .error .outOfRange
  | .bool b => .ok (if b then 1 else 0)
  | .null => .ok 0
  | _ => .error .notConvertible

/-- `asInt64` -/
def asInt64 : Json → Except Error ℤ
  | .int n => .ok n
  | .bool b => .ok (if b then 1 else 0)
  | .null => .ok 0
  | _ => .error .notConvertible

/-- `asBool` -/
def asBool : Json → Except Error Bool
  | .bool b => .ok b
  | .int n => .ok (n ≠ 0)
  | .null => .ok false
  | _ => .error .notConvertible

/-- `asString` -/
def asString : Json → Except Error String
  | .str value => .ok value
  | .bool b => .ok (if b then "true" else "false")
  | .int n => .ok (toString n)
  | .null => .ok ""
  | _ => .error .notConvertible

end Json

/-! ### The guard -/

/-- The text of a strategy. -/
def responseStrategyToString : ResponseStrategy → String
  | .ordered => "ordered"
  | .insideFirst => "inside_first"
  | .everyone => "everyone"
  | .nightQuiet => "night_quiet"

/-- The text of a mode. -/
def recipientModeToString : RecipientMode → String
  | .call => "call"
  | .notify => "notify"
  | .off => "off"

/-- The JSON of a contact. -/
def contactJson (contact : ResponseContactRow) : Json :=
  .obj [("name", .str contact.name), ("phone", .str contact.phone), ("note", .str contact.note)]

/-- The JSON of an entry. -/
def recipientJson (entry : ResponsePlanEntry) : Json :=
  .obj [("userId", .int entry.userId), ("step", .int entry.step),
    ("mode", .str (recipientModeToString entry.mode)), ("mandatory", .bool entry.mandatory),
    ("discreet", .bool entry.discreet)]

/-- `response_plan::toJson` -/
def toJson (plan : ResponsePlan) : Json :=
  .obj [("v", .int 1), ("environmentId", .int plan.environmentId),
    ("strategy", .str (responseStrategyToString plan.strategy)),
    ("stepCount", .int plan.stepCount), ("stepSeconds", .int plan.stepSeconds),
    ("offers", .arr ((if plan.offerCamera then [.str "camera"] else []) ++
      if plan.offerSiren then [.str "siren"] else [])),
    ("emergencyNumber", .str plan.emergencyNumber),
    ("contacts", .arr (plan.contacts.map contactJson)),
    ("recipients", .arr (plan.entries.map recipientJson))]

/-! ### The notification service -/

/-- How a member is reached. -/
inductive ResponseMemberMode where
  | call | notify
  deriving DecidableEq, Repr

/-- `ResponsePlanEntry` of the notification service -/
structure ParsedEntry where
  userId : ℤ
  step : ℤ
  mode : ResponseMemberMode
  mandatory : Bool
  discreet : Bool
  deriving DecidableEq, Repr

/-- A plan as the notification service reads it. -/
structure ParsedResponsePlan where
  strategy : String
  stepCount : ℤ
  stepSeconds : ℤ
  entries : List ParsedEntry
  deriving DecidableEq, Repr

/-- The most steps. -/
def kMaxSteps : ℤ := 33

/-- The shortest step. -/
def kMinStepSeconds : ℤ := 15

/-- The longest step. -/
def kMaxStepSeconds : ℤ := 300

/-- The mode of a text. -/
def responseMemberModeFromString (value : String) : ResponseMemberMode :=
  if value = "notify" then .notify else .call

/-- `text` -/
def text (data : Json) (key : String) : String :=
  match data.field key with
  | .str value => value
  | _ => ""

/-- The text is that of a strategy. -/
def knownStrategy (strategy : String) : Bool :=
  strategy = "ordered" || strategy = "inside_first" || strategy = "everyone" ||
    strategy = "night_quiet"

/-- What one recipient adds to the entries parsed before it. -/
def parseRecipient (entries : List ParsedEntry) (item : Json) :
    Except Json.Error (List ParsedEntry) :=
  if !item.isObject || !(item.field "userId").isIntegral || !(item.field "step").isIntegral then
    .ok entries
  else do
    let userId ← (item.field "userId").asInt64
    let step ← (item.field "step").asInt
    if userId ≤ 0 ∨ step < 0 ∨ kMaxSteps ≤ step ∨ entries.any (·.userId = userId) then
      return entries
    else
      let mandatory ← (item.get "mandatory" (.bool false)).asBool
      let discreet ← (item.get "discreet" (.bool false)).asBool
      return entries ++
        [{ userId, step, mode := responseMemberModeFromString (text item "mode")
           mandatory, discreet }]

/-- `call_response::parsePlan`, which may throw -/
def parsePlan (plan : Json) : Except Json.Error (Option ParsedResponsePlan) :=
  match plan.isObject, plan.field "recipients" with
  | true, .arr recipients => do
    let strategy := text plan "strategy"
    let stepSeconds ← (plan.get "stepSeconds" (.int 45)).asInt
    let entries ← recipients.foldlM parseRecipient []
    if entries = [] then
      return none
    else
      return some
        { strategy := if knownStrategy strategy then strategy else "ordered"
          stepCount := (entries.map (·.step + 1)).foldl max 0
          stepSeconds := max kMinStepSeconds (min stepSeconds kMaxStepSeconds)
          entries }
  | _, _ => .ok none

end Response

end ArgusBackend
