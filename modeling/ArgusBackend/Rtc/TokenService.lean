import ArgusBackend.Library.Crews
import ArgusBackend.Library.Table
import Mathlib.Data.Finset.Card

/-!
# Tokens for calls

`RtcTokenService::issue` lets a user into a call: it reserves a slot of the user, claims the call if
it is a proactive one, creates the room and lets the voice agent join it.  A slot is held from its
reservation to the end of the request, however that ends (`CallSlot`).

* `Rooms` : the rooms that are open at LiveKit, and `inFlight_`;
* `RtcTokenService.issue` : the request;
* `workshop` : any number of requests side by side, while rooms close.
-/

namespace ArgusBackend

namespace Rtc

/-! ### Names -/

namespace Naming

/-- What the id of a user's own call begins with. -/
def kUserCallPrefix : String := "rtc-"

/-- What the id of a call by the house begins with. -/
def kProactiveCallPrefix : String := "call-"

/-- The hexadecimal digits of a user's own call. -/
def kUserCallIdHexChars : ℕ := 32

/-- The most digits of a call by the house. -/
def kMaxProactiveDigits : ℕ := 19

/-- What a call id names. -/
inductive CallKind where
  | invalid | user | proactive
  deriving DecidableEq, Repr

/-- A text begins with another. -/
def startsWith (name start : String) : Bool := start.toList.isPrefixOf name.toList

/-- The kind of a call id. -/
def callKindOf (callId : String) : CallKind :=
  if startsWith callId kUserCallPrefix then
    let rest := callId.toList.drop kUserCallPrefix.length
    if rest.length = kUserCallIdHexChars ∧
        rest.all fun c => ('0' ≤ c && c ≤ '9') || ('a' ≤ c && c ≤ 'f') then .user else .invalid
  else if startsWith callId kProactiveCallPrefix then
    let rest := callId.toList.drop kProactiveCallPrefix.length
    if rest ≠ [] ∧ rest.length ≤ kMaxProactiveDigits ∧ rest.head? ≠ some '0' ∧
        rest.all fun c => '0' ≤ c && c ≤ '9' then .proactive else .invalid
  else .invalid

/-- What the rooms of a user begin with. -/
def roomPrefixOf (userId : ℤ) : String := "u" ++ toString userId ++ "."

/-- The room of a user's call. -/
def roomOf (userId : ℤ) (callId : String) : String := roomPrefixOf userId ++ callId

theorem startsWith_roomOf (userId : ℤ) (callId : String) :
    startsWith (roomOf userId callId) (roomPrefixOf userId) = true := by
  rw [startsWith, roomOf, String.toList_append, List.isPrefixOf_iff_prefix]
  exact List.prefix_append _ _

end Naming

/-! ### The state -/

/-- The rooms that are open, and the slots that requests hold. -/
structure Rooms where
  /-- the rooms that are open -/
  names : Finset String := ∅
  /-- those that a request of a user has created -/
  issued : Finset (ℤ × String) := ∅
  /-- `inFlight_->byUser` -/
  byUser : Table ℤ ℤ := ∅

/-- The limit, and which other services there are. -/
structure RtcConfig where
  enabled : Bool := true
  maxConcurrentCalls : ℕ := 2
  /-- which clients the service has -/
  voice : Bool := true
  watch : Bool := true
  calls : Bool := true
  directory : Bool := true
  rooms : Bool := true

/-- A room of a user for which a slot is held. -/
structure RtcCallSlotInput where
  userId : ℤ
  room : String
  deriving DecidableEq, Repr

/-- A conversation on a watch. -/
structure WatchConversation where
  conversationId : String
  state : String
  resumableUntil : ℤ
  deriving DecidableEq, Repr

/-- How the claim of a call by the house is answered. -/
inductive RtcClaimStatus where
  | claimed | taken | expired | notFound | unavailable
  deriving DecidableEq, Repr

/-- What a request may be refused with. -/
inductive RtcError where
  | rtcUnavailable | watchNotFound | watchExpired | tooManyCalls | callTaken | callExpired
  | callNotFound
  deriving DecidableEq, Repr

/-- A session that wants to join a call. -/
structure RtcTokenRequest where
  sub : ℤ
  sessionId : String
  callId : String := ""
  watchConversationId : String := ""
  deriving DecidableEq, Repr

namespace Rooms

variable (s : Rooms)

/-- How many of the rooms that were listed count against the user. -/
def openFor (input : RtcCallSlotInput) (names : Finset String) : ℕ :=
  (names.filter fun name =>
    Naming.startsWith name (Naming.roomPrefixOf input.userId) ∧ name ≠ input.room).card

/-- The user's slots, as `inFlight_` has them. -/
def pending (userId : ℤ) : ℤ := (s.byUser.lookup userId).getD 0

/-- The block of `reserveCall` under the lock: whether a slot is given. -/
def admits (maxConcurrentCalls : ℕ) (input : RtcCallSlotInput) (names : Finset String) : Bool :=
  openFor input names + s.pending input.userId < maxConcurrentCalls

/-- `RtcCallSlots::reserve` -/
def reserve (maxConcurrentCalls : ℕ) (input : RtcCallSlotInput) (names : Finset String) : Rooms :=
  if s.admits maxConcurrentCalls input names then
    { s with byUser := s.byUser.insert input.userId (s.pending input.userId + 1) }
  else if s.pending input.userId = 0 then { s with byUser := s.byUser.erase input.userId }
  else s

/-- The end of a `CallSlot`. -/
def release (userId : ℤ) : Rooms :=
  match s.byUser.lookup userId with
  | none => s
  | some n =>
    if n - 1 ≤ 0 then { s with byUser := s.byUser.erase userId }
    else { s with byUser := s.byUser.insert userId (n - 1) }

/-- A room is created for a user. -/
def create (userId : ℤ) (room : String) : Rooms :=
  { s with names := insert room s.names, issued := insert (userId, room) s.issued }

/-- A room is gone. -/
def close (room : String) : Rooms :=
  { s with names := s.names.erase room, issued := s.issued.filter fun r => r.2 ≠ room }

end Rooms

/-! ### What the service awaits -/

/-- What the service awaits. -/
inductive Op where
  | watchList (userId : ℤ)
  | now
  | mintUserCallId
  | listRooms
  | reserve (input : RtcCallSlotInput) (names : Finset String)
  | release (slot : RtcCallSlotInput)
  | claim (callId : String) (userId : ℤ)
  | findUser (userId : ℤ)
  | createRoom (userId : ℤ) (room : String)
  | join (room : String)
  | refuse (error : RtcError)
  /-- LiveKit closes a room -/
  | closeRoom (room : String)
  deriving DecidableEq

/-- What each of them answers. -/
@[reducible] def Op.Ans : Op → Type
  | .watchList _ => Option (List WatchConversation)
  | .now => ℤ
  | .mintUserCallId => String
  | .listRooms => Option (Finset String)
  | .claim _ _ => RtcClaimStatus
  | .reserve _ _ | .createRoom _ _ | .join _ => Bool
  | _ => Unit

/-- What the outside answers. -/
structure Outside where
  listed : Option (List WatchConversation) := some []
  now : ℤ := 0
  minted : String := ""
  /-- LiveKit answers -/
  reachable : Bool := true
  /-- a room is created, also when LiveKit does not answer -/
  created : Bool := true
  status : RtcClaimStatus := .claimed
  joined : Bool := true

variable (config : RtcConfig)

/-- The answer of an operation and the rooms after it. -/
def exec (env : Outside) (op : Op) (s : Rooms) : op.Ans × List Unit × Rooms :=
  match op with
  | .watchList _ => (env.listed, [], s)
  | .now => (env.now, [], s)
  | .mintUserCallId => (env.minted, [], s)
  | .listRooms => (if env.reachable then some s.names else none, [], s)
  | .reserve input names =>
    (s.admits config.maxConcurrentCalls input names, [],
      s.reserve config.maxConcurrentCalls input names)
  | .release slot => ((), [], s.release slot.userId)
  | .claim _ _ => (env.status, [], s)
  | .findUser _ => ((), [], s)
  | .createRoom userId room =>
    (env.reachable, [], if env.created then s.create userId room else s)
  | .join _ => (env.joined, [], s)
  | .refuse _ => ((), [], s)
  | .closeRoom room => ((), [], s.close room)

/-- A task of the service. -/
abbrev RtcTask := Task Op Op.Ans

/-- Await an operation. -/
def ask (op : Op) : RtcTask op.Ans := Task.call op

/-- Throw an error of the service. -/
def refuse {α : Type} (error : RtcError) : RtcTask α := do
  ask (.refuse error)
  Task.throw

/-! ### The service -/

/-- A conversation on a watch that cannot be joined any more. -/
def watchExpired (conversation : WatchConversation) (now : ℤ) : Bool :=
  conversation.state = "ended" ||
    (conversation.state = "resumable" && 0 < conversation.resumableUntil &&
      conversation.resumableUntil < now)

/-- A claim that was not granted is refused. -/
def throwForClaim : RtcClaimStatus → RtcTask Unit
  | .claimed => pure ()
  | .taken => refuse .callTaken
  | .expired => refuse .callExpired
  | .notFound => refuse .callNotFound
  | .unavailable => refuse .rtcUnavailable

namespace RtcTokenService

/-- The check of `issue` that the conversation to be carried over is there. -/
def checkWatch (request : RtcTokenRequest) : RtcTask Unit := do
  if request.watchConversationId ≠ "" then
    if config.watch = false then
      refuse .rtcUnavailable
    else
      let listed ← ask (.watchList request.sub)
      match listed with
      | none => refuse .rtcUnavailable
      | some listed =>
        match listed.find? fun item => item.conversationId = request.watchConversationId with
        | none => refuse .watchNotFound
        | some found =>
          let now ← ask .now
          if watchExpired found now then
            refuse .watchExpired

/-- The call that a request is about, a new one if it names none. -/
def callIdOf (request : RtcTokenRequest) : RtcTask String := do
  if request.watchConversationId ≠ "" then
    pure (Naming.kUserCallPrefix ++ request.watchConversationId)
  else if request.callId = "" then
    ask .mintUserCallId
  else
    pure request.callId

/-- Whether a slot is held. -/
def reserveCall (input : RtcCallSlotInput) : RtcTask Bool := do
  if config.rooms = false then
    pure false
  else
    let names ← ask .listRooms
    match names with
    | none => refuse .rtcUnavailable
    | some names =>
      let admitted ← ask (.reserve input names)
      if admitted then
        pure true
      else
        refuse .tooManyCalls

/-- A proactive call is claimed. -/
def claimCall (request : RtcTokenRequest) (callId : String) : RtcTask Unit := do
  if Naming.callKindOf callId = .proactive then
    if config.calls = false then
      refuse .rtcUnavailable
    else
      let status ← ask (.claim callId request.sub)
      throwForClaim status

/-- The user is looked up in the directory. -/
def findUser (request : RtcTokenRequest) : RtcTask Unit := do
  if config.directory then
    ask (.findUser request.sub)

/-- The room of the call is created. -/
def createRoom (request : RtcTokenRequest) (room : String) : RtcTask Unit := do
  if config.rooms then
    let created ← ask (.createRoom request.sub room)
    if created = false then
      refuse .rtcUnavailable

/-- The voice service joins the room. -/
def join (request : RtcTokenRequest) (room : String) : RtcTask Unit := do
  let joined ← ask (.join room)
  if joined = false then
    refuse (if request.watchConversationId = "" then .rtcUnavailable else .watchExpired)

/-- What `issue` does while it holds its slot. -/
def enter (request : RtcTokenRequest) (callId room : String) : RtcTask Unit := do
  claimCall config request callId
  findUser config request
  createRoom config request room
  join request room

/-- `issue`: the room of a call, with a slot while it is made. -/
def issue (request : RtcTokenRequest) : RtcTask Unit := do
  if config.enabled = false ∨ config.voice = false ∨ request.sessionId = "" then
    refuse .rtcUnavailable
  else
    checkWatch config request
    let callId ← callIdOf request
    let slot := { userId := request.sub, room := Naming.roomOf request.sub callId }
    let held ← reserveCall config slot
    let entered ← (enter config request callId slot.room).attempt
    -- the slot is given back, however the request ends
    if held then
      ask (.release slot)
    match entered with
    | some _ => pure ()
    | none => Task.throw

end RtcTokenService

/-- A token is asked for, or a room is closed. -/
inductive Request where
  | issue (request : RtcTokenRequest)
  | closeRoom (room : String)
  deriving DecidableEq, Repr

/-- The slot that a request holds. -/
abbrev Slot := Option RtcCallSlotInput

/-- The slot that a request holds after an operation. -/
def Slot.after (slot : Slot) : (op : Op) → Option op.Ans → Slot
  | .reserve input _, some true => some input
  | .release _, some _ => none
  | _, _ => slot

/-- Any number of requests, each of which may fail wherever it awaits; what ends a slot does not
throw. -/
def workshop : Workshop Rooms Unit Slot Outside Request Op Op.Ans where
  exec := exec config
  program
    | .issue request => RtcTokenService.issue config request
    | .closeRoom room => ask (.closeRoom room)
  first _ := none
  after := Slot.after
  fallible
    | .release _ => false
    | _ => true

/-- Rooms that are open, and no request. -/
def start (names : Finset String) : Crew Rooms Slot Request Op Op.Ans := ⟨{ names }, []⟩

end Rtc

end ArgusBackend
