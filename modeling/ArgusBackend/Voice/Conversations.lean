import ArgusBackend.Library.Crews
import Mathlib.Logic.Function.Basic

/-!
# Conversations on cameras

A member talks to a camera, and may take the conversation along onto the phone: `claim` gives the
phone what was said, the carry.  The carry is produced when the conversation closes.  A claim that
finds the conversation open waits for the close (`handOver`); a later one finds the carry among
those that the manager keeps (`carries_`), as long as the conversation is resumable.

* `CameraConversation`, `ConversationManager` : the state, and the blocks under a lock;
* `claim`, `bridge`, `end_`, `forget`, `close`, `reap` : the requests;
* `workshop` : any number of requests side by side, one block or one atomic access at a time.
-/

namespace ArgusBackend

namespace Voice

/-- The states of a conversation. -/
inductive ConversationState where
  | waking | listening | thinking | speaking | resumable | ended
  deriving DecidableEq, Repr

/-- How far a conversation has gone over to a device. -/
inductive ConversationHandoff where
  | camera | offering | bridging | device
  deriving DecidableEq, Repr

/-- Why a conversation ends. -/
inductive ConversationEnd where
  | none | silence | closing | limit | cameraLost | busyLine | handoff | superseded | shutdown
  | gate | failed | expired
  deriving DecidableEq, Repr

/-- What a conversation takes along to a call. -/
structure VoiceSessionCarry where
  callId : String
  entries : List String := []
  deriving DecidableEq, Repr

/-- What is shown of a conversation. -/
structure ConversationSnapshot where
  conversationId : String
  userId : ℤ
  state : ConversationState := .listening
  handoff : ConversationHandoff := .camera
  updatedAt : ℤ := 0
  resumableUntil : ℤ := 0
  endReason : ConversationEnd := .none
  deriving DecidableEq, Repr

/-- What a conversation leaves behind. -/
structure ConversationEnded where
  snapshot : ConversationSnapshot
  reason : ConversationEnd
  carry : Option VoiceSessionCarry
  deriving DecidableEq, Repr

/-- How long a conversation stays resumable, in milliseconds. -/
structure VoiceWatchConfig where
  resumable : ℤ := 120000

/-! ### One conversation -/

/-- The state of a conversation that requests race for. -/
structure CameraConversation where
  snapshot_ : ConversationSnapshot
  started_ : Bool := true
  deviceHandoff_ : Bool := false
  requested_ : ConversationEnd := .none
  closed_ : Bool := false
  carry_ : Option VoiceSessionCarry := none
  /-- its close has finished, which is what `handOver` waits for -/
  done : Bool := false

/-- Whether a conversation that ends for this reason can be resumed. -/
def resumable (reason : ConversationEnd) (device : Bool) : Bool :=
  reason = .cameraLost || reason = .busyLine || (reason = .handoff && !device)

namespace CameraConversation

variable (v : CameraConversation)

/-- `input_.start.identity().user_id()`, which the snapshot has from the start. -/
def userId : ℤ := v.snapshot_.userId

/-- The first reason to end is kept. -/
def requestEnd (reason : ConversationEnd) : CameraConversation :=
  if v.requested_ = .none then { v with requested_ := reason } else v

/-- The first block of `handOver`. -/
def markDevice : CameraConversation :=
  { v with
    deviceHandoff_ := true
    requested_ := if v.requested_ = .none then .handoff else v.requested_ }

/-- How far the handoff has come. -/
def markHandoff (handoff : ConversationHandoff) (now : ℤ) : CameraConversation :=
  { v with snapshot_ := { v.snapshot_ with handoff, updatedAt := now } }

/-- The snapshot that `close` leaves. -/
def closing (config : VoiceWatchConfig) (reason : ConversationEnd) (device : Bool) (now : ℤ) :
    ConversationSnapshot :=
  { v.snapshot_ with
    handoff := if reason = .handoff then (if device then .device else .offering)
      else v.snapshot_.handoff
    state := if resumable reason device then .resumable else .ended
    endReason := reason
    updatedAt := now
    resumableUntil := if resumable reason device then now + config.resumable.tdiv 1000 else 0 }

/-- The last block of `close`. -/
def store (config : VoiceWatchConfig) (reason : ConversationEnd) (device : Bool)
    (carry : Option VoiceSessionCarry) (now : ℤ) : CameraConversation :=
  { v with carry_ := carry, snapshot_ := v.closing config reason device now }

end CameraConversation

/-! ### The manager -/

/-- The conversations, and what is kept of those that ended. -/
structure ConversationManager where
  /-- the conversations themselves, which a request may hold on to after they left `live_` -/
  conversations : String → CameraConversation
  live_ : String → Bool
  finished_ : String → Option ConversationSnapshot := fun _ => none
  carries_ : String → Option VoiceSessionCarry := fun _ => none

/-- How long what a conversation left is kept. -/
def kKeepEndedSeconds : ℤ := 60

namespace ConversationManager

variable (s : ConversationManager)

/-- A conversation is changed. -/
def put (id : String) (v : CameraConversation) : ConversationManager :=
  { s with conversations := Function.update s.conversations id v }

/-- The last snapshot of a conversation is kept. -/
def finish (id : String) (snapshot : ConversationSnapshot) : ConversationManager :=
  { s with finished_ := Function.update s.finished_ id (some snapshot) }

/-- The block of `end` on a finished conversation. -/
def endFinished (userId : ℤ) (id : String) (now : ℤ) : Bool × ConversationManager :=
  match s.finished_ id with
  | none => (false, s)
  | some found =>
    if found.userId ≠ userId then (false, s)
    else (true, s.finish id { found with state := .ended, resumableUntil := 0, updatedAt := now })

/-- Nothing is kept of a conversation any more. -/
def forget (id : String) : ConversationManager :=
  { s with
    finished_ := Function.update s.finished_ id none
    carries_ := Function.update s.carries_ id none }

/-- The block of `bridge` on a finished conversation. -/
def bridgeFinished (userId : ℤ) (id : String) (now : ℤ) : Bool × ConversationManager :=
  match s.finished_ id with
  | none => (false, s)
  | some found =>
    if found.userId ≠ userId ∨ found.state ≠ .resumable ∨ found.resumableUntil < now ∨
        (s.carries_ id).isNone then (false, s)
    else (true, s.finish id { found with handoff := .bridging, updatedAt := now })

/-- The block of `claim` on a finished conversation. -/
def claimFinished (userId : ℤ) (id : String) (now : ℤ) :
    Option VoiceSessionCarry × ConversationManager :=
  match s.finished_ id, s.carries_ id with
  | some found, some kept =>
    if found.userId ≠ userId ∨ found.state ≠ .resumable ∨ found.resumableUntil < now then (none, s)
    else
      (some kept,
        { s.finish id { found with
            state := .ended, handoff := .device, endReason := .handoff, resumableUntil := 0
            updatedAt := now } with
          carries_ := Function.update s.carries_ id none })
  | _, _ => (none, s)

/-- `ended`, with which the close of the conversation has finished. -/
def ended (done : ConversationEnded) : ConversationManager :=
  let id := done.snapshot.conversationId
  { s.finish id done.snapshot with
    conversations := Function.update s.conversations id { s.conversations id with done := true }
    carries_ :=
      if done.carry.isSome ∧ 0 < done.snapshot.userId ∧ done.snapshot.state = .resumable then
        Function.update s.carries_ id done.carry
      else s.carries_ }

/-- What `reap` makes of a finished conversation. -/
def expire (now : ℤ) (snapshot : ConversationSnapshot) : ConversationSnapshot :=
  if snapshot.state = .resumable ∧ snapshot.resumableUntil ≤ now then
    { snapshot with state := .ended, endReason := .expired, resumableUntil := 0, updatedAt := now }
  else snapshot

/-- The block of `reap`. -/
def reap (now : ℤ) : ConversationManager :=
  { s with
    live_ := fun id => s.live_ id && !(s.conversations id).closed_
    finished_ := fun id => ((s.finished_ id).map (expire now)).filter fun snapshot =>
      !(snapshot.state = .ended && kKeepEndedSeconds < now - snapshot.updatedAt)
    carries_ := fun id =>
      if ((s.finished_ id).map (expire now)).any fun snapshot => snapshot.state = .ended then none
      else s.carries_ id }

end ConversationManager

/-! ### One block at a time -/

/-- What the requests await: each touches the shared state once. -/
inductive Op where
  | live (id : String)
  /-- `closed_.load()` -/
  | closed (id : String)
  /-- `conversation->userId() == userId` -/
  | belongs (userId : ℤ) (id : String)
  | requestEnd (id : String) (reason : ConversationEnd)
  | markHandoff (id : String) (handoff : ConversationHandoff)
  | markDevice (id : String)
  /-- the wait of `handOver` comes to its end -/
  | wait (id : String)
  /-- `std::exchange(carry_, std::nullopt)` -/
  | take (id : String)
  | endFinished (userId : ℤ) (id : String)
  | forget (id : String)
  | bridgeFinished (userId : ℤ) (id : String)
  | claimFinished (userId : ℤ) (id : String)
  /-- the first block of `close` -/
  | readDevice (id : String)
  /-- `closed_.exchange(true)` -/
  | exchangeClosed (id : String)
  | started (id : String)
  | stopWithCarry (id : String)
  | store (id : String) (reason : ConversationEnd) (device : Bool)
      (carry : Option VoiceSessionCarry)
  | ended (done : ConversationEnded)
  | reap
  deriving DecidableEq

/-- What each of them answers. -/
@[reducible] def Op.Ans : Op → Type
  | .take _ | .claimFinished _ _ | .stopWithCarry _ => Option VoiceSessionCarry
  | .store _ _ _ _ => ConversationEnded
  | .live _ | .closed _ | .belongs _ _ | .wait _ | .endFinished _ _ | .bridgeFinished _ _
  | .readDevice _ | .exchangeClosed _ | .started _ => Bool
  | _ => Unit

/-- What the outside answers. -/
structure Outside where
  /-- `epochSeconds` -/
  now : ℤ := 0
  /-- what `stopWithCarry` yields -/
  carry : Option VoiceSessionCarry := none

variable (config : VoiceWatchConfig)

/-- The answer of an operation and the state after it. -/
def exec (env : Outside) (op : Op) (s : ConversationManager) :
    op.Ans × List Unit × ConversationManager :=
  match op with
  | .live id => (s.live_ id, [], s)
  | .closed id => ((s.conversations id).closed_, [], s)
  | .belongs userId id => ((s.conversations id).userId = userId, [], s)
  | .requestEnd id reason => ((), [], s.put id ((s.conversations id).requestEnd reason))
  | .markHandoff id handoff => ((), [], s.put id ((s.conversations id).markHandoff handoff env.now))
  | .markDevice id => ((), [], s.put id (s.conversations id).markDevice)
  | .wait id => ((s.conversations id).done, [], s)
  | .take id =>
    ((s.conversations id).carry_, [], s.put id { s.conversations id with carry_ := none })
  | .endFinished userId id =>
    ((s.endFinished userId id env.now).1, [], (s.endFinished userId id env.now).2)
  | .forget id => ((), [], s.forget id)
  | .bridgeFinished userId id =>
    ((s.bridgeFinished userId id env.now).1, [], (s.bridgeFinished userId id env.now).2)
  | .claimFinished userId id =>
    ((s.claimFinished userId id env.now).1, [], (s.claimFinished userId id env.now).2)
  | .readDevice id => ((s.conversations id).deviceHandoff_, [], s)
  | .exchangeClosed id =>
    ((s.conversations id).closed_, [], s.put id { s.conversations id with closed_ := true })
  | .started id => ((s.conversations id).started_, [], s)
  | .stopWithCarry _ => (env.carry, [], s)
  | .store id reason device carry =>
    ({ snapshot := (s.conversations id).closing config reason device env.now, reason
       carry := if device then none else carry }, [],
      s.put id ((s.conversations id).store config reason device carry env.now))
  | .ended done => ((), [], s.ended done)
  | .reap => ((), [], s.reap env.now)

/-- A task of the manager. -/
abbrev VoiceTask := Task Op Op.Ans

/-- Await an operation. -/
def ask (op : Op) : VoiceTask op.Ans := Task.call op

/-! ### The requests -/

/-- `live(conversationId)`, if there is one that is not closed. -/
def open? (id : String) : VoiceTask Bool := do
  let found ← ask (.live id)
  if found then
    let closed ← ask (.closed id)
    pure !closed
  else
    pure false

/-- The wait lasts until the close has finished or the time is up, which it may be at any moment;
its answer is which of the two it was. -/
def handOver (id : String) : VoiceTask (Option VoiceSessionCarry) := do
  ask (.markDevice id)
  let _ ← ask (.wait id)
  ask (.take id)

/-- `claim`: the user takes their conversation over on a device, with its carry. -/
def claim (userId : ℤ) (id : String) : VoiceTask (Option VoiceSessionCarry) := do
  if userId ≤ 0 then
    pure none
  else
    let live ← open? id
    if live then
      let own ← ask (.belongs userId id)
      if own then
        handOver id
      else
        pure none
    else
      ask (.claimFinished userId id)

/-- `bridge`: the user's conversation is about to go over to a device. -/
def bridge (userId : ℤ) (id : String) : VoiceTask Bool := do
  if userId ≤ 0 then
    pure false
  else
    let live ← open? id
    if live then
      let own ← ask (.belongs userId id)
      if own then
        ask (.markHandoff id .bridging)
        pure true
      else
        pure false
    else
      ask (.bridgeFinished userId id)

/-- `end`: the user ends their conversation. -/
def end_ (userId : ℤ) (id : String) : VoiceTask Bool := do
  let live ← open? id
  if live then
    let own ← ask (.belongs userId id)
    if own then
      ask (.requestEnd id .closing)
      pure true
    else
      pure false
  else
    ask (.endFinished userId id)

/-- What `close` does once it is the one that closes the conversation. -/
def closeDown (id : String) (reason : ConversationEnd) (device : Bool) : VoiceTask Unit := do
  let started ← ask (.started id)
  if started then
    let carry ← ask (.stopWithCarry id)
    let done ← ask (.store id reason device carry)
    ask (.ended done)
  else
    let done ← ask (.store id reason device none)
    ask (.ended done)

/-- The line that may be said on the camera about the handoff; the line itself is left out. -/
def sayHandoff (id : String) (reason : ConversationEnd) (device : Bool) : VoiceTask Unit := do
  if reason = .handoff ∧ device = false then
    let _ ← ask (.closed id)
    pure ()
  else
    pure ()

/-- `close`: the one caller that closes the conversation stores what it leaves. -/
def close (id : String) (reason : ConversationEnd) : VoiceTask Unit := do
  let device ← ask (.readDevice id)
  sayHandoff id reason device
  let closed ← ask (.exchangeClosed id)
  if closed then
    pure ()
  else
    closeDown id reason device

/-- What happens to the conversations. -/
inductive Request where
  | claim (userId : ℤ) (id : String)
  | bridge (userId : ℤ) (id : String)
  | end_ (userId : ℤ) (id : String)
  | forget (id : String)
  | requestEnd (id : String) (reason : ConversationEnd)
  | close (id : String) (reason : ConversationEnd)
  | reap
  deriving DecidableEq, Repr

/-- How far a claim or a close has come. -/
inductive Phase where
  | fresh
  /-- the claim has found the conversation open, and its user's own -/
  | own
  | marked
  /-- the wait is over; had the close finished? -/
  | waited (closed : Bool)
  /-- what the claim has returned, and how its wait was over if it had one -/
  | returned (closed : Option Bool) (carry : Option VoiceSessionCarry)
  /-- the close has read whether the conversation is for the device -/
  | read (device : Bool)
  /-- it is the one that closes the conversation -/
  | won (device : Bool) (carry : Option VoiceSessionCarry)
  | stored (carry : Option VoiceSessionCarry) (done : ConversationEnded)
  | finished (carry : Option VoiceSessionCarry)
  deriving DecidableEq, Repr

/-- Whether a wait is over, and how it ended. -/
def Phase.waits : Phase → Option Bool
  | .waited closed => some closed
  | _ => none

/-- Whether the closing caller saw that a device takes over. -/
def Phase.device : Phase → Bool
  | .read device | .won device _ => device
  | _ => false

/-- The carry that the closing caller has in hand. -/
def Phase.carry : Phase → Option VoiceSessionCarry
  | .won _ carry | .stored carry _ => carry
  | _ => none

/-- How far a request has come once an operation is answered. -/
def Phase.after (k : Phase) : (op : Op) → Option op.Ans → Phase
  | .belongs _ _, some true => .own
  | .markDevice _, some _ => .marked
  | .wait _, some closed => .waited closed
  | .take _, some carry => .returned k.waits carry
  | .claimFinished _ _, some carry => .returned none carry
  | .readDevice _, some device => .read device
  | .exchangeClosed _, some false => .won k.device none
  | .stopWithCarry _, some carry => .won k.device carry
  | .store _ _ _ _, some done => .stored k.carry done
  | .ended _, some _ => .finished k.carry
  | _, _ => k

/-- What serves a request. -/
def program : Request → VoiceTask Unit
  | .claim userId id => do
    let _ ← claim userId id
    pure ()
  | .bridge userId id => do
    let _ ← bridge userId id
    pure ()
  | .end_ userId id => do
    let _ ← end_ userId id
    pure ()
  | .forget id => ask (.forget id)
  | .requestEnd id reason => ask (.requestEnd id reason)
  | .close id reason => close id reason
  | .reap => ask .reap

/-- The requests on the manager. -/
def workshop : Workshop ConversationManager Unit Phase Outside Request Op Op.Ans where
  exec := exec config
  program := program
  first _ := .fresh
  after := Phase.after

/-- A conversation that has just been opened. -/
def opened (id : String) (userId : ℤ) (started : Bool) : CameraConversation :=
  { snapshot_ := { conversationId := id, userId }, started_ := started }

/-- Conversations of any users, some of which are live. -/
def start (userId : String → ℤ) (started live : String → Bool) :
    Crew ConversationManager Phase Request Op Op.Ans :=
  ⟨{ conversations := fun id => opened id (userId id) (started id), live_ := live }, []⟩

end Voice

end ArgusBackend
