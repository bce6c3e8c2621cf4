import ArgusBackend.Library.Table
import ArgusBackend.Link.Credit
import ArgusBackend.Net.TcpPeer

/-!
# The state of the link client

What a `LinkClient` keeps: the channel to the cloud node, the frame parser of its input, the
streams with the bytes that wait in both directions, and what it remembers of the handshake.

A `Note` records what an outsider could see of a run (frames put on the channel, bytes read from
local peers, streams opened and closed) and the moments the theorems speak about (a drained
callback).
-/

namespace ArgusBackend

namespace Link

open Net

/-- The ticks of the steady clock in a second. -/
def second : ℕ := 1000000000

/-- How long a local peer may take to drain after its stream is closed. -/
def kDrainGrace : ℕ := 30 * second

/-- The longest hello that is looked at. -/
def kClientHelloMaxBytes : ℕ := 32 * 1024

/-- The alert for a name that no service has. -/
def kUnrecognizedNameAlert : UInt8 := 112

/-- A fatal TLS alert. -/
def tlsAlertRecord (description : UInt8) : Bytes := [21, 3, 3, 0, 2, 2, description]

/-! ### Configuration -/

/-- How much may be pending. -/
structure LinkLimits where
  streamPendingCap : ℕ := 256 * 1024
  globalPendingCap : ℕ := 8 * 1024 * 1024
  linkHighWater : ℕ := 256 * 1024
  maxStreams : ℕ := 256
  streamIdleTimeout : ℕ := 300 * second
  /-- The configuration replaces a water mark that is not positive. -/
  linkHighWater_pos : 0 < linkHighWater := by decide

/-- Where a stream goes by the client hello it began with (`parseClientHello` and `listenerFor`). -/
inductive Routing where
  | needMore
  | refused
  | listener (port : UInt16)
  deriving DecidableEq

/-- The order in which a hash table is walked. -/
structure WalkOrder where
  walk : List UInt32 → List UInt32
  perm : ∀ ids, (walk ids).Perm ids

/-- What the link is configured with, and what it calls. -/
structure LinkOptions where
  limits : LinkLimits := {}
  gatewayPort : UInt16 := 7142
  keepaliveActive : ℕ := 20 * second
  keepaliveIdle : ℕ := 90 * second
  keepalivePongTimeout : ℕ := 15 * second
  deadLinkTimeout : ℕ := 240 * second
  helloTimeout : ℕ := 10 * second
  capabilities : UInt32 := capability.kPushIntents ||| capability.kStreamCredit
  /-- `serviceListeners` is not empty. -/
  hasServiceListeners : Bool := false
  route : Bytes → Routing := fun _ => .needMore
  /-- `push_envelope::parseResultPayload` accepts the payload. -/
  isResultPayload : Bytes → Bool := fun _ => false
  order : WalkOrder := ⟨id, fun _ => .refl _⟩

/-- The capabilities that this side offers. -/
def LinkOptions.localCapabilities (options : LinkOptions) : UInt32 :=
  options.capabilities &&& capability.kKnown

/-! ### The channel -/

/-- The state of a `TlsChannel` whose callbacks are those of the client. -/
structure TlsChannel where
  sendBuffer : Bytes := []
  connecting : Bool := true
  ready : Bool := false
  readPaused : Bool := false
  congestedNotified : Bool := false
  eofSeen : Bool := false
  closed : Bool := false
  deriving DecidableEq

namespace TlsChannel

/-- Too much waits to be written. -/
def congested (channel : TlsChannel) : Bool := kSendLimit ≤ channel.sendBuffer.length

/-- The channel is read or not. -/
def setReadPaused (channel : TlsChannel) (paused : Bool) : TlsChannel :=
  if channel.readPaused = paused ∨ channel.closed then channel
  else { channel with readPaused := paused }

end TlsChannel

/-! ### The client -/

/-- A stream of the link. -/
structure Stream where
  /-- The member `local`. -/
  localPeer : Option ℕ := none
  pendingToLocal : Bytes := []
  pendingToHome : Bytes := []
  sendWindow : CreditWindow := {}
  receiveWindow : CreditWindow := {}
  lastActivity : ℕ := 0
  localAttached : Bool := false
  localReadPaused : Bool := false
  localEof : Bool := false
  closedByNode : Bool := false
  routed : Bool := true
  clientHello : Bytes := []
  deriving DecidableEq

/-- A local peer that drains after its stream is closed, and until when. -/
structure DrainingPeer where
  peer : ℕ
  deadline : ℕ
  deriving DecidableEq

/-- `channel` is none when `channel_` is null.  A channel that is moved out of `channel_` is closed
at once, so the functions that still run on it find it closed. -/
structure LinkState where
  channel : Option TlsChannel := none
  parser : FrameParser := {}
  streams : Table UInt32 Stream := ∅
  drainingPeers : List DrainingPeer := []
  globalPendingToHome : UInt64 := 0
  globalPendingToLocal : UInt64 := 0
  negotiatedCredit : Bool := false
  helloReceived : Bool := false
  linkReadPaused : Bool := false
  awaitingPong : Bool := false
  reconnectWithoutBackoff : Bool := false
  reconnectPending : Bool := false
  pingNonce : UInt64 := 0
  attachedAt : ℕ := 0
  lastFrameAt : ℕ := 0
  lastPingAt : ℕ := 0
  stopped : Bool := false
  connected : Bool := false
  draining : Bool := false
  activeKeepalive : Bool := false
  remoteCapabilities : UInt32 := 0
  /-- What the clock shows. -/
  now : ℕ := 0

/-- A stream is moved out of the table, and its waiting bytes no longer count. -/
def LinkState.removeStream (s : LinkState) (streamId : UInt32) (moved : Stream) : LinkState :=
  { s with
    streams := s.streams.erase streamId
    globalPendingToHome := s.globalPendingToHome - UInt64.ofNat moved.pendingToHome.length
    globalPendingToLocal := s.globalPendingToLocal - UInt64.ofNat moved.pendingToLocal.length }

/-! ### Notes -/

/-- What the client puts on the channel. -/
inductive Outgoing where
  | hello (capabilities : UInt32)
  /-- A chunk of what the local peer sent. -/
  | chunk (streamId : UInt32) (bytes : Bytes)
  /-- A data frame that refuses the stream. -/
  | alert (streamId : UInt32) (bytes : Bytes)
  | close (streamId : UInt32) (reason : CloseReason)
  | ping (nonce : UInt64)
  | pong (nonce : UInt64)
  | goAway (reason : GoAwayReason) (seconds : UInt16)
  | credit (streamId bytes : UInt32)
  | pushSealed (payload : Bytes)
  deriving DecidableEq

/-- The encoded frame. -/
def Outgoing.frame : Outgoing → Bytes
  | .hello capabilities => encodeHello capabilities
  | .chunk streamId bytes => encodeData streamId bytes
  | .alert streamId bytes => encodeData streamId bytes
  | .close streamId reason => encodeClose streamId reason
  | .ping nonce => encodePing nonce
  | .pong nonce => encodePong nonce
  | .goAway reason seconds => encodeGoAway reason seconds
  | .credit streamId bytes => encodeCredit streamId bytes
  | .pushSealed payload => encodeFrame ⟨.pushSealed, 0, payload⟩

/-- What the claims are about: what is read, sent, delivered and closed. -/
inductive Note where
  | opened (streamId : UInt32)
  | read (streamId : UInt32) (bytes : Bytes)
  | sent (outgoing : Outgoing)
  | closed (streamId : UInt32) (reason : CloseReason) (localEof : Bool) (pendingToHome : Bytes)
  /-- The channel calls `onDrained`, inside the send of a frame or in an event of its own. -/
  | drained (during : Option Outgoing)
  | pushIntent (payload : Bytes)
  | pushResult (payload : Bytes)
  | wireError (error : WireError)
  deriving DecidableEq

/-- The programs of the client. -/
abbrev LinkProg := Prog (Host UInt32 LinkState) Note

/-- The host of the link: its local peers and its state. -/
abbrev LinkHost := Host UInt32 LinkState

/-! ### Access -/

open Prog

/-- Change the client's own state. -/
def modifyNode (f : LinkState → LinkState) : LinkProg Unit :=
  modify fun s => { s with node := f s.node }

/-- The state of the link. -/
def getNode : LinkProg LinkState := do
  return (← get).node

/-- The channel is changed, if there is one. -/
def modifyChannel (f : TlsChannel → TlsChannel) : LinkProg Unit :=
  modifyNode fun s => { s with channel := s.channel.map f }

/-- Change a stream through its pointer. -/
def modifyStream (streamId : UInt32) (f : Stream → Stream) : LinkProg Unit :=
  modifyNode fun s => { s with streams := s.streams.adjust streamId f }

/-- The stream of an id. -/
def findStream (streamId : UInt32) : LinkProg (Option Stream) := do
  return (← getNode).streams.lookup streamId

namespace LinkHost

/-- The host with another state of its client. -/
def withNode (s : LinkHost) (node : LinkState) : LinkHost := { s with node := node }

/-- The host with another state of its channel. -/
def withChannel (s : LinkHost) (channel : TlsChannel) : LinkHost :=
  s.withNode { s.node with channel := some channel }

end LinkHost

section Wp

variable {ok : Note → Prop} {h : List Note} {s : LinkHost} {streamId : UInt32}

@[simp] theorem wp_modifyNode {f : LinkState → LinkState} {Q : Unit → List Note → LinkHost → Prop} :
    wp ok (modifyNode f) Q h s ↔ Q () h (s.withNode (f s.node)) :=
  wp_modify

@[simp] theorem wp_getNode {Q : LinkState → List Note → LinkHost → Prop} :
    wp ok getNode Q h s ↔ Q s.node h s := by
  simp only [getNode, wp_bind, wp_get, wp_pure]

@[simp] theorem wp_findStream {Q : Option Stream → List Note → LinkHost → Prop} :
    wp ok (findStream streamId) Q h s ↔ Q (s.node.streams.lookup streamId) h s := by
  simp only [findStream, wp_bind, wp_getNode, wp_pure]

@[simp] theorem wp_modifyStream {f : Stream → Stream} {Q : Unit → List Note → LinkHost → Prop} :
    wp ok (modifyStream streamId f) Q h s ↔
      Q () h (s.withNode { s.node with streams := s.node.streams.adjust streamId f }) :=
  wp_modifyNode

theorem wp_modifyChannel {f : TlsChannel → TlsChannel} {Q : Unit → List Note → LinkHost → Prop}
    {channel : TlsChannel} (hchannel : s.node.channel = some channel) :
    wp ok (modifyChannel f) Q h s ↔ Q () h (s.withChannel (f channel)) := by
  rw [modifyChannel, wp_modifyNode, hchannel]
  rfl

@[simp] theorem yields_modifyNode {f : LinkState → LinkState}
    {Q : Unit → List Note → LinkHost → Prop} :
    yields (modifyNode f) Q h s ↔ Q () h (s.withNode (f s.node)) :=
  yields_modify

@[simp] theorem yields_getNode {Q : LinkState → List Note → LinkHost → Prop} :
    yields getNode Q h s ↔ Q s.node h s := by
  simp only [getNode, yields_bind, yields_get, yields_pure]

@[simp] theorem yields_findStream {Q : Option Stream → List Note → LinkHost → Prop} :
    yields (findStream streamId) Q h s ↔ Q (s.node.streams.lookup streamId) h s := by
  simp only [findStream, yields_bind, yields_getNode, yields_pure]

@[simp] theorem yields_modifyStream {f : Stream → Stream} {Q : Unit → List Note → LinkHost → Prop} :
    yields (modifyStream streamId f) Q h s ↔
      Q () h (s.withNode { s.node with streams := s.node.streams.adjust streamId f }) :=
  yields_modifyNode

theorem yields_modifyChannel {f : TlsChannel → TlsChannel} {Q : Unit → List Note → LinkHost → Prop}
    {channel : TlsChannel} (hchannel : s.node.channel = some channel) :
    yields (modifyChannel f) Q h s ↔ Q () h (s.withChannel (f channel)) := by
  rw [modifyChannel, yields_modifyNode, hchannel]
  rfl

end Wp

end Link

end ArgusBackend
