import ArgusBackend.Link.TlsChannel

/-!
# The link client

The functions of `LinkClient`, as callback programs.  Where the source calls into the channel or a
peer, that call can come back to the client before it returns; the entry points it comes back to
are the fields of `Kernel`, and `kernel n` lets them nest `n` deep.

* `flushToHome`, `flushToLocal` move the waiting bytes of a stream in the two directions;
* `closeLocal`, `closeLink` end a stream and the link;
* `dispatchFrame` handles a frame of the node;
* `perform` is what the loop does for one event, `LinkStep` a step of the client.
-/

namespace ArgusBackend

namespace Link

open Net Prog

/-- Where the client can be entered while one of its own functions runs. -/
structure Kernel where
  /-- How often its loops may run. -/
  fuel : ℕ
  /-- `onDrained` and `onClosed` of the channel. -/
  channelDrained : LinkProg Unit
  channelClosed : LinkProg Unit
  /-- `onDrained` and `onClosed` of the local peer of a stream. -/
  localDrained : UInt32 → ℕ → LinkProg Unit
  localClosed : UInt32 → ℕ → LinkProg Unit
  pumpFrames : LinkProg Unit

section Functions

variable (options : LinkOptions) (k : Kernel)

/-- The callbacks a send on the channel can reach. -/
def channelHooks : ChannelHooks where
  onDrained := k.channelDrained
  onClosed := k.channelClosed

/-- The callbacks a send on a local peer can reach; a cleared callback does nothing. -/
def localHooks : PeerHooks UInt32 LinkState Note where
  onConnected _ _ := pure ()
  onRead _ _ _ := pure ()
  onEof _ _ := pure ()
  onDrained callbacks p :=
    match callbacks with
    | none => pure ()
    | some streamId => k.localDrained streamId p
  onClosed callbacks p :=
    match callbacks with
    | none => pure ()
    | some streamId => k.localClosed streamId p

/-- A frame goes out on the channel, if there is one. -/
def sendFrameToNode (outgoing : Outgoing) : LinkProg Unit :=
  TlsChannel.send (channelHooks k) outgoing

/-! ### Reading paused and resumed -/

/-- Pause or resume reading from a local peer. -/
def setLocalReadPaused (p : ℕ) (paused : Bool) : LinkProg Unit :=
  modifyPeer p fun peer => peer.setReadPaused paused

/-- What `pauseAllLocalReads` does to a stream. -/
def pauseRead (stream : Stream) : Stream :=
  if stream.localPeer.isSome then { stream with localReadPaused := true } else stream

/-- No local peer is read any more. -/
def pauseAllLocalReads : LinkProg Unit := do
  let s ← getNode
  each (fun entry =>
    match entry.2.localPeer with
    | some p => when (¬ entry.2.localReadPaused) (setLocalReadPaused p true)
    | none => pure ()) s.streams.entries
  modifyNode fun s => { s with streams := s.streams.mapEntries pauseRead }

/-- Whether `resumeLocalReads` resumes the stream. -/
def resumable (stream : Stream) : Bool :=
  stream.localPeer.isSome && stream.localReadPaused && stream.pendingToHome.isEmpty

/-- What `resumeLocalReads` does to a stream. -/
def resumeRead (stream : Stream) : Stream :=
  if resumable stream then { stream with localReadPaused := false } else stream

/-- The local peers are read again once enough has drained. -/
def resumeLocalReads : LinkProg Unit := do
  let s ← getNode
  if options.limits.globalPendingCap / 2 < s.globalPendingToHome.toNat then return
  each (fun entry =>
    match entry.2.localPeer with
    | some p => when (resumable entry.2) (setLocalReadPaused p false)
    | none => pure ()) s.streams.entries
  modifyNode fun s => { s with streams := s.streams.mapEntries resumeRead }

/-- The channel is read again once enough has been taken locally. -/
def resumeLinkRead : LinkProg Unit := do
  let s ← getNode
  if ¬ s.linkReadPaused ∨ s.channel.isNone then return
  when (s.globalPendingToLocal.toNat ≤ options.limits.linkHighWater / 2) do
    modifyNode fun s => { s with linkReadPaused := false }
    modifyChannel fun channel => channel.setReadPaused false
    k.pumpFrames

/-! ### Closing -/

/-- A local peer is let go: at once after an error, else when it has taken what is pending. -/
def releaseLocal (p : ℕ) (pendingToLocal : Bytes) (reason : CloseReason) : LinkProg Unit := do
  modifyPeer p fun peer => peer.setCallbacks none
  let peer ← getPeer p
  if reason ≠ .normal ∨ peer.closed then TcpPeer.close (localHooks k) p
  else
    when (pendingToLocal ≠ []) (TcpPeer.send (localHooks k) p pendingToLocal)
    TcpPeer.closeOnceFlushed (localHooks k) p
    let peer ← getPeer p
    when (¬ peer.closed) do
      modifyNode fun s => { s with
        drainingPeers := s.drainingPeers ++ [⟨p, s.now + kDrainGrace⟩] }

/-- The rest of `closeLocal`, when the stream is out of the table. -/
def announceClosed (streamId : UInt32) (reason : CloseReason) (moved : Stream) :
    LinkProg Unit := do
  let s ← getNode
  when (s.helloReceived ∧ ¬ moved.closedByNode) (sendFrameToNode k (.close streamId reason))
  match moved.localPeer with
  | none => pure ()
  | some p => releaseLocal k p moved.pendingToLocal reason
  resumeLinkRead options k

/-- A stream ends on this side. -/
def closeLocal (streamId : UInt32) (reason : CloseReason) : LinkProg Unit := do
  match ← findStream streamId with
  | none => return
  | some moved =>
    modifyNode fun s => s.removeStream streamId moved
    note (.closed streamId reason moved.localEof moved.pendingToHome)
    announceClosed options k streamId reason moved

/-- `closeStream` looks the stream up and closes it. -/
def closeStream (streamId : UInt32) (reason : CloseReason) : LinkProg Unit :=
  closeLocal options k streamId reason

/-- The body of the loop of `teardownStreams`. -/
def teardownOnce : LinkProg Bool := do
  let s ← getNode
  match (options.order.walk s.streams.keys).head? with
  | none => return false
  | some streamId =>
    closeLocal options k streamId .error
    return true

/-- Every stream ends on this side, and nothing is pending any more. -/
def teardownStreams : LinkProg Unit := do
  loop k.fuel (teardownOnce options k)
  modifyNode fun s => { s with globalPendingToHome := 0, globalPendingToLocal := 0 }

/-- A dial is due, unless one is due already. -/
def scheduleReconnect : LinkProg Unit :=
  modifyNode fun s =>
    if s.stopped ∨ s.reconnectPending then s
    else { s with reconnectPending := true, reconnectWithoutBackoff := false }

/-- The channel is moved out and closed; its callbacks are cleared first, so closing calls
nothing. -/
def closeLink : LinkProg Unit := do
  let s ← getNode
  if s.channel.isNone then return
  modifyNode fun s => { s with channel := none }
  modifyNode fun s => { s with parser := {} }
  teardownStreams options k
  modifyNode fun s => { s with
    helloReceived := false
    connected := false
    draining := false
    activeKeepalive := false
    awaitingPong := false
    linkReadPaused := false
    negotiatedCredit := false
    remoteCapabilities := 0 }
  scheduleReconnect

/-- `refuseLink`, `protocolRefusal` and a push nobody asked for: a go-away, then the end. -/
def goAwayAndClose : LinkProg Unit := do
  sendFrameToNode k (.goAway .protocolError 0)
  closeLink options k

/-- The node broke the protocol: the error is noted and the link closed. -/
def refuseLink (error : WireError) : LinkProg Unit := do
  note (.wireError error)
  goAwayAndClose options k

/-- The link is closed over a frame that may not come. -/
def protocolRefusal : LinkProg Unit := goAwayAndClose options k

/-! ### Bytes to the home's local peers -/

/-- What was written to the local peer is granted to the node again. -/
def grantConsumedCredit (streamId : UInt32) (consumedBytes : ℕ) : LinkProg Unit := do
  match ← findStream streamId with
  | none => return
  | some stream =>
    let window := stream.receiveWindow.markConsumed consumedBytes
    let (granted, window) := window.takePendingGrant
    modifyStream streamId fun stream => { stream with receiveWindow := window }
    when (0 < granted) (sendFrameToNode k (.credit streamId granted))

/-- The body of the loop of `flushToLocal`; the buffer is moved out before the send. -/
def flushToLocalOnce (streamId : UInt32) : LinkProg Bool := do
  match ← findStream streamId with
  | none => return false
  | some stream =>
    match stream.localPeer with
    | none => return false
    | some p =>
      let peer ← getPeer p
      if peer.closed then return false
      else if stream.pendingToLocal = [] then
        resumeLinkRead options k
        return false
      else if peer.congested then return false
      else
        let size := stream.pendingToLocal.length
        modifyStream streamId fun stream => { stream with pendingToLocal := [] }
        TcpPeer.send (localHooks k) p stream.pendingToLocal
        match ← findStream streamId with
        | none => return false
        | some _ =>
          modifyStream streamId fun stream => { stream with pendingToLocal := [] }
          modifyNode fun s => { s with
            globalPendingToLocal := s.globalPendingToLocal - UInt64.ofNat size }
          grantConsumedCredit k streamId size
          return true

/-- What the node has sent goes to the local peer, as far as it takes it. -/
def flushToLocal (streamId : UInt32) : LinkProg Unit :=
  loop k.fuel (flushToLocalOnce options k streamId)

/-! ### Bytes to the node -/

/-- Resume the read of a stream that has nothing left to send. -/
def resumeLocalRead (streamId : UInt32) (p : ℕ) : LinkProg Unit := do
  modifyStream streamId fun stream => { stream with localReadPaused := false }
  setLocalReadPaused p false

/-- `flushToHome` at a stream with nothing left to send. -/
def finishFlush (streamId : UInt32) (stream : Stream) : LinkProg Unit := do
  if stream.localEof then
    closeStream options k streamId .normal
    resumeLocalReads options
  else
    let s ← getNode
    match stream.localPeer with
    | none => pure ()
    | some p =>
      when (stream.localReadPaused ∧
          s.globalPendingToHome.toNat < options.limits.globalPendingCap / 2)
        (resumeLocalRead streamId p)
    resumeLocalReads options

/-- The body of the loop of `flushToHome`; the chunk is erased when the send has returned. -/
def flushToHomeOnce (streamId : UInt32) : LinkProg Bool := do
  match ← findStream streamId, ← TlsChannel.getOpen with
  | some stream, some channel =>
    if stream.pendingToHome = [] then
      finishFlush options k streamId stream
      return false
    else if channel.congested then return false
    else
      match stream.sendWindow.nextChunk stream.pendingToHome.length with
      | none => return false
      | some chunk =>
        sendFrameToNode k (.chunk streamId (stream.pendingToHome.take chunk))
        match ← findStream streamId with
        | none => return false
        | some _ =>
          modifyStream streamId fun stream => { stream with
            sendWindow := stream.sendWindow.recordUsed chunk
            pendingToHome := stream.pendingToHome.drop chunk }
          modifyNode fun s => { s with
            globalPendingToHome := s.globalPendingToHome - UInt64.ofNat chunk }
          return true
  | _, _ => return false

/-- What the local peer has sent goes to the node, as far as there is credit. -/
def flushToHome (streamId : UInt32) : LinkProg Unit :=
  loop k.fuel (flushToHomeOnce options k streamId)

/-- The local peer has ended its half of a stream. -/
def handleLocalEof (streamId : UInt32) : LinkProg Unit := do
  match ← findStream streamId with
  | none => return
  | some stream =>
    modifyStream streamId fun stream => { stream with localEof := true }
    when (stream.pendingToHome = []) (closeStream options k streamId .normal)

/-- `writeToStream` once the link is known to be up. -/
def holdForHome (streamId : UInt32) (data : Bytes) : LinkProg Unit := do
  modifyNode fun s => { s with
    streams := s.streams.adjust streamId fun stream => { stream with
      lastActivity := s.now
      pendingToHome := stream.pendingToHome ++ data }
    globalPendingToHome := s.globalPendingToHome + UInt64.ofNat data.length }
  match ← findStream streamId with
  | none => return
  | some stream =>
    match stream.localPeer with
    | none => pure ()
    | some p =>
      when (options.limits.streamPendingCap ≤ stream.pendingToHome.length ∧
          ¬ stream.localReadPaused) do
        modifyStream streamId fun stream => { stream with localReadPaused := true }
        setLocalReadPaused p true
    let s ← getNode
    when (options.limits.globalPendingCap ≤ s.globalPendingToHome.toNat) pauseAllLocalReads

/-- Bytes of the local peer are sent, or wait for credit. -/
def writeToStream (streamId : UInt32) (data : Bytes) : LinkProg Unit := do
  match ← findStream streamId with
  | none => return
  | some _ =>
    if data = [] then return
    let s ← getNode
    match s.helloReceived, ← TlsChannel.getOpen with
    | true, some _ =>
      holdForHome options streamId data
      flushToHome options k streamId
    | _, _ => closeStream options k streamId .error

/-! ### Opening -/

/-- Connect a stream to a listener of the home. -/
def dialListener (streamId : UInt32) : LinkProg Unit := do
  match ← TcpPeer.connect streamId with
  | some p => modifyStream streamId fun stream => { stream with localPeer := some p }
  | none =>
    sendFrameToNode k (.close streamId .busy)
    modifyNode fun s => { s with streams := s.streams.erase streamId }

/-- The node opens a stream, unless there are too many. -/
def openStream (streamId : UInt32) : LinkProg Unit := do
  let s ← getNode
  if options.limits.maxStreams ≤ s.streams.entries.length then
    sendFrameToNode k (.close streamId .busy)
  else
    let window :=
      CreditWindow.ofParams s.negotiatedCredit kInitialStreamCredit kCreditGrantThreshold
    modifyNode fun s => { s with
      streams := s.streams.insert streamId {
        lastActivity := s.now
        sendWindow := window
        receiveWindow := window
        routed := !options.hasServiceListeners } }
    note (.opened streamId)
    when (¬ options.hasServiceListeners) (dialListener k streamId)

/-- A stream that no service takes gets an alert. -/
def refuseStream (streamId : UInt32) : LinkProg Unit := do
  sendFrameToNode k (.alert streamId (tlsAlertRecord kUnrecognizedNameAlert))
  closeStream options k streamId .normal

/-- `handleData` and `routeStream` once the local peer takes the bytes at once. -/
def deliverNow (streamId : UInt32) (p : ℕ) (bytes : Bytes) : LinkProg Unit := do
  TcpPeer.send (localHooks k) p bytes
  grantConsumedCredit k streamId bytes.length

/-- A stream gets its local peer, once its hello says where it goes. -/
def routeStream (streamId : UInt32) : LinkProg Unit := do
  match ← findStream streamId with
  | none => return
  | some stream =>
    if stream.routed then return
    match options.route stream.clientHello with
    | .needMore =>
      when (kClientHelloMaxBytes < stream.clientHello.length) (refuseStream options k streamId)
    | .refused => refuseStream options k streamId
    | .listener _ =>
      modifyStream streamId fun stream => { stream with routed := true, clientHello := [] }
      dialListener k streamId
      match ← findStream streamId with
      | none => return
      | some routed =>
        match routed.localPeer with
        | none => return
        | some p => deliverNow k streamId p stream.clientHello

/-! ### Frames of the node -/

/-- `HELLO`, which may come once. -/
def handleHello (frame : Frame) : LinkProg Unit := do
  let s ← getNode
  if s.helloReceived then refuseLink options k .duplicateHello
  else
    let remote := (decodeHello frame).capabilities &&& capability.kKnown
    modifyNode fun s => { s with
      remoteCapabilities := remote
      negotiatedCredit := remote &&& capability.kStreamCredit ≠ 0 ∧
        options.localCapabilities &&& capability.kStreamCredit ≠ 0
      helloReceived := true
      connected := true }

/-- `OPEN` -/
def handleOpen (frame : Frame) : LinkProg Unit := do
  if frame.streamId = 0 then return
  match ← findStream frame.streamId with
  | some _ => return
  | none => openStream options k frame.streamId

/-- The bytes of a data frame that its local peer does not take now. -/
def holdForLocal (streamId : UInt32) (stream : Stream) (payload : Bytes) : LinkProg Unit := do
  if 2 * options.limits.streamPendingCap < stream.pendingToLocal.length + payload.length then
    closeStream options k streamId .backpressure
  else
    modifyNode fun s => { s with
      streams := s.streams.adjust streamId fun stream => { stream with
        pendingToLocal := stream.pendingToLocal ++ payload }
      globalPendingToLocal := s.globalPendingToLocal + UInt64.ofNat payload.length }
    let s ← getNode
    when (options.limits.linkHighWater ≤ s.globalPendingToLocal.toNat ∧ ¬ s.linkReadPaused ∧
        s.channel.isSome) do
      modifyNode fun s => { s with linkReadPaused := true }
      modifyChannel fun channel => channel.setReadPaused true

/-- `DATA` -/
def handleData (frame : Frame) : LinkProg Unit := do
  match ← findStream frame.streamId with
  | none => return
  | some stream =>
    let size := frame.payload.length
    modifyNode fun s => { s with
      streams := s.streams.adjust frame.streamId fun stream => { stream with
        lastActivity := s.now } }
    if ¬ stream.receiveWindow.covers size then
      note (.wireError .overCredit)
      closeStream options k frame.streamId .backpressure
    else
      modifyStream frame.streamId fun stream => { stream with
        receiveWindow := stream.receiveWindow.recordUsed size }
      if ¬ stream.routed then
        modifyStream frame.streamId fun stream => { stream with
          clientHello := stream.clientHello ++ frame.payload }
        routeStream options k frame.streamId
      else
        match stream.localPeer with
        | none => holdForLocal options k frame.streamId stream frame.payload
        | some p =>
          let peer ← getPeer p
          if stream.pendingToLocal ≠ [] ∨ peer.congested then
            holdForLocal options k frame.streamId stream frame.payload
          else deliverNow k frame.streamId p frame.payload

/-- `CLOSE` -/
def handleClose (frame : Frame) : LinkProg Unit := do
  modifyStream frame.streamId fun stream => { stream with closedByNode := true }
  closeLocal options k frame.streamId (decodeCloseReason frame)

/-- `PING` -/
def handlePing (frame : Frame) : LinkProg Unit := sendFrameToNode k (.pong (decodeNonce frame))

/-- `PONG` -/
def handlePong (frame : Frame) : LinkProg Unit :=
  modifyNode fun s =>
    if decodeNonce frame = s.pingNonce then { s with awaitingPong := false } else s

/-- Both ends offered the capability. -/
def negotiated (s : LinkState) (bit : UInt32) : Bool :=
  s.remoteCapabilities &&& bit ≠ 0 ∧ options.localCapabilities &&& bit ≠ 0

/-- `PUSH` -/
def handlePush (frame : Frame) : LinkProg Unit := do
  let s ← getNode
  if ¬ negotiated options s capability.kPushIntents then goAwayAndClose options k
  else note (.pushIntent frame.payload)

/-- A sealed push can be sent. -/
def sealedPushReady (s : LinkState) : Bool :=
  s.connected && s.channel.any (fun channel => !channel.closed) &&
    negotiated options s capability.kSealedPush

/-- `payload` is what `push_envelope::sealedPayload` made of the envelope. -/
def sendSealedPush (payload : Option Bytes) : LinkProg Unit := do
  let s ← getNode
  match sealedPushReady options s, payload with
  | true, some payload => sendFrameToNode k (.pushSealed payload)
  | _, _ => return

/-- `PUSH_SEALED`, which only the node may get. -/
def handlePushSealed : LinkProg Unit := protocolRefusal options k

/-- `PUSH_RESULT` -/
def handlePushResult (frame : Frame) : LinkProg Unit := do
  let s ← getNode
  if ¬ negotiated options s capability.kSealedPush then protocolRefusal options k
  else if ¬ options.isResultPayload frame.payload then protocolRefusal options k
  else note (.pushResult frame.payload)

/-- `GOAWAY`: the node drains, and the next dial does not back off. -/
def handleGoAway : LinkProg Unit :=
  modifyNode fun s => { s with draining := true, reconnectWithoutBackoff := true }

/-- `CREDIT` -/
def handleCredit (frame : Frame) : LinkProg Unit := do
  match ← findStream frame.streamId with
  | none => return
  | some _ =>
    modifyStream frame.streamId fun stream => { stream with
      sendWindow := stream.sendWindow.grant (decodeCredit frame) }
    flushToHome options k frame.streamId

/-- What a frame does, after a check that the hello has come. -/
def dispatchFrame (frame : Frame) : LinkProg Unit := do
  modifyNode fun s => { s with lastFrameAt := s.now }
  let s ← getNode
  if frame.type ≠ .hello ∧ ¬ s.helloReceived then refuseLink options k .helloRequired
  else
    match frame.type with
    | .hello => handleHello options k frame
    | .open => handleOpen options k frame
    | .data => handleData options k frame
    | .close => handleClose options k frame
    | .ping => handlePing k frame
    | .pong => handlePong frame
    | .push => handlePush options k frame
    | .pushSealed => handlePushSealed options k
    | .pushResult => handlePushResult options k frame
    | .goAway => handleGoAway
    | .credit => handleCredit options k frame

/-- The body of the loop of `pumpFrames`. -/
def pumpFrame : LinkProg Bool := do
  let s ← getNode
  if s.parser.failed ∨ s.linkReadPaused then return false
  match s.parser.popFrame with
  | none => return false
  | some (frame, parser) =>
    modifyNode fun s => { s with parser := parser }
    dispatchFrame options k frame
    return true

/-- The frames that have come, one after another. -/
def pumpFrames : LinkProg Unit := loop k.fuel (pumpFrame options k)

/-- Bytes of the node are parsed and their frames handled. -/
def handleLinkRead (data : Bytes) : LinkProg Unit := do
  modifyNode fun s => { s with parser := s.parser.feed data }
  let s ← getNode
  if s.parser.failed then refuseLink options k s.parser.error
  else pumpFrames options k

/-! ### Callbacks -/

/-- The channel is up: the session starts anew, with a hello. -/
def onChannelConnected : LinkProg Unit := do
  modifyNode fun s => { s with
    attachedAt := s.now
    lastFrameAt := s.now
    lastPingAt := s.now
    helloReceived := false
    parser := {} }
  sendFrameToNode k (.hello options.localCapabilities)

/-- The channel takes bytes again, and so do the streams and the reads that wait for it. -/
def onChannelDrained : LinkProg Unit := do
  let s ← getNode
  each (flushToHome options k) (options.order.walk s.streams.keys)
  resumeLocalReads options
  resumeLinkRead options k

/-- The stream a local peer still serves; its other callbacks name the stream only. -/
def findServed (streamId : UInt32) (p : ℕ) : LinkProg (Option Stream) := do
  match ← findStream streamId with
  | none => return none
  | some stream => return if stream.localPeer = some p then some stream else none

/-- A local peer takes bytes again. -/
def onLocalDrained (streamId : UInt32) (p : ℕ) : LinkProg Unit := do
  match ← findServed streamId p with
  | none => return
  | some _ => flushToLocal options k streamId

/-- A local peer is closed, and its stream with it. -/
def onLocalClosed (streamId : UInt32) (p : ℕ) : LinkProg Unit := do
  match ← findServed streamId p with
  | none => return
  | some stream =>
    closeStream options k streamId (if stream.localAttached then .error else .busy)

/-- Bytes of a local peer. -/
def onLocalRead (streamId : UInt32) (data : Bytes) : LinkProg Unit := do
  match ← findStream streamId with
  | none => return
  | some _ =>
    note (.read streamId data)
    writeToStream options k streamId data

end Functions

/-- The entry points when calls may nest `n` deep. -/
def kernel (options : LinkOptions) : ℕ → Kernel
  | 0 =>
    { fuel := 0
      channelDrained := stuck
      channelClosed := stuck
      localDrained := fun _ _ => stuck
      localClosed := fun _ _ => stuck
      pumpFrames := stuck }
  | n + 1 =>
    { fuel := n + 1
      channelDrained := onChannelDrained options (kernel options n)
      channelClosed := closeLink options (kernel options n)
      localDrained := onLocalDrained options (kernel options n)
      localClosed := onLocalClosed options (kernel options n)
      pumpFrames := pumpFrames options (kernel options n) }

/-! ### Events -/

/-- What happens to the client, and at what moment. -/
inductive Event where
  /-- The node's address was resolved, and the dial succeeds or not. -/
  | openChannel (dialled : Bool)
  | channel (events : ChannelEvents)
  | localPeer (p : ℕ) (events : PollEvents)
  /-- The sweep timer, with the nonce of a ping it may send. -/
  | sweep (nonce : UInt64)
  | reconnect
  | sealedPush (payload : Option Bytes)
  /-- Another thread asks the client to stop. -/
  | stop
  /-- The task that `stop` posted. -/
  | shutdown
  deriving DecidableEq

section Events

variable (options : LinkOptions) (k : Kernel)

/-- What the client does with the events of its channel. -/
def channelEventHooks : ChannelHooks where
  onConnected := onChannelConnected options k
  onRead := handleLinkRead options k
  onEof := closeLink options k
  onDrained := onChannelDrained options k
  onClosed := closeLink options k

/-- All callbacks of a local peer, for an event of it. -/
def localEventHooks : PeerHooks UInt32 LinkState Note where
  onConnected callbacks _ :=
    match callbacks with
    | none => pure ()
    | some streamId => modifyStream streamId fun stream => { stream with localAttached := true }
  onRead callbacks _ data :=
    match callbacks with
    | none => pure ()
    | some streamId => onLocalRead options k streamId data
  onEof callbacks _ :=
    match callbacks with
    | none => pure ()
    | some streamId => handleLocalEof options k streamId
  onDrained callbacks p :=
    match callbacks with
    | none => pure ()
    | some streamId => onLocalDrained options k streamId p
  onClosed callbacks p :=
    match callbacks with
    | none => pure ()
    | some streamId => onLocalClosed options k streamId p

/-- The dial after the node's address was resolved. -/
def openChannel (dialled : Bool) : LinkProg Unit := do
  let s ← getNode
  if s.stopped ∨ s.channel.isSome then return
  if dialled then modifyNode fun s => { s with channel := some {} }
  else scheduleReconnect

/-- A ping, or the end of a link that did not answer the last one. -/
def keepaliveTick (nonce : UInt64) : LinkProg Unit := do
  let s ← getNode
  if s.awaitingPong ∧ s.lastPingAt + options.keepalivePongTimeout < s.now then
    closeLink options k
  else
    let active := !s.streams.keys.isEmpty
    modifyNode fun s => { s with activeKeepalive := active }
    let interval := if active then options.keepaliveActive else options.keepaliveIdle
    if s.now < s.lastPingAt + interval then return
    modifyNode fun s => { s with pingNonce := nonce, awaitingPong := true, lastPingAt := s.now }
    sendFrameToNode k (.ping nonce)

/-- The draining peers that are kept; those past their deadline are closed. -/
def sweepDraining : List DrainingPeer → LinkProg (List DrainingPeer)
  | [] => pure []
  | draining :: rest => do
    let peer ← getPeer draining.peer
    let s ← getNode
    if peer.closed then sweepDraining rest
    else if s.now < draining.deadline then
      let kept ← sweepDraining rest
      return draining :: kept
    else
      TcpPeer.close (localHooks k) draining.peer
      sweepDraining rest

/-- The link's own timeouts. -/
def sweepLink (nonce : UInt64) : LinkProg Unit := do
  let s ← getNode
  if s.channel.isSome ∧ ¬ s.connected ∧ s.attachedAt + options.helloTimeout < s.now then
    closeLink options k
  else if s.channel.isSome ∧ s.connected ∧ s.lastFrameAt + options.deadLinkTimeout < s.now then
    closeLink options k
  else when (s.channel.isSome ∧ s.connected) (keepaliveTick options k nonce)

/-- The timer: the link and the streams that are idle for too long. -/
def sweep (nonce : UInt64) : LinkProg Unit := do
  sweepLink options k nonce
  let s ← getNode
  let idle := (options.order.walk s.streams.keys).filter fun streamId =>
    (s.streams.lookup streamId).any fun stream =>
      stream.lastActivity + options.limits.streamIdleTimeout < s.now
  each (fun streamId => closeStream options k streamId .idleTimeout) idle
  let s ← getNode
  let kept ← sweepDraining k s.drainingPeers
  modifyNode fun s => { s with drainingPeers := kept }

/-- A client that was stopped closes its link. -/
def shutdown : LinkProg Unit := do
  let s ← getNode
  when s.stopped (closeLink options k)

/-- What an event does. -/
def perform : Event → LinkProg Unit
  | .openChannel dialled => openChannel dialled
  | .channel events => TlsChannel.dispatch (channelEventHooks options k) events
  | .localPeer p events => TcpPeer.handleEvents (localEventHooks options k) p events
  | .sweep nonce => do
    let s ← getNode
    if s.stopped then return
    sweep options k nonce
  | .reconnect => modifyNode fun s => { s with reconnectPending := false }
  | .sealedPush payload => sendSealedPush options k payload
  | .stop => modifyNode fun s => { s with stopped := true }
  | .shutdown => shutdown options k

end Events

/-- An event, the time it comes at, and what the operating system answers while it is handled. -/
structure Stimulus where
  event : Event
  now : ℕ
  answers : List Answer
  dials : List Bool
  deriving DecidableEq

/-- The host as a stimulus finds it. -/
def Stimulus.arm (stimulus : Stimulus) (s : LinkHost) : LinkHost :=
  { s with
    answers := stimulus.answers
    dials := stimulus.dials
    node := { s.node with now := stimulus.now } }

/-- One event, handled with enough fuel. -/
def LinkStep (options : LinkOptions) (s : LinkHost) (notes : List Note) (s' : LinkHost) : Prop :=
  ∃ (fuel : ℕ) (stimulus : Stimulus), s.node.now ≤ stimulus.now ∧
    perform options (kernel options fuel) stimulus.event (stimulus.arm s) = some ((), s', notes)

/-- A client that has just started. -/
def initialHost : LinkHost where
  peers _ := {}
  nextPeer := 0
  answers := []
  dials := []
  node := {}

/-! ### Runs that exist -/

/-- The client after the stimuli, one after the other, and the notes it left. -/
def replay (options : LinkOptions) (fuel : ℕ) :
    List Stimulus → List Note → LinkHost → Option (List Note × LinkHost)
  | [], h, s => some (h, s)
  | stimulus :: rest, h, s =>
    if stimulus.now < s.node.now then none
    else
      match perform options (kernel options fuel) stimulus.event (stimulus.arm s) with
      | none => none
      | some ((), s', notes) => replay options fuel rest (h ++ notes) s'

/-- Some run reaches a state in `P`. -/
def CanReach (options : LinkOptions) (P : List Note → LinkHost → Prop) : Prop :=
  ∃ h s, Run (LinkStep options) initialHost h s ∧ P h s

section Reach

variable {options : LinkOptions} {P P' : List Note → LinkHost → Prop}

theorem CanReach.next (hreach : CanReach options P) (stimulus : Stimulus) (fuel : ℕ)
    (hstep : ∀ h s, P h s → s.node.now ≤ stimulus.now ∧
      yields (perform options (kernel options fuel) stimulus.event) (fun _ => P') h
        (stimulus.arm s)) : CanReach options P' := by
  obtain ⟨h, s, hrun, hP⟩ := hreach
  obtain ⟨hnow, ⟨⟩, s', notes, hperform, hP'⟩ := hstep h s hP
  exact ⟨h ++ notes, s', hrun.next ⟨fuel, stimulus, hnow, hperform⟩, hP'⟩

theorem run_of_replay {fuel : ℕ} {stimuli : List Stimulus} {h h' : List Note} {s s' : LinkHost}
    (hrun : Run (LinkStep options) initialHost h s)
    (hreplay : replay options fuel stimuli h s = some (h', s')) :
    Run (LinkStep options) initialHost h' s' := by
  induction stimuli generalizing h s with
  | nil =>
    obtain ⟨rfl, rfl⟩ : h = h' ∧ s = s' := by simpa [replay] using hreplay
    exact hrun
  | cons stimulus rest ih =>
    rw [replay] at hreplay
    split_ifs at hreplay with hnow
    rcases hperform : perform options (kernel options fuel) stimulus.event (stimulus.arm s) with
      _ | ⟨⟨⟩, s₁, notes⟩
    · rw [hperform] at hreplay
      cases hreplay
    · rw [hperform] at hreplay
      exact ih (hrun.next ⟨fuel, stimulus, Nat.not_lt.1 hnow, hperform⟩) hreplay

/-- A replay that meets a check reaches a state that meets it. -/
theorem canReach_of_replay (fuel : ℕ) (stimuli : List Stimulus)
    (check : List Note → LinkHost → Bool)
    (hcheck : (replay options fuel stimuli [] initialHost).any (fun r => check r.1 r.2) = true) :
    CanReach options fun h s => check h s = true := by
  obtain ⟨⟨h, s⟩, hreplay, hcheck⟩ := (Option.any_eq_true _ _).1 hcheck
  exact ⟨h, s, run_of_replay .start hreplay, hcheck⟩

end Reach

end Link

end ArgusBackend
