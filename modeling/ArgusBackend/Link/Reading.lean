import ArgusBackend.Link.Client

/-!
# A local read that goes out at once

What a read of a local peer does when nothing holds its bytes back: the channel has room, the
stream has the credit, no local read is paused.  The bytes are framed in one chunk, and nothing
waits afterwards.

* `Serves` : a stream of a client in this situation, `Fits` : bytes that go out at once;
* `Serves.flushToHome`, `Serves.onLocalRead`, `Serves.readable` : what becomes of them.
-/

namespace ArgusBackend

namespace Link

open Net Prog

variable {h : List Note} {s : LinkHost} {k : Kernel} {hooks : ChannelHooks} {channel : TlsChannel}
  {outgoing : Outgoing} {during : Option Outgoing} {Q : Unit → List Note → LinkHost → Prop}

/-! ### The channel -/

/-- What the system answers next. -/
def LinkHost.answer (s : LinkHost) : Answer := s.answers.headD ⟨0, false⟩

/-- The host once its channel wrote what the next answer takes. -/
def LinkHost.wrote (s : LinkHost) (channel : TlsChannel) : LinkHost :=
  LinkHost.withChannel { s with answers := s.answers.tail }
    { channel with sendBuffer := channel.sendBuffer.drop s.answer.written }

namespace TlsChannel

@[simp] theorem yields_getOpen {Q : Option TlsChannel → List Note → LinkHost → Prop} :
    yields getOpen Q h s ↔ Q (openOf s) h s := by
  rw [getOpen, yields_bind, yields_getNode]
  rcases hchannel : s.node.channel with _ | channel
  · simp [openOf, hchannel]
  · cases hclosed : channel.closed <;> simp [openOf, Option.filter, hchannel, hclosed]

theorem openOf_withChannel (hopen : channel.closed = false) :
    openOf (s.withChannel channel) = some channel :=
  openOf_eq_some.2 ⟨rfl, hopen⟩

theorem yields_write {Q : Bool → List Note → LinkHost → Prop}
    (hchannel : s.node.channel = some channel) (hbuffer : channel.sendBuffer ≠ [])
    (hanswer : s.answer.failed = false) :
    yields (write channel) Q h s ↔ Q false h (s.wrote channel) := by
  have hsome : ({ s with answers := s.answers.tail } : LinkHost).node.channel = some channel :=
    hchannel
  simp only [write, List.isEmpty_iff, hbuffer, if_false, nextAnswer, yields_bind, yields_get,
    yields_modify, yields_pure]
  rw [yields_modifyChannel hsome, ← LinkHost.answer, hanswer, Bool.false_and]
  rfl

/-- A flush that does not call `onDrained`. -/
theorem yields_flush (hopen : openOf s = some channel) (hready : channel.ready = true)
    (hbuffer : channel.sendBuffer ≠ []) (hanswer : s.answer.failed = false)
    (hleft : channel.congestedNotified = true → channel.sendBuffer.drop s.answer.written ≠ [])
    (hQ : Q () h (s.wrote channel)) : yields (flush hooks during) Q h s := by
  obtain ⟨hchannel, hclosed⟩ := openOf_eq_some.1 hopen
  have hopen' : openOf (s.wrote channel) =
      some { channel with sendBuffer := channel.sendBuffer.drop s.answer.written } :=
    openOf_withChannel hclosed
  rw [flush, yields_bind, yields_getOpen, hopen]
  simp only [hready, not_true, if_false, yields_bind]
  rw [yields_write hchannel hbuffer hanswer]
  simp only [Bool.false_eq_true, if_false, notifyDrained, yields_bind, yields_getOpen, hopen',
    yields_when, List.isEmpty_iff]
  exact ⟨fun hdrained => absurd hdrained.1 (hleft hdrained.2), fun _ => hQ⟩

/-- The channel once a frame was appended and `written` bytes of its buffer went out. -/
def sent (channel : TlsChannel) (frame : Bytes) (written : ℕ) : TlsChannel :=
  { channel with
    sendBuffer := (channel.sendBuffer ++ frame).drop written
    congestedNotified := channel.congestedNotified ||
      kSendLimit ≤ ((channel.sendBuffer ++ frame).drop written).length }

end TlsChannel

/-- A frame that is sent without a call back. -/
theorem yields_sendFrameToNode (hopen : TlsChannel.openOf s = some channel)
    (hready : channel.ready = true) (hanswer : s.answer.failed = false)
    (hframe : outgoing.frame ≠ [])
    (hleft : channel.congestedNotified = true →
      (channel.sent outgoing.frame s.answer.written).sendBuffer ≠ [])
    (hcap : (channel.sent outgoing.frame s.answer.written).sendBuffer.length < kSendHardCap)
    (hQ : Q () (h ++ [.sent outgoing]) (LinkHost.withChannel { s with answers := s.answers.tail }
      (channel.sent outgoing.frame s.answer.written))) :
    yields (sendFrameToNode k outgoing) Q h s := by
  obtain ⟨hchannel, hclosed⟩ := TlsChannel.openOf_eq_some.1 hopen
  rw [sendFrameToNode, TlsChannel.send, yields_bind, TlsChannel.yields_getOpen, hopen]
  simp only [yields_bind, yields_note]
  rw [yields_modifyChannel hchannel, yields_when]
  refine ⟨fun _ => ?_, fun hno => absurd hready hno⟩
  refine TlsChannel.yields_flush (TlsChannel.openOf_withChannel (by exact hclosed)) hready
    (by simp [hframe]) hanswer hleft ?_
  rw [TlsChannel.yields_getOpen, LinkHost.wrote, TlsChannel.openOf_withChannel (by exact hclosed)]
  dsimp only
  rw [if_neg (Nat.not_le.2 (by exact hcap)), yields_when]
  refine ⟨fun hcongested => ?_, fun hquiet => ?_⟩
  · have hlimit : kSendLimit ≤
        ((channel.sendBuffer ++ outgoing.frame).drop s.answer.written).length := hcongested.1
    rw [yields_modifyChannel rfl]
    rw [TlsChannel.sent, decide_eq_true hlimit, Bool.or_true] at hQ
    exact hQ
  · have hsame : (channel.congestedNotified || decide (kSendLimit ≤
        ((channel.sendBuffer ++ outgoing.frame).drop s.answer.written).length)) =
          channel.congestedNotified := by
      rcases hnotified : channel.congestedNotified with _ | _
      · exact decide_eq_false fun hlimit => hquiet ⟨hlimit, by simpa using hnotified⟩
      · rfl
    rw [TlsChannel.sent, hsame] at hQ
    exact hQ

/-- A frame that empties a buffer whose congestion was reported calls `onDrained`. -/
theorem yields_sendFrameToNode_drained (hopen : TlsChannel.openOf s = some channel)
    (hready : channel.ready = true) (hanswer : s.answer.failed = false)
    (hframe : outgoing.frame ≠ []) (hnotified : channel.congestedNotified = true)
    (hempty : (channel.sendBuffer ++ outgoing.frame).drop s.answer.written = [])
    (hdrained : yields k.channelDrained (fun _ h s => (∃ channel',
        TlsChannel.openOf s = some channel' ∧ channel'.sendBuffer.length < kSendLimit) ∧ Q () h s)
      (h ++ [.sent outgoing] ++ [.drained (some outgoing)])
      (LinkHost.withChannel { s with answers := s.answers.tail }
        { channel with sendBuffer := [], congestedNotified := false })) :
    yields (sendFrameToNode k outgoing) Q h s := by
  obtain ⟨hchannel, hclosed⟩ := TlsChannel.openOf_eq_some.1 hopen
  obtain ⟨buffer, connecting, ready, readPaused, notified, eofSeen, closed⟩ := channel
  obtain rfl : ready = true := hready
  obtain rfl : notified = true := hnotified
  obtain rfl : closed = false := hclosed
  -- the socket takes the whole buffer
  have hwrote : LinkHost.wrote
      (s.withChannel ⟨buffer ++ outgoing.frame, connecting, true, readPaused, true, eofSeen, false⟩)
        ⟨buffer ++ outgoing.frame, connecting, true, readPaused, true, eofSeen, false⟩ =
      LinkHost.withChannel { s with answers := s.answers.tail }
        ⟨[], connecting, true, readPaused, true, eofSeen, false⟩ := by
    rw [LinkHost.wrote, show (s.withChannel _).answer = s.answer from rfl, hempty]
    rfl
  rw [sendFrameToNode, TlsChannel.send, yields_bind, TlsChannel.yields_getOpen, hopen]
  simp only [yields_bind, yields_note]
  rw [yields_modifyChannel hchannel, yields_when]
  refine ⟨fun _ => ?_, fun hno => absurd rfl hno⟩
  rw [TlsChannel.flush, yields_bind, TlsChannel.yields_getOpen, TlsChannel.openOf_withChannel rfl]
  simp only [not_true, if_false, yields_bind]
  rw [TlsChannel.yields_write (s := s.withChannel _) rfl (by simp [hframe]) hanswer, hwrote]
  simp only [Bool.false_eq_true, if_false, TlsChannel.notifyDrained, yields_bind,
    TlsChannel.yields_getOpen]
  rw [TlsChannel.openOf_withChannel rfl]
  simp only [yields_when, List.isEmpty_nil, true_implies, yields_bind, yields_note, not_true,
    false_implies, and_true]
  rw [yields_modifyChannel rfl]
  -- the callback may have filled the buffer anew, but not up to the limit
  refine yields_mono hdrained ?_
  rintro _ h' s' ⟨⟨channel', hopen', hroom⟩, hQ⟩
  rw [hopen']
  dsimp only
  rw [if_neg (by simp only [kSendLimit, kSendHardCap] at hroom ⊢; omega), yields_when]
  exact ⟨fun hcongested => absurd hroom (Nat.not_lt.2 hcongested.1), fun _ => hQ⟩

/-! ### The stream -/

variable {options : LinkOptions} {streamId : UInt32} {stream : Stream} {data : Bytes}

/-- A stream of a client that holds nothing back: no local read is paused, and the stream goes on
and has nothing waiting. -/
structure Serves (streamId : UInt32) (stream : Stream) (channel : TlsChannel) (s : LinkHost) :
    Prop where
  found : s.node.streams.lookup streamId = some stream
  empty : stream.pendingToHome = []
  going : stream.localEof = false
  unpaused : ∀ id row, s.node.streams.lookup id = some row → row.localReadPaused = false
  opened : TlsChannel.openOf s = some channel
  ready : channel.ready = true
  hello : s.node.helloReceived = true

/-- Bytes that go out in one chunk, without a call back. -/
structure Fits (streamId : UInt32) (window : CreditWindow) (channel : TlsChannel) (s : LinkHost)
    (data : Bytes) : Prop where
  nonempty : data ≠ []
  chunk : window.nextChunk data.length = some data.length
  room : channel.congested = false
  answer : s.answer.failed = false
  left : channel.congestedNotified = true →
    (channel.sent (encodeData streamId data) s.answer.written).sendBuffer ≠ []
  cap : (channel.sent (encodeData streamId data) s.answer.written).sendBuffer.length < kSendHardCap

/-- Resuming reads changes nothing when none is paused. -/
theorem yields_resumeLocalReads
    (hunpaused : ∀ id row, s.node.streams.lookup id = some row → row.localReadPaused = false)
    (hQ : Q () h s) : yields (resumeLocalReads options) Q h s := by
  have hnone : ∀ entry ∈ s.node.streams.entries, resumable entry.2 = false := by
    rintro ⟨id, row⟩ hmem
    simp [resumable, hunpaused id row (AList.mem_lookup_iff.2 hmem)]
  have hsame : s.node.streams.mapEntries resumeRead = s.node.streams := by
    refine AList.ext ((List.map_congr_left fun entry hmem => ?_).trans (List.map_id _))
    rw [resumeRead, if_neg (by simp [hnone entry hmem])]
    rfl
  rw [resumeLocalReads, yields_bind, yields_getNode, yields_ite, yields_pure]
  refine ⟨fun _ => hQ, fun _ => yields_bind.2 ?_⟩
  refine yields_mono (yields_each (I := fun h' s' => h' = h ∧ s' = s) (fun entry hmem h' s' hI => ?_)
    ⟨rfl, rfl⟩) ?_
  · rcases entry.2.localPeer with _ | p
    · exact yields_pure.2 hI
    · exact yields_when.2 ⟨fun hres => absurd hres (by simp [hnone entry hmem]), fun _ => hI⟩
  · rintro _ _ _ ⟨rfl, rfl⟩
    rw [yields_modifyNode, hsame]
    exact hQ

/-- The host when a stream has sent its bytes. -/
def LinkHost.flushed (s : LinkHost) (streamId : UInt32) (channel : TlsChannel) (data : Bytes) :
    LinkHost :=
  { s with
    answers := s.answers.tail
    node := { s.node with
      channel := some (channel.sent (encodeData streamId data) s.answer.written)
      streams := s.node.streams.adjust streamId fun row => { row with
        sendWindow := row.sendWindow.recordUsed data.length
        pendingToHome := row.pendingToHome.drop data.length }
      globalPendingToHome := s.node.globalPendingToHome - UInt64.ofNat data.length } }

/-- The host when bytes of a local peer wait. -/
def LinkHost.holding (s : LinkHost) (streamId : UInt32) (data : Bytes) : LinkHost :=
  s.withNode { s.node with
    streams := s.node.streams.adjust streamId fun stream => { stream with
      lastActivity := s.node.now
      pendingToHome := stream.pendingToHome ++ data }
    globalPendingToHome := s.node.globalPendingToHome + UInt64.ofNat data.length }

/-- The stream when its bytes are sent. -/
def Stream.after (stream : Stream) (now : ℕ) (data : Bytes) : Stream :=
  { stream with lastActivity := now, sendWindow := stream.sendWindow.recordUsed data.length }

namespace Serves

theorem flushed (serves : Serves streamId stream channel s) (data : Bytes) :
    Serves streamId (stream.after s.node.now data)
      (channel.sent (encodeData streamId data) s.answer.written)
      ((s.holding streamId data).flushed streamId channel data) where
  found := by
    simp [LinkHost.flushed, LinkHost.holding, LinkHost.withNode, Table.lookup_adjust_self,
      serves.found, serves.empty, Stream.after]
  empty := serves.empty
  going := serves.going
  unpaused id row hrow := by
    have hholding : ∀ id row, (s.holding streamId data).node.streams.lookup id = some row →
        row.localReadPaused = false := by
      intro id row hrow
      rcases Table.lookup_adjust.1 hrow with ⟨rfl, before, hbefore, rfl⟩ | ⟨-, hbefore⟩
      · exact serves.unpaused _ before hbefore
      · exact serves.unpaused _ row hbefore
    rcases Table.lookup_adjust.1 hrow with ⟨rfl, before, hbefore, rfl⟩ | ⟨-, hbefore⟩
    · exact hholding _ before hbefore
    · exact hholding _ row hbefore
  opened := TlsChannel.openOf_eq_some.2 ⟨rfl, (TlsChannel.openOf_eq_some.1 serves.opened).2⟩
  ready := serves.ready
  hello := serves.hello

/-- Erasing a chunk from a stream that has nothing waiting. -/
theorem erased (serves : Serves streamId stream channel s) (chunk : ℕ) (node : LinkState)
    (hstreams : node.streams = s.node.streams.adjust streamId fun row => { row with
      sendWindow := row.sendWindow.recordUsed chunk
      pendingToHome := row.pendingToHome.drop chunk })
    (hchannel : node.channel = s.node.channel)
    (hhello : node.helloReceived = s.node.helloReceived) :
    ∃ row, Serves streamId row channel (s.withNode node) := by
  have hopened := TlsChannel.openOf_eq_some.1 serves.opened
  refine ⟨{ stream with
    sendWindow := stream.sendWindow.recordUsed chunk
    pendingToHome := stream.pendingToHome.drop chunk }, ?_, ?_, serves.going, ?_,
    TlsChannel.openOf_eq_some.2 ⟨hchannel.trans hopened.1, hopened.2⟩, serves.ready,
    hhello.trans serves.hello⟩
  · change node.streams.lookup streamId = _
    rw [hstreams, Table.lookup_adjust_self, serves.found, Option.map_some]
  · rw [serves.empty, List.drop_nil]
  · intro id row hrow
    change node.streams.lookup id = some row at hrow
    rw [hstreams] at hrow
    rcases Table.lookup_adjust.1 hrow with ⟨rfl, before, hbefore, rfl⟩ | ⟨-, hbefore⟩
    · exact serves.unpaused _ before hbefore
    · exact serves.unpaused _ row hbefore

/-- With nothing waiting, a flush is done. -/
theorem flushDone {n : ℕ} (serves : Serves streamId stream channel s) (hQ : Q () h s) :
    yields (loop (n + 1) (flushToHomeOnce options k streamId)) Q h s := by
  refine yields_loop ?_
  rw [flushToHomeOnce]
  simp only [yields_bind, yields_findStream, serves.found, TlsChannel.yields_getOpen,
    serves.opened, serves.empty, if_true, finishFlush, serves.going, Bool.false_eq_true, if_false,
    yields_getNode, yields_pure]
  have hpaused := serves.unpaused _ _ serves.found
  rcases stream.localPeer with _ | p
  · exact yields_resumeLocalReads serves.unpaused hQ
  · simp only [yields_bind, yields_when, hpaused, Bool.false_eq_true, false_and, not_false_eq_true,
      false_implies, true_and, true_implies]
    exact yields_resumeLocalReads serves.unpaused hQ

/-- **Bytes that fit go out as one chunk.** -/
theorem flushToHome {n : ℕ} (hfuel : k.fuel = n + 2) (serves : Serves streamId stream channel s)
    (fits : Fits streamId stream.sendWindow channel s data)
    (hQ : Q () (h ++ [.sent (.chunk streamId data)])
      ((s.holding streamId data).flushed streamId channel data)) :
    yields (flushToHome options k streamId) Q h (s.holding streamId data) := by
  have hwaiting : (s.holding streamId data).node.streams.lookup streamId =
      some { stream with lastActivity := s.node.now, pendingToHome := data } := by
    simp [LinkHost.holding, LinkHost.withNode, Table.lookup_adjust_self, serves.found, serves.empty]
  have hopen : TlsChannel.openOf (s.holding streamId data) = some channel := serves.opened
  have hframe : (Outgoing.chunk streamId data).frame ≠ [] := by
    simp [Outgoing.frame, encodeData, encodeFrame, fits.nonempty]
  have after := serves.flushed data
  rw [Link.flushToHome, hfuel]
  -- the first turn sends the chunk
  refine yields_loop ?_
  rw [flushToHomeOnce]
  simp only [yields_bind, yields_findStream, hwaiting, TlsChannel.yields_getOpen, hopen, fits.nonempty,
    fits.room, fits.chunk, if_false, Bool.false_eq_true, List.take_length]
  refine yields_sendFrameToNode hopen serves.ready fits.answer
    hframe fits.left fits.cap ?_
  have hfound : (LinkHost.withChannel { s.holding streamId data with
      answers := (s.holding streamId data).answers.tail } (channel.sent
        (Outgoing.chunk streamId data).frame (s.holding streamId data).answer.written)
      ).node.streams.lookup streamId =
        some { stream with lastActivity := s.node.now, pendingToHome := data } := hwaiting
  rw [hfound]
  simp only [yields_bind, yields_modifyStream, yields_modifyNode, yields_pure, if_true]
  change yields (loop (n + 1) (flushToHomeOnce options k streamId)) Q
    (h ++ [.sent (.chunk streamId data)]) ((s.holding streamId data).flushed streamId channel data)
  -- the second finds nothing left
  exact after.flushDone hQ

/-- Bytes wait, and nothing is paused for them. -/
theorem holdForHome (serves : Serves streamId stream channel s)
    (hstream : data.length < options.limits.streamPendingCap)
    (htotal : (s.node.globalPendingToHome + UInt64.ofNat data.length).toNat <
      options.limits.globalPendingCap)
    (hQ : Q () h (s.holding streamId data)) :
    yields (holdForHome options streamId data) Q h s := by
  have hwaiting : (s.holding streamId data).node.streams.lookup streamId =
      some { stream with lastActivity := s.node.now, pendingToHome := data } := by
    simp [LinkHost.holding, LinkHost.withNode, Table.lookup_adjust_self, serves.found, serves.empty]
  rw [Link.holdForHome, yields_bind, yields_modifyNode, yields_bind]
  change yields (findStream streamId) _ h (s.holding streamId data)
  rw [yields_findStream, hwaiting]
  dsimp only
  have hpause : yields (do
      let s ← getNode
      when (options.limits.globalPendingCap ≤ s.globalPendingToHome.toNat) pauseAllLocalReads)
        Q h (s.holding streamId data) := by
    rw [yields_bind, yields_getNode, yields_when]
    exact ⟨fun hfull => absurd htotal (Nat.not_lt.2 hfull), fun _ => hQ⟩
  rcases stream.localPeer with _ | p
  · exact hpause
  · rw [yields_bind, yields_when]
    exact ⟨fun hfull => absurd hstream (Nat.not_lt.2 hfull.1), fun _ => hpause⟩

/-- **A read that fits is framed at once.** -/
theorem onLocalRead {n : ℕ} (hfuel : k.fuel = n + 2) (serves : Serves streamId stream channel s)
    (fits : Fits streamId stream.sendWindow channel s data)
    (hstream : data.length < options.limits.streamPendingCap)
    (htotal : (s.node.globalPendingToHome + UInt64.ofNat data.length).toNat <
      options.limits.globalPendingCap)
    (hQ : Q () (h ++ [.read streamId data] ++ [.sent (.chunk streamId data)])
      ((s.holding streamId data).flushed streamId channel data)) :
    yields (onLocalRead options k streamId data) Q h s := by
  simp only [Link.onLocalRead, yields_bind, yields_findStream, serves.found, yields_note,
    writeToStream, fits.nonempty, if_false, yields_getNode, TlsChannel.yields_getOpen,
    serves.opened, serves.hello]
  exact serves.holdForHome hstream htotal (serves.flushToHome hfuel fits hQ)

end Serves

/-- The loop reports that a local peer has bytes. -/
def readable (p : ℕ) (data : Bytes) : Event :=
  .localPeer p { readable := true, reads := [.bytes data] }

/-- A read of a connected peer calls `onLocalRead`. -/
theorem yields_readable {p : ℕ}
    (hpeer : s.peers p = { callbacks := some streamId, connected := true })
    (hread : yields (onLocalRead options k streamId data) (fun _ h' s' => Q () h'
      (s'.setPeer p (TcpPeer.applyStaged
        { s'.peers p with dispatchDepth := (s'.peers p).dispatchDepth - 1 })))
      h (s.setPeer p { callbacks := some streamId, connected := true, dispatchDepth := 1 })) :
    yields (perform options k (readable p data)) Q h s := by
  have hself : (s.setPeer p
      { callbacks := some streamId, connected := true, dispatchDepth := 1 }).peers p =
        { callbacks := some streamId, connected := true, dispatchDepth := 1 } :=
    Function.update_self _ _ _
  rw [readable, perform, TcpPeer.handleEvents, yields_bind, TcpPeer.yields_modifyPeer, hpeer]
  simp only [yields_bind, TcpPeer.dispatch, TcpPeer.yields_getPeer, hself, TcpPeer.readAvailable,
    TcpPeer.readLoop, Bool.false_eq_true, if_false, false_and, yields_when, not_false_eq_true,
    true_implies, localEventHooks, not_true, false_implies, and_true]
  refine yields_mono hread fun _ h' s' hQ => ?_
  rw [ite_self, yields_pure, yields_ite]
  refine ⟨fun _ => ?_, fun _ => ?_⟩
  · exact yields_pure.2 (TcpPeer.yields_modifyPeer.2 hQ)
  · simpa only [yields_bind, yields_when, TcpPeer.yields_getPeer, Bool.false_eq_true, or_self,
      false_and, false_implies, not_false_eq_true, true_implies, true_and,
      TcpPeer.yields_modifyPeer] using hQ

theorem Serves.congr {s' : LinkHost} (serves : Serves streamId stream channel s)
    (hnode : s'.node = s.node) : Serves streamId stream channel s' := by
  obtain ⟨hfound, hempty, hgoing, hunpaused, hopened, hready, hhello⟩ := serves
  refine ⟨?_, hempty, hgoing, ?_, ?_, hready, ?_⟩
  · rwa [hnode]
  · rwa [hnode]
  · rwa [TlsChannel.openOf, hnode]
  · rwa [hnode]

/-- **A local peer that has bytes that fit gets them framed at once.** -/
theorem Serves.readable {n p : ℕ} (serves : Serves streamId stream channel s)
    (fits : Fits streamId stream.sendWindow channel s data)
    (hstream : data.length < options.limits.streamPendingCap)
    (htotal : (s.node.globalPendingToHome + UInt64.ofNat data.length).toNat <
      options.limits.globalPendingCap)
    (hpeer : s.peers p = { callbacks := some streamId, connected := true })
    (hQ : ∀ s', s'.node = ((s.holding streamId data).flushed streamId channel data).node →
      s'.peers p = s.peers p → Q () (h ++ [.read streamId data] ++ [.sent (.chunk streamId data)]) s') :
    yields (perform options (kernel options (n + 2)) (readable p data)) Q h s := by
  refine yields_readable hpeer (Serves.onLocalRead (n := n) rfl (serves.congr rfl)
    ⟨fits.nonempty, fits.chunk, fits.room, fits.answer, fits.left, fits.cap⟩ hstream htotal
    (hQ _ rfl ?_))
  rw [hpeer]
  simp [Host.setPeer, LinkHost.flushed, LinkHost.holding, LinkHost.withNode, TcpPeer.applyStaged]

end Link

end ArgusBackend
