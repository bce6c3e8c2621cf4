import ArgusBackend.Link.Client

/-!
# Rules for the client's functions

An invariant of the client is about a few fields of its state.  `Core J` says that `J` is about
those that can matter (the channel, the waiting bytes, the pauses, the local peers); the rest of
this file says, for each function that only passes such an invariant along, what keeps it.

* `Kept` collects what an invariant has to show: that the functions which do touch these fields
  keep it;
* `Kept.dispatchFrame`, `Kept.pumpFrames` : then every frame of the node keeps it;
* `LinkStep.keeps` : and so does every event, if the entry points of `KeptEvents` do.
-/

namespace ArgusBackend

namespace Link

open Net Prog

/-- A change of the client's state outside the fields that an invariant may be about. -/
structure Aside (node node' : LinkState) : Prop where
  channel : node'.channel = node.channel
  streams : node'.streams = node.streams
  globalPendingToHome : node'.globalPendingToHome = node.globalPendingToHome
  globalPendingToLocal : node'.globalPendingToLocal = node.globalPendingToLocal
  linkReadPaused : node'.linkReadPaused = node.linkReadPaused

/-- The same for a stream. -/
structure StreamAside (f : Stream → Stream) : Prop where
  localPeer : ∀ stream, (f stream).localPeer = stream.localPeer
  pendingToLocal : ∀ stream, (f stream).pendingToLocal = stream.pendingToLocal
  pendingToHome : ∀ stream, (f stream).pendingToHome = stream.pendingToHome
  localReadPaused : ∀ stream, (f stream).localReadPaused = stream.localReadPaused
  localEof : ∀ stream, (f stream).localEof = stream.localEof
  /-- A stream may be routed, but a routed stream stays routed. -/
  routed : ∀ stream, (f stream).routed = false → stream.routed = false

/-- Notes no invariant depends on. -/
inductive Note.Aside : Note → Prop
  | pushIntent (payload : Bytes) : Note.Aside (.pushIntent payload)
  | pushResult (payload : Bytes) : Note.Aside (.pushResult payload)
  | wireError (error : WireError) : Note.Aside (.wireError error)

/-- `J` is about the channel, the waiting bytes, the pauses and the local peers. -/
structure Core (J : List Note → LinkHost → Prop) : Prop where
  stable : Host.Stable J
  node : ∀ h s node, Aside s.node node → J h s → J h (s.withNode node)
  stream : ∀ h s streamId f, StreamAside f → J h s →
    J h (s.withNode { s.node with streams := s.node.streams.adjust streamId f })
  note : ∀ h s n, n.Aside → J h s → J (h ++ [n]) s

/-- Frames that carry no data of a stream. -/
def Outgoing.IsControl : Outgoing → Prop
  | .chunk _ _ | .alert _ _ => False
  | .hello _ | .close _ _ | .ping _ | .pong _ | .goAway _ _ | .credit _ _ | .pushSealed _ => True

section Rules

variable {options : LinkOptions} {k : Kernel} {ok : Note → Prop} {J : List Note → LinkHost → Prop}
  {h : List Note} {s : LinkHost} {streamId : UInt32} {p : ℕ}

theorem keeps_getNode : Keeps ok J getNode := fun _ _ hJ => wp_getNode.2 hJ

theorem keeps_findStream : Keeps ok J (findStream streamId) := fun _ _ hJ => wp_findStream.2 hJ

namespace Core

variable (core : Core J)

include core

/-- What the clock shows and the system will answer does not matter. -/
theorem arm (stimulus : Stimulus) (hJ : J h s) : J h (stimulus.arm s) := by
  have hanswers : J h { s with answers := stimulus.answers, dials := stimulus.dials } :=
    core.stable h s _ (s.touched_answers _ _) hJ
  exact core.node h { s with answers := stimulus.answers, dials := stimulus.dials }
    { s.node with now := stimulus.now } ⟨rfl, rfl, rfl, rfl, rfl⟩ hanswers

theorem keeps_modifyNode {f : LinkState → LinkState} (hf : ∀ node, Aside node (f node)) :
    Keeps ok J (modifyNode f) :=
  fun h s hJ => wp_modifyNode.2 (core.node h s _ (hf _) hJ)

theorem keeps_modifyStream {f : Stream → Stream} (hf : StreamAside f) :
    Keeps ok J (modifyStream streamId f) :=
  fun h s hJ => wp_modifyStream.2 (core.stream h s streamId f hf hJ)

theorem keeps_note {n : Note} (hn : n.Aside) : Keeps ok J (Prog.note n) :=
  .note fun h s _ hJ => core.note h s n hn hJ

/-- Pausing or resuming a local peer is a matter of its socket. -/
theorem keeps_setLocalReadPaused {paused : Bool} : Keeps ok J (setLocalReadPaused p paused) :=
  fun h s hJ => by
    refine TcpPeer.wp_modifyPeer core.stable hJ ?_
    unfold TcpPeer.setReadPaused
    split <;> exact ⟨rfl, rfl, id, id⟩

theorem keeps_pauseAllLocalReads
    (hpause : ∀ h s, J h s →
      J h (s.withNode { s.node with streams := s.node.streams.mapEntries pauseRead })) :
    Keeps ok J pauseAllLocalReads := by
  refine .bind keeps_getNode fun _ => .bind (.each fun entry => ?_) fun _ => ?_
  · rcases entry.2.localPeer with _ | p
    · exact .pure _
    · exact .when core.keeps_setLocalReadPaused
  · exact fun h s hJ => wp_modifyNode.2 (hpause h s hJ)

theorem keeps_resumeLocalReads
    (hresume : ∀ h s, J h s →
      J h (s.withNode { s.node with streams := s.node.streams.mapEntries resumeRead })) :
    Keeps ok J (resumeLocalReads options) := by
  refine .bind keeps_getNode fun _ => .ite (.pure _) ?_
  refine .bind (.each fun entry => ?_) fun _ => ?_
  · rcases entry.2.localPeer with _ | p
    · exact .pure _
    · exact .when core.keeps_setLocalReadPaused
  · exact fun h s hJ => wp_modifyNode.2 (hresume h s hJ)

end Core

theorem localHooks_onClosed {Q : List Note → LinkHost → Prop}
    (hclosed : ∀ h s streamId, Q h s → (s.peers p).callbacks = some streamId →
      wp ok (k.localClosed streamId p) (fun _ => Q) h s) :
    ∀ h s, Q h s →
      wp ok ((localHooks k).onClosed (s.peers p).callbacks p) (fun _ => Q) h s := by
  intro h s hs
  rcases hcallbacks : (s.peers p).callbacks with _ | streamId
  · simpa [localHooks] using hs
  · exact hclosed h s streamId hs hcallbacks

/-- A local peer's callbacks during a send, when the entry points keep `J`. -/
theorem localHooks_calls {P Q : List Note → LinkHost → Prop} (hP : Core P)
    (hQ : Core Q) (weaken : ∀ h s, P h s → Q h s)
    (hdrained : ∀ h s streamId, P h s → (s.peers p).callbacks = some streamId →
      wp ok (k.localDrained streamId p) (fun _ => Q) h s)
    (hclosed : ∀ h s streamId, Q h s → (s.peers p).callbacks = some streamId →
      wp ok (k.localClosed streamId p) (fun _ => Q) h s) :
    TcpPeer.Calls ok (localHooks k) p P Q where
  stable := hP.stable
  stable' := hQ.stable
  weaken := weaken
  onDrained h s hs := by
    rcases hcallbacks : (s.peers p).callbacks with _ | streamId
    · simpa [localHooks] using weaken h s hs
    · exact hdrained h s streamId hs hcallbacks
  onClosed := localHooks_onClosed hclosed

/-- Releasing a local peer, once its callbacks are cleared: `Q` may depend on its being gone. -/
theorem wp_releaseLocal {P Q : List Note → LinkHost → Prop} (hQ : Core Q)
    (cP : TcpPeer.Calls ok (localHooks k) p P P)
    (cQ : TcpPeer.Calls ok (localHooks k) p Q Q) {bytes : Bytes} {reason : CloseReason}
    (hgone : ∀ h s peer, P h s → Touch (s.peers p) peer → peer.Gone →
      Q h (s.setPeer p peer))
    (hcleared : P h (s.setPeer p ((s.peers p).setCallbacks none))) :
    wp ok (releaseLocal k p bytes reason) (fun _ => Q) h s := by
  have hgone' : ∀ h s, P h s → (s.peers p).Gone → Q h s := fun h s hs hdone => by
    simpa [Host.setPeer] using hgone h s _ hs (.refl _) hdone
  have hclose : ∀ h s, P h s →
      wp ok (TcpPeer.close (localHooks k) p) (fun _ => Q) h s := fun h s hs =>
    TcpPeer.wp_close (fun hclosed => hgone' h s hs (.inl hclosed))
      (hgone h s _ hs ⟨rfl, rfl, id, fun _ => rfl⟩ (.inl rfl)) cQ.onClosed
  have hsend : Keeps ok P (TcpPeer.send (localHooks k) p bytes) := fun _ _ => cP.send bytes
  have hdraining : ∀ d : ℕ → LinkState → List DrainingPeer,
      Keeps ok Q (modifyNode fun s => { s with drainingPeers := d p s }) :=
    fun _ => hQ.keeps_modifyNode fun _ => ⟨rfl, rfl, rfl, rfl, rfl⟩
  refine wp_bind.2 (wp_modify.2 ?_)
  rw [wp_bind, TcpPeer.wp_getPeer, wp_ite]
  refine ⟨fun _ => hclose _ _ hcleared, fun _ => wp_bind.2 ?_⟩
  refine wp_mono (Keeps.when hsend _ _ hcleared) fun _ h s hs => wp_bind.2 ?_
  refine wp_mono (cQ.closeOnceFlushed (hgone' h s hs) ?_) fun _ h s hs => ?_
  · exact hgone h s _ hs ⟨rfl, rfl, fun _ => rfl, id⟩ (.inr rfl)
  · rw [wp_bind, TcpPeer.wp_getPeer, wp_when]
    exact ⟨fun _ => hdraining (fun p s => s.drainingPeers ++ [⟨p, s.now + kDrainGrace⟩]) h s hs,
      fun _ => hs⟩

/-- A local peer that is released without its stream having ended well is closed. -/
theorem wp_releaseLocal_lost {P : List Note → LinkHost → Prop} (hP : Core P) {bytes : Bytes}
    {reason : CloseReason} (hreason : reason ≠ .normal)
    (hclosed : ∀ h s streamId, P h s → (s.peers p).callbacks = some streamId →
      wp ok (k.localClosed streamId p) (fun _ => P) h s)
    (hcleared : P h (s.setPeer p ((s.peers p).setCallbacks none))) :
    wp ok (releaseLocal k p bytes reason) (fun _ => P) h s := by
  refine wp_bind.2 (wp_modify.2 ?_)
  rw [wp_bind, TcpPeer.wp_getPeer, if_pos (.inl hreason)]
  exact TcpPeer.keeps_close hP.stable (localHooks_onClosed hclosed) _ _ hcleared

/-- A frame keeps an invariant that does not depend on the buffer of the channel, when the entry
points do. -/
theorem keeps_sendFrameToNode {outgoing : Outgoing} (core : Core J)
    (hchannel : ∀ h s channel channel', J h s → s.node.channel = some channel →
      J h (s.withChannel channel'))
    (hsent : ∀ h s, J h s → J (h ++ [.sent outgoing]) s)
    (hnote : ∀ h s, J h s → J (h ++ [.drained (some outgoing)]) s)
    (hdrained : Keeps ok J k.channelDrained) (hclosed : Keeps ok J k.channelClosed) :
    Keeps ok J (sendFrameToNode k outgoing) := by
  intro h s hJ
  have c : TlsChannel.Calls ok (channelHooks k) (some outgoing) J J :=
    { stable := core.stable
      buffer := fun h s channel _ hJ hopen =>
        hchannel h s channel _ hJ (TlsChannel.openOf_eq_some.1 hopen).1
      weaken := fun _ _ hJ => hJ
      onDrained := fun h s channel hJ hopen _ _ =>
        hdrained _ _ (hnote _ _ (hchannel h s channel _ hJ (TlsChannel.openOf_eq_some.1 hopen).1))
      onClosed := fun h s channel hJ hopen =>
        hclosed _ _ (hchannel h s channel _ hJ (TlsChannel.openOf_eq_some.1 hopen).1) }
  refine c.send (fun _ => hJ) ?_ (fun _ _ hJ _ => hJ) (fun h s channel => c.onClosed h s channel)
    ?_ (fun _ _ _ hJ _ _ => hJ)
  · exact fun channel hopen _ =>
      hsent _ _ (hchannel h s channel _ hJ (TlsChannel.openOf_eq_some.1 hopen).1)
  · exact fun h s channel hJ hopen =>
      hchannel h s channel _ hJ (TlsChannel.openOf_eq_some.1 hopen).1

/-- The flush of an event keeps an invariant that does not depend on the buffer of the channel. -/
theorem keeps_channelFlush (core : Core J)
    (hchannel : ∀ h s channel channel', J h s → s.node.channel = some channel →
      J h (s.withChannel channel'))
    (hnote : ∀ h s, J h s → J (h ++ [.drained none]) s)
    (hdrained : Keeps ok J (onChannelDrained options k))
    (hclosed : Keeps ok J (closeLink options k)) :
    Keeps ok J (TlsChannel.flush (channelEventHooks options k) none) := by
  intro h s hJ
  have c : TlsChannel.Calls ok (channelEventHooks options k) none J J :=
    { stable := core.stable
      buffer := fun h s channel _ hJ hopen =>
        hchannel h s channel _ hJ (TlsChannel.openOf_eq_some.1 hopen).1
      weaken := fun _ _ hJ => hJ
      onDrained := fun h s channel hJ hopen _ _ =>
        hdrained _ _ (hnote _ _ (hchannel h s channel _ hJ (TlsChannel.openOf_eq_some.1 hopen).1))
      onClosed := fun h s channel hJ hopen =>
        hclosed _ _ (hchannel h s channel _ hJ (TlsChannel.openOf_eq_some.1 hopen).1) }
  exact c.flush hJ

theorem keeps_channelClose
    (hchannel : ∀ h s channel channel', J h s → s.node.channel = some channel →
      J h (s.withChannel channel'))
    (hclosed : Keeps ok J (closeLink options k)) :
    Keeps ok J (TlsChannel.close (channelEventHooks options k)) :=
  fun h s hJ => TlsChannel.wp_close (fun _ => hJ) fun channel hopen =>
    hclosed _ _ (hchannel h s channel _ hJ (TlsChannel.openOf_eq_some.1 hopen).1)

/-- Closing a stream: from the table without it, the rest of `closeLocal` leads to `Q`. -/
theorem wp_closeLocal {reason : CloseReason} {Q : List Note → LinkHost → Prop}
    (hnone : s.node.streams.lookup streamId = none → Q h s)
    (hfound : ∀ moved, s.node.streams.lookup streamId = some moved →
      wp ok (announceClosed options k streamId reason moved) (fun _ => Q)
        (h ++ [.closed streamId reason moved.localEof moved.pendingToHome])
        (s.withNode (s.node.removeStream streamId moved))) :
    wp ok (closeLocal options k streamId reason) (fun _ => Q) h s := by
  rw [closeLocal, wp_bind, wp_findStream]
  rcases hlookup : s.node.streams.lookup streamId with _ | moved
  · exact wp_pure.2 (hnone hlookup)
  · simp only [wp_bind, wp_modifyNode, wp_note]
    exact fun _ => hfound moved hlookup

/-- Tearing the streams down ends with none. -/
theorem wp_teardownStreams {T Q : List Note → LinkHost → Prop}
    (hclose : ∀ streamId, Keeps ok T (closeLocal options k streamId .error))
    (hdone : ∀ h s, T h s → s.node.streams = ∅ →
      Q h (s.withNode { s.node with globalPendingToHome := 0, globalPendingToLocal := 0 }))
    (hT : T h s) : wp ok (teardownStreams options k) (fun _ => Q) h s := by
  have hloop : wp ok (loop k.fuel (teardownOnce options k))
      (fun _ h s => T h s ∧ s.node.streams = ∅) h s := by
    refine wp_loop (fun h s hT => ?_) hT
    rw [teardownOnce, wp_bind, wp_getNode]
    rcases hhead : (options.order.walk s.node.streams.keys).head? with _ | streamId
    · have hkeys := options.order.perm s.node.streams.keys
      rw [List.head?_eq_none_iff.1 hhead] at hkeys
      exact wp_pure.2 ⟨hT, Table.eq_empty_of_keys hkeys.nil_eq.symm⟩
    · exact wp_bind.2 (wp_mono (hclose streamId h s hT) fun _ _ _ hT => wp_pure.2 hT)
  rw [teardownStreams, wp_bind]
  exact wp_mono hloop fun _ h s hdone' => wp_modifyNode.2 (hdone h s hdone'.1 hdone'.2)

/-- Closing the link: from the state without a channel, tearing the streams down leads to `Q`. -/
theorem wp_closeLink {T Q : List Note → LinkHost → Prop}
    (hdown : s.node.channel = none → Q h s)
    (hT : T h (s.withNode { s.node with channel := none, parser := {} }))
    (hclose : ∀ streamId, Keeps ok T (closeLocal options k streamId .error))
    (hdone : ∀ h s node, T h s → s.node.streams = ∅ → node.streams = ∅ →
      node.channel = s.node.channel → node.globalPendingToHome = 0 →
      node.globalPendingToLocal = 0 → node.linkReadPaused = false → Q h (s.withNode node)) :
    wp ok (closeLink options k) (fun _ => Q) h s := by
  simp only [closeLink, wp_bind, wp_getNode, wp_ite, wp_pure, wp_modifyNode]
  refine ⟨fun hnone => hdown (by simpa using hnone), fun _ => ?_⟩
  refine wp_teardownStreams hclose (fun h s hT hempty => ?_) hT
  rw [scheduleReconnect, wp_modifyNode]
  refine hdone h s _ hT hempty ?_ ?_ ?_ ?_ ?_ <;> split <;> first | rfl | exact hempty

/-- The rest of `closeLocal`: `P` until the local peer is released, `Q` until the link is read
again. -/
theorem wp_announceClosed {P Q R : List Note → LinkHost → Prop} {reason : CloseReason}
    {moved : Stream}
    (hsend : ∀ outgoing, outgoing.IsControl → Keeps ok P (sendFrameToNode k outgoing))
    (hnone : moved.localPeer = none → ∀ h s, P h s → Q h s)
    (hrelease : ∀ p, moved.localPeer = some p → ∀ h s, P h s →
      wp ok (releaseLocal k p moved.pendingToLocal reason) (fun _ => Q) h s)
    (hresume : ∀ h s, Q h s → wp ok (resumeLinkRead options k) (fun _ => R) h s) (hP : P h s) :
    wp ok (announceClosed options k streamId reason moved) (fun _ => R) h s := by
  rw [announceClosed, wp_bind, wp_getNode, wp_bind]
  refine wp_mono (Keeps.when (hsend (.close _ _) trivial) h s hP) fun _ h s hP => ?_
  rcases hlocal : moved.localPeer with _ | p
  · exact hresume h s (hnone hlocal h s hP)
  · exact wp_bind.2 (wp_mono (hrelease p hlocal h s hP) fun _ h s hQ => hresume h s hQ)

/-! ### Functions that only pass an invariant along -/

namespace Core

variable (core : Core J)

include core

theorem keeps_grantConsumedCredit {consumedBytes : ℕ}
    (hsend : ∀ outgoing, outgoing.IsControl → Keeps ok J (sendFrameToNode k outgoing)) :
    Keeps ok J (grantConsumedCredit k streamId consumedBytes) := by
  refine .bind keeps_findStream fun stream => ?_
  rcases stream with _ | stream
  · exact .pure _
  · refine .bind (core.keeps_modifyStream ?_) fun _ => .when (hsend (.credit _ _) trivial)
    constructor <;> intros <;> first | rfl | assumption

omit core in
theorem keeps_resumeLinkRead
    (hreading : ∀ h s, J h s → J h (s.withNode { s.node with linkReadPaused := false }))
    (hchannel : ∀ h s channel channel', J h s → s.node.channel = some channel →
      J h (s.withChannel channel'))
    (hpump : Keeps ok J k.pumpFrames) : Keeps ok J (resumeLinkRead options k) := by
  intro h s hJ
  simp only [resumeLinkRead, wp_bind, wp_getNode, wp_ite, wp_pure, wp_when, wp_modifyNode]
  refine ⟨fun _ => hJ, fun hup => ⟨fun _ => ?_, fun _ => hJ⟩⟩
  have hsome : s.node.channel ≠ none := by simpa using (not_or.1 hup).2
  obtain ⟨channel, hsome⟩ := Option.ne_none_iff_exists'.1 hsome
  have hreading := hreading h s hJ
  have hsome' : (s.withNode { s.node with linkReadPaused := false }).node.channel = some channel :=
    hsome
  rw [wp_modifyChannel hsome']
  exact hpump _ _ (hchannel _ _ channel _ hreading hsome')

theorem keeps_flushToLocal
    (hclear : Keeps ok J
      (modifyStream streamId fun stream => { stream with pendingToLocal := [] }))
    (hcount : ∀ f : UInt64 → UInt64, Keeps ok J
      (modifyNode fun s => { s with globalPendingToLocal := f s.globalPendingToLocal }))
    (hsend : ∀ p bytes, Keeps ok J (TcpPeer.send (localHooks k) p bytes))
    (hcredit : ∀ outgoing, outgoing.IsControl → Keeps ok J (sendFrameToNode k outgoing))
    (hresume : Keeps ok J (resumeLinkRead options k)) :
    Keeps ok J (flushToLocal options k streamId) := by
  refine .loop (.bind keeps_findStream fun stream => ?_)
  rcases stream with _ | stream
  · exact .pure _
  dsimp only
  rcases stream.localPeer with _ | p
  · exact .pure _
  refine .bind TcpPeer.keeps_getPeer fun peer => .ite (.pure _) (.ite ?_ (.ite (.pure _) ?_))
  · exact .bind hresume fun _ => .pure _
  refine .bind hclear fun _ => .bind (hsend _ _) fun _ => .bind keeps_findStream fun stream => ?_
  rcases stream with _ | stream
  · exact .pure _
  · exact .bind hclear fun _ => .bind (hcount fun pending => pending - _) fun _ =>
      .bind (core.keeps_grantConsumedCredit hcredit) fun _ => .pure _

theorem keeps_finishFlush {stream : Stream}
    (hclose : Keeps ok J (closeLocal options k streamId .normal))
    (hread : Keeps ok J
      (modifyStream streamId fun stream => { stream with localReadPaused := false }))
    (hresume : Keeps ok J (resumeLocalReads options)) :
    Keeps ok J (finishFlush options k streamId stream) := by
  refine .ite (.bind hclose fun _ => hresume) (.bind keeps_getNode fun _ => ?_)
  rcases stream.localPeer with _ | p
  · exact hresume
  · exact .bind (.when (.bind hread fun _ => core.keeps_setLocalReadPaused)) fun _ => hresume

omit core in
theorem keeps_flushToHome
    (hfinish : ∀ stream, Keeps ok J (finishFlush options k streamId stream))
    (hsend : ∀ bytes, Keeps ok J (sendFrameToNode k (.chunk streamId bytes)))
    (herase : ∀ chunk, Keeps ok J (modifyStream streamId fun stream => { stream with
      sendWindow := stream.sendWindow.recordUsed chunk
      pendingToHome := stream.pendingToHome.drop chunk }))
    (hcount : ∀ f : UInt64 → UInt64, Keeps ok J
      (modifyNode fun s => { s with globalPendingToHome := f s.globalPendingToHome })) :
    Keeps ok J (flushToHome options k streamId) := by
  refine .loop (.bind keeps_findStream fun stream => .bind (fun _ _ hJ =>
    TlsChannel.wp_getOpen.2 hJ) fun channel => ?_)
  rcases stream with _ | stream
  · exact .pure _
  rcases channel with _ | channel
  · exact .pure _
  refine .ite (.bind (hfinish _) fun _ => .pure _) (.ite (.pure _) ?_)
  rcases stream.sendWindow.nextChunk stream.pendingToHome.length with _ | chunk
  · exact .pure _
  refine .bind (hsend _) fun _ => .bind keeps_findStream fun stream => ?_
  rcases stream with _ | stream
  · exact .pure _
  · exact .bind (herase _) fun _ => .bind (hcount fun pending => pending - _) fun _ => .pure _

omit core in
/-- A dial: the stream gets a local peer, or it is dropped when the node has been told. -/
theorem wp_dialListener {P : List Note → LinkHost → Prop} (hP : P h s) (hstable : Host.Stable P)
    (hadd : ∀ h s, P h s →
      J h { s.setPeer s.nextPeer { callbacks := some streamId, connecting := true } with
        nextPeer := s.nextPeer + 1
        node := { s.node with streams := s.node.streams.adjust streamId fun stream =>
          { stream with localPeer := some s.nextPeer } } })
    (hfail : ∀ h s, P h s → wp ok (do
        sendFrameToNode k (.close streamId .busy)
        modifyNode fun s => { s with streams := s.streams.erase streamId }) (fun _ => J) h s) :
    wp ok (dialListener k streamId) (fun _ => J) h s := by
  have hdials : P h { s with dials := s.dials.tail } :=
    hstable h s _ (s.touched_answers s.answers _) hP
  simp only [dialListener, TcpPeer.connect, nextDial, addPeer, wp_bind, wp_get, wp_modify, wp_pure,
    wp_ite, wp_modifyStream]
  exact ⟨fun _ => hadd h _ hdials, fun _ => by simpa only [wp_bind] using hfail h _ hdials⟩

/-- Bytes read from a local peer wait, and local reads may be paused. -/
theorem wp_holdForHome {data : Bytes}
    (hhold : J h (s.withNode { s.node with
      streams := s.node.streams.adjust streamId fun stream => { stream with
        lastActivity := s.node.now
        pendingToHome := stream.pendingToHome ++ data }
      globalPendingToHome := s.node.globalPendingToHome + UInt64.ofNat data.length }))
    (hpause : Keeps ok J
      (modifyStream streamId fun stream => { stream with localReadPaused := true }))
    (hpauseAll : Keeps ok J pauseAllLocalReads) :
    wp ok (holdForHome options streamId data) (fun _ => J) h s := by
  rw [holdForHome, wp_bind, wp_modifyNode]
  refine Keeps.bind keeps_findStream (fun stream => ?_) _ _ hhold
  rcases stream with _ | stream
  · exact .pure _
  dsimp only
  rcases stream.localPeer with _ | p
  · exact .bind keeps_getNode fun _ => .when hpauseAll
  · exact .bind (.when (.bind hpause fun _ => core.keeps_setLocalReadPaused)) fun _ =>
      .bind keeps_getNode fun _ => .when hpauseAll

theorem keeps_onLocalRead
    (hread : ∀ bytes, Keeps ok J (Prog.note (.read streamId bytes)))
    (hhold : ∀ data h s, J h s → J h (s.withNode { s.node with
      streams := s.node.streams.adjust streamId fun stream => { stream with
        lastActivity := s.node.now
        pendingToHome := stream.pendingToHome ++ data }
      globalPendingToHome := s.node.globalPendingToHome + UInt64.ofNat data.length }))
    (hpause : Keeps ok J
      (modifyStream streamId fun stream => { stream with localReadPaused := true }))
    (hpauseAll : Keeps ok J pauseAllLocalReads)
    (hflush : Keeps ok J (flushToHome options k streamId))
    (hclose : Keeps ok J (closeLocal options k streamId .error)) {data : Bytes} :
    Keeps ok J (onLocalRead options k streamId data) := by
  have hopen : Keeps ok J TlsChannel.getOpen := fun _ _ hJ => TlsChannel.wp_getOpen.2 hJ
  have hholdForHome : Keeps ok J (holdForHome options streamId data) :=
    fun h s hJ => core.wp_holdForHome (hhold data h s hJ) hpause hpauseAll
  refine .bind keeps_findStream fun stream => ?_
  rcases stream with _ | stream
  · exact .pure _
  refine .bind (hread data) fun _ => .bind keeps_findStream fun stream => ?_
  rcases stream with _ | stream
  · exact .pure _
  refine .ite (.pure _) (.bind keeps_getNode fun s => .bind hopen fun channel => ?_)
  rcases s.helloReceived with _ | _ <;> rcases channel with _ | channel
  · exact hclose
  · exact hclose
  · exact hclose
  · exact .bind hholdForHome fun _ => hflush

omit core in
theorem keeps_onChannelDrained (hflush : ∀ streamId, Keeps ok J (flushToHome options k streamId))
    (hresume : Keeps ok J (resumeLocalReads options))
    (hread : Keeps ok J (resumeLinkRead options k)) : Keeps ok J (onChannelDrained options k) :=
  .bind keeps_getNode fun _ => .bind (.each hflush) fun _ => .bind hresume fun _ => hread

omit core in
theorem keeps_onLocalDrained (hflush : Keeps ok J (flushToLocal options k streamId)) :
    Keeps ok J (onLocalDrained options k streamId p) := by
  refine .bind (.bind keeps_findStream fun stream => ?_) fun served => ?_
  · rcases stream with _ | stream <;> exact .pure _
  · rcases served with _ | stream
    · exact .pure _
    · exact hflush

omit core in
theorem keeps_onLocalClosed
    (hclose : ∀ reason, reason ≠ .normal → Keeps ok J (closeLocal options k streamId reason)) :
    Keeps ok J (onLocalClosed options k streamId p) := by
  refine .bind (.bind keeps_findStream fun stream => ?_) fun served => ?_
  · rcases stream with _ | stream <;> exact .pure _
  · rcases served with _ | stream
    · exact .pure _
    · exact hclose _ (by split <;> decide)

end Core

/-- What a stream is when it has just been opened. -/
structure Fresh (stream : Stream) : Prop where
  localPeer : stream.localPeer = none
  pendingToLocal : stream.pendingToLocal = []
  pendingToHome : stream.pendingToHome = []
  localReadPaused : stream.localReadPaused = false
  localEof : stream.localEof = false

/-- What the functions that touch the core owe to an invariant, for every frame of the node to
keep it.  Frames are handled while the link is read. -/
structure Kept (options : LinkOptions) (k : Kernel) (ok : Note → Prop)
    (J : List Note → LinkHost → Prop) : Prop extends Core J where
  send : ∀ outgoing, outgoing.IsControl → Keeps ok J (sendFrameToNode k outgoing)
  sendLocal : ∀ p bytes, Keeps ok J (TcpPeer.send (localHooks k) p bytes)
  closeLocal : ∀ streamId reason, Keeps ok J (closeLocal options k streamId reason)
  closeLink : Keeps ok J (closeLink options k)
  flushToHome : ∀ streamId, Keeps ok J (flushToHome options k streamId)
  refuseStream : ∀ h s streamId stream, J h s → s.node.streams.lookup streamId = some stream →
    stream.routed = false → wp ok (refuseStream options k streamId) (fun _ => J) h s
  holdForLocal : ∀ h s streamId stream stream' payload, J h s → s.node.linkReadPaused = false →
    s.node.streams.lookup streamId = some stream' → stream'.routed = true →
    wp ok (holdForLocal options k streamId stream payload) (fun _ => J) h s
  insert : ∀ h s streamId stream, J h s → s.node.linkReadPaused = false →
    s.node.streams.lookup streamId = none → Fresh stream → ok (.opened streamId) →
    J (h ++ [.opened streamId])
      (s.withNode { s.node with streams := s.node.streams.insert streamId stream })
  dialOpened : ∀ h s streamId stream, J h s → s.node.linkReadPaused = false →
    s.node.streams.lookup streamId = some stream → Fresh stream → stream.routed = true →
    wp ok (dialListener k streamId) (fun _ => J) h s
  dialRouted : ∀ h s streamId stream, J h s → s.node.linkReadPaused = false →
    s.node.streams.lookup streamId = some stream → stream.routed = false →
    wp ok (dialListener k streamId) (fun _ => J) h
      (s.withNode { s.node with streams := s.node.streams.adjust streamId fun stream =>
        { stream with routed := true, clientHello := [] } })

namespace Kept

variable (kept : Kept options k ok J)

include kept

theorem grantConsumedCredit {consumedBytes : ℕ} :
    Keeps ok J (grantConsumedCredit k streamId consumedBytes) :=
  kept.keeps_grantConsumedCredit kept.send

theorem deliverNow {bytes : Bytes} : Keeps ok J (deliverNow k streamId p bytes) :=
  .bind (kept.sendLocal p bytes) fun _ => kept.grantConsumedCredit

theorem goAwayAndClose : Keeps ok J (goAwayAndClose options k) :=
  .bind (kept.send (.goAway _ _) trivial) fun _ => kept.closeLink

theorem refuseLink {error : WireError} : Keeps ok J (refuseLink options k error) :=
  .bind (kept.keeps_note (.wireError error)) fun _ => kept.goAwayAndClose

/-- A routed stream is dialled, and its hello is delivered. -/
theorem routeStream (hread : s.node.linkReadPaused = false) (hJ : J h s) :
    wp ok (routeStream options k streamId) (fun _ => J) h s := by
  rw [Link.routeStream, wp_bind, wp_findStream]
  rcases hfound : s.node.streams.lookup streamId with _ | stream
  · exact wp_pure.2 hJ
  by_cases hrouted : stream.routed = true
  · simpa [hrouted] using hJ
  rw [Bool.not_eq_true] at hrouted
  simp only [hrouted, Bool.false_eq_true, if_false]
  have hrefuse := kept.refuseStream h s streamId stream hJ hfound hrouted
  rcases options.route stream.clientHello with _ | _ | port
  · exact wp_when.2 ⟨fun _ => hrefuse, fun _ => hJ⟩
  · exact hrefuse
  · simp only [wp_bind, wp_modifyStream]
    refine wp_mono (kept.dialRouted h s streamId stream hJ hread hfound hrouted) fun _ h s hJ => ?_
    rw [wp_findStream]
    rcases s.node.streams.lookup streamId with _ | ⟨_ | p⟩
    · exact wp_pure.2 hJ
    · exact wp_pure.2 hJ
    · exact kept.deliverNow h s hJ

theorem handleHello {frame : Frame} : Keeps ok J (handleHello options k frame) :=
  .bind keeps_getNode fun _ => .ite kept.refuseLink
    (kept.keeps_modifyNode fun _ => ⟨rfl, rfl, rfl, rfl, rfl⟩)

theorem openStream (hread : s.node.linkReadPaused = false)
    (hfree : s.node.streams.lookup streamId = none) (hJ : J h s) :
    wp ok (openStream options k streamId) (fun _ => J) h s := by
  simp only [Link.openStream, wp_bind, wp_getNode, wp_ite, wp_modifyNode, wp_note, wp_when]
  refine ⟨fun _ => kept.send (.close _ _) trivial h s hJ, fun _ hok => ?_⟩
  have hopened := fun stream hfresh => kept.insert h s streamId stream hJ hread hfree hfresh hok
  refine ⟨fun hdial => ?_, fun _ => hopened _ ⟨rfl, rfl, rfl, rfl, rfl⟩⟩
  exact kept.dialOpened _ _ streamId _ (hopened _ ⟨rfl, rfl, rfl, rfl, rfl⟩) hread
    (AList.lookup_insert _) ⟨rfl, rfl, rfl, rfl, rfl⟩ (by simpa using hdial)

theorem handleOpen {frame : Frame} (hread : s.node.linkReadPaused = false) (hJ : J h s) :
    wp ok (handleOpen options k frame) (fun _ => J) h s := by
  simp only [Link.handleOpen, wp_ite, wp_pure, wp_bind, wp_findStream]
  refine ⟨fun _ => hJ, fun _ => ?_⟩
  rcases hfound : s.node.streams.lookup frame.streamId with _ | stream
  · exact kept.openStream hread hfound hJ
  · exact wp_pure.2 hJ

theorem handleData {frame : Frame} (hread : s.node.linkReadPaused = false) (hJ : J h s) :
    wp ok (handleData options k frame) (fun _ => J) h s := by
  rw [Link.handleData, wp_bind, wp_findStream]
  rcases hfound : s.node.streams.lookup frame.streamId with _ | stream
  · exact wp_pure.2 hJ
  simp only [wp_bind, wp_modifyNode, wp_ite, wp_note, wp_modifyStream]
  have hactive := kept.stream h s frame.streamId
    (fun stream => { stream with lastActivity := s.node.now })
    (by constructor <;> intros <;> first | rfl | assumption) hJ
  refine ⟨fun _ _ => ?_, fun _ => ?_⟩
  · exact kept.closeLocal _ _ _ _ (kept.note _ _ _ (.wireError .overCredit) hactive)
  have hused := kept.stream _ _ frame.streamId (fun stream =>
    { stream with receiveWindow := stream.receiveWindow.recordUsed frame.payload.length })
    (by constructor <;> intros <;> first | rfl | assumption) hactive
  refine ⟨fun _ => kept.routeStream hread (kept.stream _ _ _ _ ?_ hused), fun hrouted => ?_⟩
  · constructor <;> intros <;> first | rfl | assumption
  have hhold := kept.holdForLocal _ _ frame.streamId stream
    { stream with
      lastActivity := s.node.now
      receiveWindow := stream.receiveWindow.recordUsed frame.payload.length }
    frame.payload hused hread (by simp [LinkHost.withNode, Table.lookup_adjust_self, hfound])
    (by simpa using hrouted)
  rcases stream.localPeer with _ | p
  · exact hhold
  · rw [wp_bind, TcpPeer.wp_getPeer, wp_ite]
    exact ⟨fun _ => hhold, fun _ => kept.deliverNow _ _ hused⟩

theorem handleClose {frame : Frame} : Keeps ok J (handleClose options k frame) := by
  refine .bind (kept.keeps_modifyStream ?_) fun _ => kept.closeLocal _ _
  constructor <;> intros <;> first | rfl | assumption

theorem handleCredit {frame : Frame} : Keeps ok J (handleCredit options k frame) := by
  refine .bind keeps_findStream fun stream => ?_
  rcases stream with _ | stream
  · exact .pure _
  · refine .bind (kept.keeps_modifyStream ?_) fun _ => kept.flushToHome _
    constructor <;> intros <;> first | rfl | assumption

theorem handlePush {frame : Frame} : Keeps ok J (handlePush options k frame) :=
  .bind keeps_getNode fun _ => .ite kept.goAwayAndClose (kept.keeps_note (.pushIntent _))

theorem handlePushResult {frame : Frame} : Keeps ok J (handlePushResult options k frame) :=
  .bind keeps_getNode fun _ => .ite kept.goAwayAndClose
    (.ite kept.goAwayAndClose (kept.keeps_note (.pushResult _)))

theorem handlePong {frame : Frame} : Keeps ok J (handlePong frame) :=
  kept.keeps_modifyNode fun _ => by split <;> exact ⟨rfl, rfl, rfl, rfl, rfl⟩

/-- **A frame of the node keeps the invariant.** -/
theorem dispatchFrame {frame : Frame} (hread : s.node.linkReadPaused = false) (hJ : J h s) :
    wp ok (dispatchFrame options k frame) (fun _ => J) h s := by
  simp only [Link.dispatchFrame, wp_bind, wp_modifyNode, wp_getNode, wp_ite]
  have hseen : J h (s.withNode { s.node with lastFrameAt := s.node.now }) :=
    kept.node h s _ ⟨rfl, rfl, rfl, rfl, rfl⟩ hJ
  refine ⟨fun _ => kept.refuseLink _ _ hseen, fun _ => ?_⟩
  cases frame.type with
  | hello => exact kept.handleHello _ _ hseen
  | «open» => exact kept.handleOpen hread hseen
  | data => exact kept.handleData hread hseen
  | close => exact kept.handleClose _ _ hseen
  | ping => exact kept.send (.pong _) trivial _ _ hseen
  | pong => exact kept.handlePong _ _ hseen
  | push => exact kept.handlePush _ _ hseen
  | goAway => exact wp_modifyNode.2 (kept.node _ _ _ ⟨rfl, rfl, rfl, rfl, rfl⟩ hseen)
  | credit => exact kept.handleCredit _ _ hseen
  | pushSealed => exact kept.goAwayAndClose _ _ hseen
  | pushResult => exact kept.handlePushResult _ _ hseen

theorem pumpFrame : Keeps ok J (pumpFrame options k) := by
  intro h s hJ
  rw [Link.pumpFrame, wp_bind, wp_getNode, wp_ite, wp_pure]
  refine ⟨fun _ => hJ, fun hgo => ?_⟩
  rcases s.node.parser.popFrame with _ | ⟨frame, parser⟩
  · exact wp_pure.2 hJ
  · have hread : s.node.linkReadPaused = false := by simpa using (not_or.1 hgo).2
    simp only [wp_bind, wp_modifyNode, wp_pure]
    exact kept.dispatchFrame hread (kept.node h s _ ⟨rfl, rfl, rfl, rfl, rfl⟩ hJ)

theorem pumpFrames : Keeps ok J (pumpFrames options k) := .loop kept.pumpFrame

theorem handleLinkRead {data : Bytes} : Keeps ok J (handleLinkRead options k data) :=
  .bind (kept.keeps_modifyNode fun _ => ⟨rfl, rfl, rfl, rfl, rfl⟩) fun _ =>
    .bind keeps_getNode fun _ => .ite kept.refuseLink kept.pumpFrames

end Kept

/-- Two invariants are kept together. -/
theorem Kept.and {J' : List Note → LinkHost → Prop} (kept : Kept options k ok J)
    (kept' : Kept options k ok J') : Kept options k ok fun h s => J h s ∧ J' h s where
  stable h s s' htouched hJ := ⟨kept.stable h s s' htouched hJ.1, kept'.stable h s s' htouched hJ.2⟩
  node h s node haside hJ := ⟨kept.node h s node haside hJ.1, kept'.node h s node haside hJ.2⟩
  stream h s id f hf hJ := ⟨kept.stream h s id f hf hJ.1, kept'.stream h s id f hf hJ.2⟩
  note h s n hn hJ := ⟨kept.note h s n hn hJ.1, kept'.note h s n hn hJ.2⟩
  send outgoing hcontrol := (kept.send outgoing hcontrol).and (kept'.send outgoing hcontrol)
  sendLocal p bytes := (kept.sendLocal p bytes).and (kept'.sendLocal p bytes)
  closeLocal id reason := (kept.closeLocal id reason).and (kept'.closeLocal id reason)
  closeLink := kept.closeLink.and kept'.closeLink
  flushToHome id := (kept.flushToHome id).and (kept'.flushToHome id)
  refuseStream h s id stream hJ hfound hrouted :=
    wp_and (kept.refuseStream h s id stream hJ.1 hfound hrouted)
      (kept'.refuseStream h s id stream hJ.2 hfound hrouted)
  holdForLocal h s id stream stream' payload hJ hread hfound hrouted :=
    wp_and (kept.holdForLocal h s id stream stream' payload hJ.1 hread hfound hrouted)
      (kept'.holdForLocal h s id stream stream' payload hJ.2 hread hfound hrouted)
  insert h s id stream hJ hread hfree hfresh hok :=
    ⟨kept.insert h s id stream hJ.1 hread hfree hfresh hok,
      kept'.insert h s id stream hJ.2 hread hfree hfresh hok⟩
  dialOpened h s id stream hJ hread hfound hfresh hrouted :=
    wp_and (kept.dialOpened h s id stream hJ.1 hread hfound hfresh hrouted)
      (kept'.dialOpened h s id stream hJ.2 hread hfound hfresh hrouted)
  dialRouted h s id stream hJ hread hfound hrouted :=
    wp_and (kept.dialRouted h s id stream hJ.1 hread hfound hrouted)
      (kept'.dialRouted h s id stream hJ.2 hread hfound hrouted)

/-- What the callbacks of an event owe to an invariant, for every event to keep it.  Where a local
peer is read, the invariant `given` may be used. -/
structure KeptEvents (options : LinkOptions) (k : Kernel) (ok : Note → Prop)
    (given J : List Note → LinkHost → Prop) : Prop extends Kept options k ok J where
  flags : ∀ h s channel channel', J h s → s.node.channel = some channel →
    channel'.sendBuffer = channel.sendBuffer →
    channel'.congestedNotified = channel.congestedNotified → channel'.closed = channel.closed →
    J h (s.withChannel channel')
  opened : ∀ h s, J h s → s.node.channel = none → J h (s.withChannel {})
  flush : Keeps ok J (TlsChannel.flush (channelEventHooks options k) none)
  close : Keeps ok J (TlsChannel.close (channelEventHooks options k))
  closeReleased : ∀ p, Keeps ok J (TcpPeer.close (localHooks k) p)
  localRead : ∀ h s p streamId data, given h s → J h s → (s.peers p).callbacks = some streamId →
    (s.peers p).closed = false → (s.peers p).closeWhenFlushed = false →
    wp ok (onLocalRead options k streamId data) (fun _ => J) h s
  localEof : ∀ h s streamId, given h s → J h s →
    wp ok (handleLocalEof options k streamId) (fun _ => J) h s
  flushToLocal : ∀ streamId, Keeps ok J (flushToLocal options k streamId)
  applied : ∀ h s p, J h s → J h (s.setPeer p (s.peers p).applyStaged)

namespace KeptEvents

/-- An invariant and one that is given it are kept together. -/
protected theorem and {given : List Note → LinkHost → Prop}
    (first : KeptEvents options k ok (fun _ _ => True) given)
    (kept : KeptEvents options k ok given J) :
    KeptEvents options k ok (fun _ _ => True) fun h s => given h s ∧ J h s where
  toKept := first.toKept.and kept.toKept
  flags h s channel channel' hJ hchannel hbuffer hnotified hclosed :=
    ⟨first.flags h s channel channel' hJ.1 hchannel hbuffer hnotified hclosed,
      kept.flags h s channel channel' hJ.2 hchannel hbuffer hnotified hclosed⟩
  opened h s hJ hnone := ⟨first.opened h s hJ.1 hnone, kept.opened h s hJ.2 hnone⟩
  flush := first.flush.and kept.flush
  close := first.close.and kept.close
  closeReleased p := (first.closeReleased p).and (kept.closeReleased p)
  localRead h s p id data _ hJ hcallbacks hopen hgoing :=
    wp_and (first.localRead h s p id data trivial hJ.1 hcallbacks hopen hgoing)
      (kept.localRead h s p id data hJ.1 hJ.2 hcallbacks hopen hgoing)
  localEof h s id _ hJ :=
    wp_and (first.localEof h s id trivial hJ.1) (kept.localEof h s id hJ.1 hJ.2)
  flushToLocal id := (first.flushToLocal id).and (kept.flushToLocal id)
  applied h s p hJ := ⟨first.applied h s p hJ.1, kept.applied h s p hJ.2⟩

variable (kept : KeptEvents options k ok (fun _ _ => True) J)

include kept

theorem onLocalDrained : Keeps ok J (onLocalDrained options k streamId p) :=
  Core.keeps_onLocalDrained (kept.flushToLocal streamId)

theorem onLocalClosed : Keeps ok J (onLocalClosed options k streamId p) :=
  Core.keeps_onLocalClosed fun reason _ => kept.closeLocal streamId reason

theorem channelServed : TlsChannel.Served ok (channelEventHooks options k) J where
  flags := kept.flags
  flush := kept.flush
  close := kept.close
  onConnected :=
    .bind (kept.keeps_modifyNode fun _ => ⟨rfl, rfl, rfl, rfl, rfl⟩) fun _ =>
      kept.send (.hello _) trivial
  onRead _ := kept.handleLinkRead
  onEof := kept.closeLink

theorem localServed : TcpPeer.Served ok (localEventHooks options k) p J where
  stable := kept.stable
  stable' := kept.stable
  weaken _ _ hJ := hJ
  onDrained h s hJ := by
    rcases hcallbacks : (s.peers p).callbacks with _ | streamId
    · simpa [localEventHooks] using hJ
    · exact kept.onLocalDrained h s hJ
  onClosed h s hJ := by
    rcases hcallbacks : (s.peers p).callbacks with _ | streamId
    · simpa [localEventHooks] using hJ
    · exact kept.onLocalClosed h s hJ
  onConnected h s hJ := by
    rcases hcallbacks : (s.peers p).callbacks with _ | streamId
    · simpa [localEventHooks] using hJ
    · refine kept.keeps_modifyStream ?_ h s hJ
      constructor <;> intros <;> first | rfl | assumption
  onRead data h s hJ hopen hgoing := by
    rcases hcallbacks : (s.peers p).callbacks with _ | streamId
    · simpa [localEventHooks] using hJ
    · exact kept.localRead h s p streamId data trivial hJ hcallbacks hopen hgoing
  onEof h s hJ := by
    rcases hcallbacks : (s.peers p).callbacks with _ | streamId
    · simpa [localEventHooks] using hJ
    · exact kept.localEof h s streamId trivial hJ
  applied h s := kept.applied h s p

theorem scheduleReconnect : Keeps ok J scheduleReconnect :=
  kept.keeps_modifyNode fun _ => by split <;> exact ⟨rfl, rfl, rfl, rfl, rfl⟩

theorem openChannel {dialled : Bool} : Keeps ok J (openChannel dialled) := by
  intro h s hJ
  simp only [Link.openChannel, wp_bind, wp_getNode, wp_ite, wp_pure, wp_modifyNode]
  refine ⟨fun _ => hJ, fun hfree => ⟨fun _ => ?_, fun _ => kept.scheduleReconnect h s hJ⟩⟩
  have hnone : s.node.channel = none := by
    simpa using (not_or.1 hfree).2
  exact kept.opened h s hJ hnone

theorem keepaliveTick {nonce : UInt64} : Keeps ok J (keepaliveTick options k nonce) := by
  refine .bind keeps_getNode fun s => .ite kept.closeLink ?_
  refine .bind (kept.keeps_modifyNode fun _ => ⟨rfl, rfl, rfl, rfl, rfl⟩) fun _ => .ite (.pure _) ?_
  exact .bind (kept.keeps_modifyNode fun _ => ⟨rfl, rfl, rfl, rfl, rfl⟩) fun _ =>
    kept.send (.ping nonce) trivial

theorem sweepDraining (draining : List DrainingPeer) :
    Keeps ok J (sweepDraining k draining) := by
  induction draining with
  | nil => exact .pure _
  | cons draining rest ih =>
    refine .bind TcpPeer.keeps_getPeer fun _ => .bind keeps_getNode fun _ => .ite ih (.ite ?_ ?_)
    · exact .bind ih fun _ => .pure _
    · exact .bind (kept.closeReleased _) fun _ => ih

theorem sweep {nonce : UInt64} : Keeps ok J (sweep options k nonce) := by
  have hlink : Keeps ok J (sweepLink options k nonce) :=
    .bind keeps_getNode fun _ => .ite kept.closeLink (.ite kept.closeLink (.when kept.keepaliveTick))
  refine .bind hlink fun _ => .bind keeps_getNode fun _ => ?_
  refine .bind (.each fun streamId => kept.closeLocal streamId _) fun _ => ?_
  refine .bind keeps_getNode fun _ => .bind (kept.sweepDraining _) fun _ => ?_
  exact kept.keeps_modifyNode fun _ => ⟨rfl, rfl, rfl, rfl, rfl⟩

theorem sendSealedPush {payload : Option Bytes} :
    Keeps ok J (sendSealedPush options k payload) := by
  refine .bind keeps_getNode fun s => ?_
  rcases sealedPushReady options s with _ | _ <;> rcases payload with _ | payload
  · exact .pure _
  · exact .pure _
  · exact .pure _
  · exact kept.send (.pushSealed payload) trivial

/-- **Every event keeps the invariant.** -/
theorem perform (event : Event) : Keeps ok J (perform options k event) := by
  cases event with
  | openChannel dialled => exact kept.openChannel
  | channel events => exact kept.channelServed.dispatch events
  | localPeer p events => exact kept.localServed.handleEvents events
  | sweep nonce => exact .bind keeps_getNode fun _ => .ite (.pure _) kept.sweep
  | reconnect =>
    exact kept.keeps_modifyNode (f := fun s => { s with reconnectPending := false })
      fun _ => ⟨rfl, rfl, rfl, rfl, rfl⟩
  | sealedPush payload => exact kept.sendSealedPush
  | stop =>
    exact kept.keeps_modifyNode (f := fun s => { s with stopped := true })
      fun _ => ⟨rfl, rfl, rfl, rfl, rfl⟩
  | shutdown => exact .bind keeps_getNode fun _ => .when kept.closeLink

end KeptEvents

/-- A run of the client whose notes meet `ok` keeps what its events keep. -/
theorem run_invariant
    (kept : ∀ fuel, KeptEvents options (kernel options fuel) ok (fun _ _ => True) J)
    (hrun : Run (LinkStep options) initialHost h s) (hok : ∀ n ∈ h, ok n)
    (hstart : J [] initialHost) : J h s := by
  refine hrun.invariant_of_notes hok hstart fun h s notes s' hJ hstep hnotes => ?_
  obtain ⟨fuel, stimulus, -, hperform⟩ := hstep
  exact (kept fuel).perform stimulus.event h _ ((kept fuel).toCore.arm stimulus hJ) () s' notes
    hperform hnotes

end Rules

end Link

end ArgusBackend
