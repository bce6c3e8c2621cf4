import ArgusBackend.Link.State

/-!
# The channel to the cloud node

The functions of `TlsChannel` as callback programs on the state of the client.  OpenSSL answers
through the host as the sockets do: a flush writes a prefix of the send buffer, and then the
buffer is empty, or the channel waits, or it fails.

The staging of callbacks is left out: the client clears the callbacks only on a channel it closes
in the same breath, and a closed channel calls nothing.
-/

namespace ArgusBackend

namespace Link

open Net Prog

/-- What the channel calls; inside a send, `onDrained` is told what was being sent. -/
structure ChannelHooks where
  onConnected : LinkProg Unit := pure ()
  onRead : Bytes → LinkProg Unit := fun _ => pure ()
  onEof : LinkProg Unit := pure ()
  onDrained : LinkProg Unit
  onClosed : LinkProg Unit

/-- How a step of the handshake ends; `refused` is a failed handshake, or a node with another
protocol, no certificate, or a key that is not the pinned one. -/
inductive Handshake where
  | pending
  | refused
  | done
  deriving DecidableEq

/-- What the loop reports of the channel, with what its system calls will answer. -/
structure ChannelEvents where
  readable : Bool := false
  writable : Bool := false
  error : Bool := false
  connectOk : Bool := true
  handshake : Handshake := .pending
  reads : List Received := []
  deriving DecidableEq

namespace TlsChannel

/-- The channel, unless it is closed. -/
def getOpen : LinkProg (Option TlsChannel) := do
  match (← getNode).channel with
  | none => return none
  | some channel => return if channel.closed then none else some channel

variable (hooks : ChannelHooks)

/-- The channel is closed, and its owner told. -/
def close : LinkProg Unit := do
  match ← getOpen with
  | none => return
  | some _ =>
    modifyChannel fun channel => { channel with closed := true }
    hooks.onClosed

/-- The write loop of `flush`; it answers whether OpenSSL failed. -/
def write (channel : TlsChannel) : LinkProg Bool := do
  if channel.sendBuffer.isEmpty then return false
  let answer ← nextAnswer
  modifyChannel fun channel => { channel with sendBuffer := channel.sendBuffer.drop answer.written }
  return answer.failed && answer.written < channel.sendBuffer.length

/-- Report an emptied buffer whose congestion was reported. -/
def notifyDrained (during : Option Outgoing) : LinkProg Unit := do
  match ← getOpen with
  | none => return
  | some channel =>
    when (channel.sendBuffer.isEmpty ∧ channel.congestedNotified) do
      modifyChannel fun channel => { channel with congestedNotified := false }
      note (.drained during)
      hooks.onDrained

/-- `closeWhenFlushed_` is never set on the client's channel. -/
def flush (during : Option Outgoing) : LinkProg Unit := do
  match ← getOpen with
  | none => return
  | some channel =>
    if ¬ channel.ready then return
    if ← write channel then close hooks
    else notifyDrained hooks during

/-- A frame is written behind those that wait. -/
def send (outgoing : Outgoing) : LinkProg Unit := do
  match ← getOpen with
  | none => return
  | some channel =>
    note (.sent outgoing)
    modifyChannel fun channel => { channel with sendBuffer := channel.sendBuffer ++ outgoing.frame }
    when channel.ready (flush hooks (some outgoing))
    match ← getOpen with
    | none => return
    | some channel =>
      if kSendHardCap ≤ channel.sendBuffer.length then close hooks
      else
        -- `onCongested` is not installed
        when (kSendLimit ≤ channel.sendBuffer.length ∧ ¬ channel.congestedNotified) do
          modifyChannel fun channel => { channel with congestedNotified := true }

/-- The handshake goes on. -/
def stepHandshake : Handshake → LinkProg Unit
  | .pending => pure ()
  | .refused => close hooks
  | .done => do
    modifyChannel fun channel => { channel with ready := true }
    hooks.onConnected

/-- The connection is up, or it failed. -/
def completeConnection (events : ChannelEvents) : LinkProg Unit := do
  if ¬ events.connectOk then close hooks
  else
    modifyChannel fun channel => { channel with connecting := false }
    stepHandshake hooks events.handshake

/-- The read loop of `readAvailable`. -/
def readLoop : List Received → LinkProg Unit
  | [] => pure ()
  | .bytes data :: rest => do
    hooks.onRead data
    match ← getOpen with
    | none => return
    | some channel => if channel.readPaused then return else readLoop rest
  | .eof :: _ => do
    modifyChannel fun channel => { channel with eofSeen := true }
    hooks.onEof
  | .failed :: _ => close hooks

/-- What has come is read and handed on. -/
def readAvailable (reads : List Received) : LinkProg Unit := do
  match ← getOpen with
  | none => return
  | some channel =>
    if channel.eofSeen ∨ channel.readPaused ∨ ¬ channel.ready then return
    readLoop hooks reads

/-- The events of a channel that is not closed. -/
def dispatch (events : ChannelEvents) : LinkProg Unit := do
  match ← getOpen with
  | none => return
  | some channel =>
    if channel.connecting then
      if events.writable ∨ events.error then completeConnection hooks events
      else when events.readable (close hooks)
    else
      when (¬ channel.ready) (stepHandshake hooks events.handshake)
      match ← getOpen with
      | none => return
      | some channel =>
        when channel.ready do
          when events.readable (readAvailable hooks events.reads)
          when events.writable (flush hooks none)
          when events.error (close hooks)

/-! ### What the callbacks owe -/

variable {hooks} {ok : Note → Prop} {P Q R J : List Note → LinkHost → Prop} {h : List Note}
  {s : LinkHost} {during : Option Outgoing} {outgoing : Outgoing}

/-- The channel of a host that may still be used. -/
def openOf (s : LinkHost) : Option TlsChannel :=
  s.node.channel.filter fun channel => !channel.closed

theorem openOf_eq_some {channel : TlsChannel} :
    openOf s = some channel ↔ s.node.channel = some channel ∧ channel.closed = false := by
  simp [openOf, Option.filter_eq_some_iff]

@[simp] theorem wp_getOpen {Q : Option TlsChannel → List Note → LinkHost → Prop} :
    wp ok getOpen Q h s ↔ Q (openOf s) h s := by
  rw [getOpen, wp_bind, wp_getNode]
  rcases hchannel : s.node.channel with _ | channel
  · simp [openOf, hchannel]
  · cases hclosed : channel.closed <;> simp [openOf, Option.filter, hchannel, hclosed]

/-- The callbacks that a flush can call lead from `P` to `Q`. -/
structure Calls (ok : Note → Prop) (hooks : ChannelHooks) (during : Option Outgoing)
    (P Q : List Note → LinkHost → Prop) : Prop where
  stable : Host.Stable P
  buffer : ∀ h s channel sendBuffer, P h s → openOf s = some channel →
    P h (s.withChannel { channel with sendBuffer := sendBuffer })
  weaken : ∀ h s, P h s → Q h s
  onDrained : ∀ h s channel, P h s → openOf s = some channel → channel.sendBuffer = [] →
    ok (.drained during) →
    wp ok hooks.onDrained (fun _ => Q) (h ++ [.drained during])
      (s.withChannel { channel with congestedNotified := false })
  onClosed : ∀ h s channel, P h s → openOf s = some channel →
    wp ok hooks.onClosed (fun _ => Q) h (s.withChannel { channel with closed := true })

theorem wp_close (hnone : openOf s = none → Q h s)
    (hclosed : ∀ channel, openOf s = some channel →
      wp ok hooks.onClosed (fun _ => Q) h (s.withChannel { channel with closed := true })) :
    wp ok (close hooks) (fun _ => Q) h s := by
  rw [close, wp_bind, wp_getOpen]
  rcases hopen : openOf s with _ | channel
  · simpa using hnone hopen
  · simp only [wp_bind, wp_modifyChannel (openOf_eq_some.1 hopen).1]
    exact hclosed channel hopen

namespace Calls

variable {channel : TlsChannel}

theorem close (c : Calls ok hooks during P Q) (hP : P h s) :
    wp ok (TlsChannel.close hooks) (fun _ => Q) h s :=
  wp_close (fun _ => c.weaken h s hP) fun channel => c.onClosed h s channel hP

theorem write (c : Calls ok hooks during P Q) (hP : P h s) (hopen : openOf s = some channel) :
    wp ok (TlsChannel.write channel) (fun _ => P) h s := by
  simp only [TlsChannel.write, wp_ite, wp_bind, wp_pure, nextAnswer, wp_get, wp_modify]
  refine ⟨fun _ => hP, fun _ => ?_⟩
  have hanswers : P h { s with answers := s.answers.tail } :=
    c.stable h s _ (s.touched_answers _ _) hP
  have hopen' : openOf { s with answers := s.answers.tail } = some channel := hopen
  rw [wp_modifyChannel (openOf_eq_some.1 hopen').1]
  exact c.buffer h _ channel _ hanswers hopen'

theorem notifyDrained (c : Calls ok hooks during P Q) (hP : P h s) :
    wp ok (TlsChannel.notifyDrained hooks during) (fun _ => Q) h s := by
  rw [TlsChannel.notifyDrained, wp_bind, wp_getOpen]
  rcases hopen : openOf s with _ | channel
  · simpa using c.weaken h s hP
  · simp only [wp_when, wp_bind, wp_note, List.isEmpty_iff,
      wp_modifyChannel (openOf_eq_some.1 hopen).1]
    exact ⟨fun hempty hok => c.onDrained h s channel hP hopen hempty.1 hok,
      fun _ => c.weaken h s hP⟩

theorem flush (c : Calls ok hooks during P Q) (hP : P h s) :
    wp ok (TlsChannel.flush hooks during) (fun _ => Q) h s := by
  rw [TlsChannel.flush, wp_bind, wp_getOpen]
  rcases hopen : openOf s with _ | channel
  · simpa using c.weaken h s hP
  · simp only [wp_ite, wp_bind, wp_pure]
    refine ⟨fun _ => c.weaken h s hP, fun _ => wp_mono (c.write hP hopen) fun _ h s hP => ?_⟩
    exact ⟨fun _ => c.close hP, fun _ => c.notifyDrained hP⟩

/-- A send: the frame is appended (`P`), the buffer is flushed (`Q`), and what is left of it may
close the channel or congest it (`R`). -/
theorem send (c : Calls ok hooks (some outgoing) P Q) (hnone : openOf s = none → R h s)
    (hsent : ∀ channel, openOf s = some channel → ok (.sent outgoing) →
      P (h ++ [.sent outgoing])
        (s.withChannel { channel with sendBuffer := channel.sendBuffer ++ outgoing.frame }))
    (hshut : ∀ h s, Q h s → openOf s = none → R h s)
    (hclosed : ∀ h s channel, Q h s → openOf s = some channel →
      wp ok hooks.onClosed (fun _ => R) h (s.withChannel { channel with closed := true }))
    (hnotify : ∀ h s channel, Q h s → openOf s = some channel →
      R h (s.withChannel { channel with congestedNotified := true }))
    (hrest : ∀ h s channel, Q h s → openOf s = some channel →
      (channel.congested = true → channel.congestedNotified = true) → R h s) :
    wp ok (TlsChannel.send hooks outgoing) (fun _ => R) h s := by
  rw [TlsChannel.send, wp_bind, wp_getOpen]
  rcases hopen : openOf s with _ | channel
  · simpa using hnone hopen
  simp only [wp_bind, wp_note]
  intro hok
  rw [wp_modifyChannel (openOf_eq_some.1 hopen).1, wp_when]
  have hP := hsent channel hopen hok
  have htail : ∀ h s, Q h s → wp ok getOpen (fun channel h s => wp ok (match channel with
      | none => pure ()
      | some channel =>
        if kSendHardCap ≤ channel.sendBuffer.length then TlsChannel.close hooks
        else
          when (kSendLimit ≤ channel.sendBuffer.length ∧ ¬ channel.congestedNotified) do
            modifyChannel fun channel => { channel with congestedNotified := true })
      (fun _ => R) h s) h s := by
    intro h s hQ
    rw [wp_getOpen]
    rcases hopen : openOf s with _ | channel
    · simpa using hshut h s hQ hopen
    · simp only [wp_ite, wp_when, wp_modifyChannel (openOf_eq_some.1 hopen).1]
      refine ⟨fun _ => wp_close (hshut h s hQ) fun channel => hclosed h s channel hQ, fun _ => ?_⟩
      refine ⟨fun _ => hnotify h s channel hQ hopen, fun hno => ?_⟩
      refine hrest h s channel hQ hopen fun hcong => ?_
      by_contra hquiet
      exact hno ⟨by simpa [congested] using hcong, hquiet⟩
  exact ⟨fun _ => wp_mono (c.flush hP) fun _ h s => htail h s,
    fun _ => htail _ _ (c.weaken _ _ hP)⟩

end Calls

/-- What the callbacks of an event owe to an invariant, and it to them: it does not depend on
the flags of the channel that only its events set. -/
structure Served (ok : Note → Prop) (hooks : ChannelHooks) (J : List Note → LinkHost → Prop) :
    Prop where
  flags : ∀ h s channel channel', J h s → s.node.channel = some channel →
    channel'.sendBuffer = channel.sendBuffer →
    channel'.congestedNotified = channel.congestedNotified → channel'.closed = channel.closed →
    J h (s.withChannel channel')
  flush : Keeps ok J (TlsChannel.flush hooks none)
  close : Keeps ok J (TlsChannel.close hooks)
  onConnected : Keeps ok J hooks.onConnected
  onRead : ∀ data, Keeps ok J (hooks.onRead data)
  onEof : Keeps ok J hooks.onEof

namespace Served

theorem keeps_getOpen : Keeps ok J getOpen := fun _ _ hJ => wp_getOpen.2 hJ

theorem modifyChannel (c : Served ok hooks J) {f : TlsChannel → TlsChannel}
    (hbuffer : ∀ channel, (f channel).sendBuffer = channel.sendBuffer)
    (hnotified : ∀ channel, (f channel).congestedNotified = channel.congestedNotified)
    (hclosed : ∀ channel, (f channel).closed = channel.closed) :
    Keeps ok J (modifyChannel f) := by
  intro h s hJ
  rcases hchannel : s.node.channel with _ | channel
  · have hsame : s.withNode { s.node with channel := s.node.channel.map f } = s := by
      obtain ⟨peers, nextPeer, answers, dials, node⟩ := s
      cases node
      simp_all [LinkHost.withNode]
    rw [Link.modifyChannel, wp_modifyNode, hsame]
    exact hJ
  · rw [wp_modifyChannel hchannel]
    exact c.flags h s channel _ hJ hchannel (hbuffer _) (hnotified _) (hclosed _)

theorem stepHandshake (c : Served ok hooks J) (handshake : Handshake) :
    Keeps ok J (TlsChannel.stepHandshake hooks handshake) := by
  cases handshake with
  | pending => exact .pure ()
  | refused => exact c.close
  | done =>
    exact .bind (c.modifyChannel (fun _ => rfl) (fun _ => rfl) fun _ => rfl) fun _ => c.onConnected

theorem readLoop (c : Served ok hooks J) (reads : List Received) :
    Keeps ok J (TlsChannel.readLoop hooks reads) := by
  induction reads with
  | nil => exact .pure ()
  | cons received rest ih =>
    cases received with
    | bytes data =>
      refine .bind (c.onRead data) fun _ => .bind keeps_getOpen fun channel => ?_
      rcases channel with _ | channel
      · exact .pure _
      · exact .ite (.pure _) ih
    | eof =>
      exact .bind (c.modifyChannel (fun _ => rfl) (fun _ => rfl) fun _ => rfl) fun _ => c.onEof
    | failed => exact c.close

theorem readAvailable (c : Served ok hooks J) (reads : List Received) :
    Keeps ok J (TlsChannel.readAvailable hooks reads) := by
  refine .bind keeps_getOpen fun channel => ?_
  rcases channel with _ | channel
  · exact .pure _
  · exact .ite (.pure _) (c.readLoop reads)

/-- **An event of the channel keeps `J`** when its callbacks do. -/
theorem dispatch (c : Served ok hooks J) (events : ChannelEvents) :
    Keeps ok J (TlsChannel.dispatch hooks events) := by
  refine .bind keeps_getOpen fun channel => ?_
  rcases channel with _ | channel
  · exact .pure _
  refine .ite (.ite (.ite c.close ?_) (.when c.close)) ?_
  · exact .bind (c.modifyChannel (fun _ => rfl) (fun _ => rfl) fun _ => rfl) fun _ =>
      c.stepHandshake _
  refine .bind (.when (c.stepHandshake _)) fun _ => .bind keeps_getOpen fun channel => ?_
  rcases channel with _ | channel
  · exact .pure _
  exact .when (.bind (.when (c.readAvailable _)) fun _ => .bind (.when c.flush) fun _ =>
    .when c.close)

end Served

end TlsChannel

end Link

end ArgusBackend
