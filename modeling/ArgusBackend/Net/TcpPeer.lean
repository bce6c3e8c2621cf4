import ArgusBackend.Library.LittleEndian
import ArgusBackend.Library.Prog
import Mathlib.Logic.Function.Basic

/-!
# The TCP peers of a poll loop

`TcpPeer` is a non-blocking socket with a send buffer and callbacks.  Its functions are callback
programs on a `Host`, the state shared by the peers of one loop and the component that owns them:
a send can drain the buffer or lose the socket, and then it calls the owner before it returns.

The operating system answers through the host: each flush takes an `Answer` (how many bytes the
socket takes, and whether it fails then), each dial a Boolean.  The interest a peer registers with
the loop is not kept: any event may come at any time.

* `wp_close`, `wp_flush`, `wp_send`, … : what the owner has to show of its callbacks for an
  operation to go from a predicate `P` to a predicate `Q`.
-/

namespace ArgusBackend

namespace Net

/-- What may wait before a peer counts as congested. -/
def kSendLimit : ℕ := 256 * 1024

/-- What may wait before a peer is closed. -/
def kSendHardCap : ℕ := 4 * 1024 * 1024

/-- How the socket takes one flush. -/
structure Answer where
  /-- The bytes it takes before it blocks or fails. -/
  written : ℕ
  /-- It fails then, unless nothing is left. -/
  failed : Bool
  deriving DecidableEq, Repr

/-- A peer.  `κ` says which callbacks are installed; `none` is the empty `Callbacks{}`. -/
structure TcpPeer (κ : Type) where
  callbacks : Option κ := none
  dispatchDepth : ℕ := 0
  /-- The callbacks staged during a dispatch. -/
  staged : Option (Option κ) := none
  sendBuffer : Bytes := []
  closeWhenFlushed : Bool := false
  writeShut : Bool := false
  ip : String := ""
  readPaused : Bool := false
  connecting : Bool := false
  connected : Bool := false
  congestedNotified : Bool := false
  eofSeen : Bool := false
  closed : Bool := false
  deriving DecidableEq, Repr

namespace TcpPeer

variable {κ : Type}

/-- Too much waits to be written. -/
def congested (peer : TcpPeer κ) : Bool := kSendLimit ≤ peer.sendBuffer.length

/-- The peer is closed or waits for its buffer to close. -/
def Gone (peer : TcpPeer κ) : Prop := peer.closed = true ∨ peer.closeWhenFlushed = true

/-- A peer is read or not. -/
def setReadPaused (peer : TcpPeer κ) (paused : Bool) : TcpPeer κ :=
  if peer.readPaused = paused ∨ peer.closed then peer else { peer with readPaused := paused }

/-- The callbacks of a peer are changed, later while it dispatches. -/
def setCallbacks (peer : TcpPeer κ) (callbacks : Option κ) : TcpPeer κ :=
  if 0 < peer.dispatchDepth then { peer with staged := some callbacks }
  else { peer with callbacks := callbacks }

/-- Callbacks that were changed while the peer dispatched take effect. -/
def applyStaged (peer : TcpPeer κ) : TcpPeer κ :=
  if 0 < peer.dispatchDepth then peer
  else
    match peer.staged with
    | none => peer
    | some callbacks => { peer with staged := none, callbacks := callbacks }

end TcpPeer

/-- The peers of a loop, what the operating system will answer, and the state of their owner. -/
structure Host (κ τ : Type) where
  peers : ℕ → TcpPeer κ
  nextPeer : ℕ
  answers : List Answer
  dials : List Bool
  node : τ

/-- What a peer was given to call; the callbacks installed at that moment are passed along. -/
structure PeerHooks (κ τ ν : Type) where
  onConnected : Option κ → ℕ → Prog (Host κ τ) ν Unit
  onRead : Option κ → ℕ → Bytes → Prog (Host κ τ) ν Unit
  onEof : Option κ → ℕ → Prog (Host κ τ) ν Unit
  onDrained : Option κ → ℕ → Prog (Host κ τ) ν Unit
  onClosed : Option κ → ℕ → Prog (Host κ τ) ν Unit

/-- What a read of the socket brings; a read that would block ends the list. -/
inductive Received where
  | bytes (data : Bytes)
  | eof
  | failed
  deriving DecidableEq, Repr

/-- What the loop reports of a peer, with what its system calls will answer. -/
structure PollEvents where
  /-- `EPOLLIN`, `EPOLLHUP` or `EPOLLRDHUP`. -/
  readable : Bool := false
  /-- `EPOLLOUT`. -/
  writable : Bool := false
  /-- `EPOLLERR`. -/
  error : Bool := false
  /-- The socket has no pending error when a dial completes. -/
  connectOk : Bool := true
  reads : List Received := []
  deriving DecidableEq, Repr

variable {κ τ ν : Type}

namespace Host

/-- A peer of the host is changed. -/
def setPeer (s : Host κ τ) (p : ℕ) (peer : TcpPeer κ) : Host κ τ :=
  { s with peers := Function.update s.peers p peer }

end Host

/-- A change of a peer's socket: the callbacks stay, and what is closing goes on closing. -/
structure Touch (peer peer' : TcpPeer κ) : Prop where
  callbacks : peer'.callbacks = peer.callbacks
  staged : peer'.staged = peer.staged
  closeWhenFlushed : peer.closeWhenFlushed = true → peer'.closeWhenFlushed = true
  closed : peer.closed = true → peer'.closed = true

theorem Touch.refl (peer : TcpPeer κ) : Touch peer peer := ⟨rfl, rfl, id, id⟩

theorem Touch.gone {peer peer' : TcpPeer κ} (h : Touch peer peer') (hgone : peer.Gone) :
    peer'.Gone :=
  hgone.imp h.closed h.closeWhenFlushed

namespace Host

/-- `s'` differs from `s` in the sockets only. -/
structure Touched (s s' : Host κ τ) : Prop where
  node : s'.node = s.node
  nextPeer : s'.nextPeer = s.nextPeer
  peers : ∀ p, Touch (s.peers p) (s'.peers p)

/-- `P` does not depend on the state of the sockets. -/
def Stable (P : List ν → Host κ τ → Prop) : Prop := ∀ h s s', Touched s s' → P h s → P h s'

theorem touched_setPeer (s : Host κ τ) (p : ℕ) {peer : TcpPeer κ} (h : Touch (s.peers p) peer) :
    Touched s (s.setPeer p peer) where
  node := rfl
  nextPeer := rfl
  peers q := by
    by_cases hq : q = p
    · subst hq
      simpa [setPeer] using h
    · simpa [setPeer, hq] using Touch.refl _

/-- Only the answers of the operating system differ. -/
theorem touched_answers (s : Host κ τ) (answers : List Answer) (dials : List Bool) :
    Touched s { s with answers := answers, dials := dials } :=
  ⟨rfl, rfl, fun _ => .refl _⟩

end Host

/-! ### The functions -/

open Prog

/-- Change a peer. -/
def modifyPeer (p : ℕ) (f : TcpPeer κ → TcpPeer κ) : Prog (Host κ τ) ν Unit :=
  modify fun s => s.setPeer p (f (s.peers p))

/-- A peer of the host. -/
def getPeer (p : ℕ) : Prog (Host κ τ) ν (TcpPeer κ) := do
  return (← get).peers p

/-- The next answer of a socket; without one it blocks. -/
def nextAnswer : Prog (Host κ τ) ν Answer := do
  let s ← get
  modify fun s => { s with answers := s.answers.tail }
  return s.answers.headD ⟨0, false⟩

/-- The next answer of a dial. -/
def nextDial : Prog (Host κ τ) ν Bool := do
  let s ← get
  modify fun s => { s with dials := s.dials.tail }
  return s.dials.headD true

/-- Add a peer to the loop. -/
def addPeer (peer : TcpPeer κ) : Prog (Host κ τ) ν ℕ := do
  let s ← get
  modify fun s => { s.setPeer s.nextPeer peer with nextPeer := s.nextPeer + 1 }
  return s.nextPeer

namespace TcpPeer

/-- A peer for an accepted socket; none when the loop cannot watch it. -/
def adopt (ip : String) : Prog (Host κ τ) ν (Option ℕ) := do
  if ← nextDial then
    let p ← addPeer { ip := ip, connected := true }
    return some p
  else
    return none

/-- A peer that is being dialled; none when the dial fails at once. -/
def connect (callbacks : κ) : Prog (Host κ τ) ν (Option ℕ) := do
  if ← nextDial then
    let p ← addPeer { callbacks := some callbacks, connecting := true }
    return some p
  else
    return none

variable (hooks : PeerHooks κ τ ν)

/-- A peer is closed, and its owner told. -/
def close (p : ℕ) : Prog (Host κ τ) ν Unit := do
  let peer ← getPeer p
  if peer.closed then return
  modifyPeer p fun peer => { peer with closed := true }
  hooks.onClosed peer.callbacks p

/-- The write loop of `flush`; it answers whether the socket failed. -/
def write (p : ℕ) : Prog (Host κ τ) ν Bool := do
  let peer ← getPeer p
  if peer.sendBuffer.isEmpty then return false
  let answer ← nextAnswer
  modifyPeer p fun peer => { peer with sendBuffer := peer.sendBuffer.drop answer.written }
  return answer.failed && answer.written < peer.sendBuffer.length

/-- Report an emptied buffer whose congestion was reported. -/
def notifyDrained (p : ℕ) : Prog (Host κ τ) ν Unit := do
  let peer ← getPeer p
  when (peer.sendBuffer.isEmpty ∧ peer.congestedNotified) do
    modifyPeer p fun peer => { peer with congestedNotified := false }
    hooks.onDrained peer.callbacks p

/-- The half close of a peer that waits for its buffer. -/
def shutWhenFlushed (p : ℕ) : Prog (Host κ τ) ν Unit := do
  let peer ← getPeer p
  when (peer.sendBuffer.isEmpty ∧ peer.closeWhenFlushed ∧ ¬ peer.writeShut ∧ ¬ peer.closed) do
    if peer.eofSeen then close hooks p
    else modifyPeer p fun peer => { peer with writeShut := true }

/-- What waits is written, as far as the socket takes it. -/
def flush (p : ℕ) : Prog (Host κ τ) ν Unit := do
  let peer ← getPeer p
  if peer.closed ∨ peer.connecting then return
  if ← write p then close hooks p
  else
    notifyDrained hooks p
    shutWhenFlushed hooks p

/-- Bytes are written behind those that wait. -/
def send (p : ℕ) (data : Bytes) : Prog (Host κ τ) ν Unit := do
  let peer ← getPeer p
  if peer.closed then return
  modifyPeer p fun peer => { peer with sendBuffer := peer.sendBuffer ++ data }
  flush hooks p
  let peer ← getPeer p
  if kSendHardCap ≤ peer.sendBuffer.length then close hooks p
  else
    -- `onCongested` is installed nowhere
    when (kSendLimit ≤ peer.sendBuffer.length ∧ ¬ peer.congestedNotified) do
      modifyPeer p fun peer => { peer with congestedNotified := true }

/-- The method `closeWhenFlushed`, whose name the flag keeps. -/
def closeOnceFlushed (p : ℕ) : Prog (Host κ τ) ν Unit := do
  let peer ← getPeer p
  if peer.closed ∨ peer.closeWhenFlushed then return
  modifyPeer p fun peer => { peer with closeWhenFlushed := true, readPaused := false }
  flush hooks p

/-- The read loop of `readAvailable`. -/
def readLoop (p : ℕ) : List Received → Prog (Host κ τ) ν Unit
  | [] => pure ()
  | .bytes data :: rest => do
    let peer ← getPeer p
    when (¬ peer.closeWhenFlushed) (hooks.onRead peer.callbacks p data)
    let peer ← getPeer p
    if peer.closed ∨ peer.readPaused then return
    readLoop p rest
  | .eof :: _ => do
    let peer ← getPeer p
    modifyPeer p fun peer => { peer with eofSeen := true }
    hooks.onEof peer.callbacks p
    let peer ← getPeer p
    when (peer.writeShut ∧ ¬ peer.closed) (close hooks p)
  | .failed :: _ => close hooks p

/-- What has come is read and handed on. -/
def readAvailable (p : ℕ) (reads : List Received) : Prog (Host κ τ) ν Unit := do
  let peer ← getPeer p
  if peer.eofSeen then return
  readLoop hooks p reads

/-- The connection is up, or it failed. -/
def handleConnectionComplete (p : ℕ) (connectOk : Bool) : Prog (Host κ τ) ν Unit := do
  let peer ← getPeer p
  if ¬ connectOk then
    modifyPeer p fun peer => { peer with closed := true }
    hooks.onClosed peer.callbacks p
  else
    modifyPeer p fun peer => { peer with connecting := false, connected := true }
    hooks.onConnected peer.callbacks p
    let peer ← getPeer p
    when (peer.closeWhenFlushed ∧ ¬ peer.closed) (flush hooks p)

/-- The events of a peer that is not closed. -/
def dispatch (p : ℕ) (events : PollEvents) : Prog (Host κ τ) ν Unit := do
  let peer ← getPeer p
  if peer.closed then return
  if peer.connecting ∧ events.writable then handleConnectionComplete hooks p events.connectOk
  else
    when events.readable (readAvailable hooks p events.reads)
    let peer ← getPeer p
    if peer.closed then return
    when (events.writable ∨ events.error) (flush hooks p)
    let peer ← getPeer p
    when (events.error ∧ ¬ peer.closed) (close hooks p)

/-- The events of a peer; callbacks that it changes on the way take effect after them. -/
def handleEvents (p : ℕ) (events : PollEvents) : Prog (Host κ τ) ν Unit := do
  modifyPeer p fun peer => { peer with dispatchDepth := peer.dispatchDepth + 1 }
  dispatch hooks p events
  modifyPeer p fun peer => applyStaged { peer with dispatchDepth := peer.dispatchDepth - 1 }

/-! ### What the callbacks owe -/

variable {hooks} {ok : ν → Prop} {P Q J : List ν → Host κ τ → Prop} {p : ℕ} {h : List ν}
  {s : Host κ τ}

/-- A change of a peer's socket keeps what does not depend on the sockets. -/
theorem wp_modifyPeer {f : TcpPeer κ → TcpPeer κ} (hP : Host.Stable P) (hs : P h s)
    (hf : Touch (s.peers p) (f (s.peers p))) : wp ok (modifyPeer p f) (fun _ => P) h s :=
  wp_modify.2 (hP h s _ (s.touched_setPeer p hf) hs)

@[simp] theorem wp_getPeer {Q : TcpPeer κ → List ν → Host κ τ → Prop} :
    wp ok (getPeer p) Q h s ↔ Q (s.peers p) h s := by
  simp only [getPeer, wp_bind, wp_get, wp_pure]

@[simp] theorem yields_getPeer {Q : TcpPeer κ → List ν → Host κ τ → Prop} :
    yields (getPeer p) Q h s ↔ Q (s.peers p) h s := by
  simp only [getPeer, yields_bind, yields_get, yields_pure]

@[simp] theorem yields_modifyPeer {f : TcpPeer κ → TcpPeer κ} {Q : Unit → List ν → Host κ τ → Prop} :
    yields (modifyPeer p f) Q h s ↔ Q () h (s.setPeer p (f (s.peers p))) :=
  yields_modify

theorem keeps_getPeer : Keeps ok P (getPeer p : Prog (Host κ τ) ν (TcpPeer κ)) :=
  .bind .get fun _ => .pure _

theorem wp_nextAnswer (hP : Host.Stable P) (hs : P h s) :
    wp ok (nextAnswer : Prog (Host κ τ) ν Answer) (fun _ => P) h s := by
  simp only [nextAnswer, wp_bind, wp_get, wp_modify, wp_pure]
  exact hP h s _ (s.touched_answers _ _) hs

/-- Closing a peer: `P` leads to `Q` when the socket is closed, and the callback keeps it. -/
theorem wp_close (hclosed : (s.peers p).closed = true → Q h s)
    (hclose : Q h (s.setPeer p { s.peers p with closed := true }))
    (hcall : ∀ h s, Q h s → wp ok (hooks.onClosed (s.peers p).callbacks p) (fun _ => Q) h s) :
    wp ok (close hooks p) (fun _ => Q) h s := by
  simp only [close, wp_bind, wp_getPeer, wp_pure, wp_ite]
  refine ⟨hclosed, fun _ => wp_modify.2 ?_⟩
  simpa [Host.setPeer] using hcall h _ hclose

theorem keeps_close (hQ : Host.Stable Q)
    (hcall : ∀ h s, Q h s → wp ok (hooks.onClosed (s.peers p).callbacks p) (fun _ => Q) h s) :
    Keeps ok Q (close hooks p) :=
  fun h s hs => wp_close (fun _ => hs)
    (hQ h s _ (s.touched_setPeer p ⟨rfl, rfl, id, fun _ => rfl⟩) hs) hcall

/-- The callbacks of `p` that a send can call lead from `P` to `Q`. -/
structure Calls (ok : ν → Prop) (hooks : PeerHooks κ τ ν) (p : ℕ)
    (P Q : List ν → Host κ τ → Prop) : Prop where
  stable : Host.Stable P
  stable' : Host.Stable Q
  weaken : ∀ h s, P h s → Q h s
  onDrained : ∀ h s, P h s →
    wp ok (hooks.onDrained (s.peers p).callbacks p) (fun _ => Q) h s
  onClosed : ∀ h s, Q h s →
    wp ok (hooks.onClosed (s.peers p).callbacks p) (fun _ => Q) h s

namespace Calls

theorem close (c : Calls ok hooks p P Q) : Keeps ok Q (TcpPeer.close hooks p) :=
  keeps_close c.stable' c.onClosed

theorem write (c : Calls ok hooks p P Q) : Keeps ok P (TcpPeer.write (ν := ν) (τ := τ) p) := by
  intro h s hP
  simp only [TcpPeer.write, getPeer, wp_bind, wp_get, wp_pure, wp_ite]
  refine ⟨fun _ => hP, fun _ => wp_mono (wp_nextAnswer c.stable hP) fun answer h s hP => ?_⟩
  exact wp_modifyPeer c.stable hP ⟨rfl, rfl, id, id⟩

theorem notifyDrained (c : Calls ok hooks p P Q) (hP : P h s) :
    wp ok (TcpPeer.notifyDrained hooks p) (fun _ => Q) h s := by
  simp only [TcpPeer.notifyDrained, getPeer, wp_bind, wp_get, wp_pure, wp_when]
  refine ⟨fun _ => wp_modify.2 ?_, fun _ => c.weaken h s hP⟩
  have htouched : Host.Touched s (s.setPeer p { s.peers p with congestedNotified := false }) :=
    s.touched_setPeer p ⟨rfl, rfl, id, id⟩
  have := c.onDrained h _ (c.stable h s _ htouched hP)
  rwa [(htouched.peers p).callbacks] at this

theorem shutWhenFlushed (c : Calls ok hooks p P Q) :
    Keeps ok Q (TcpPeer.shutWhenFlushed hooks p) := by
  intro h s hQ
  simp only [TcpPeer.shutWhenFlushed, getPeer, wp_bind, wp_get, wp_pure, wp_when, wp_ite]
  exact ⟨fun _ => ⟨fun _ => c.close h s hQ,
    fun _ => wp_modifyPeer c.stable' hQ ⟨rfl, rfl, id, id⟩⟩, fun _ => hQ⟩

theorem flush (c : Calls ok hooks p P Q) (hP : P h s) :
    wp ok (TcpPeer.flush hooks p) (fun _ => Q) h s := by
  simp only [TcpPeer.flush, getPeer, wp_bind, wp_get, wp_pure, wp_ite]
  refine ⟨fun _ => c.weaken h s hP, fun _ => wp_mono (c.write h s hP) fun _ h' s' hP' => ?_⟩
  exact ⟨fun _ => c.close h' s' (c.weaken h' s' hP'),
    fun _ => wp_mono (c.notifyDrained hP') fun _ h'' s'' => c.shutWhenFlushed h'' s''⟩

theorem send (c : Calls ok hooks p P Q) (data : Bytes) (hP : P h s) :
    wp ok (TcpPeer.send hooks p data) (fun _ => Q) h s := by
  simp only [TcpPeer.send, getPeer, wp_bind, wp_get, wp_pure, wp_ite, wp_when]
  refine ⟨fun _ => c.weaken h s hP, fun _ => wp_mono (wp_modifyPeer c.stable hP ⟨rfl, rfl, id, id⟩) ?_⟩
  refine fun _ h s hP => wp_mono (c.flush hP) fun _ h s hQ => ?_
  exact ⟨fun _ => c.close h s hQ,
    fun _ => ⟨fun _ => wp_modifyPeer c.stable' hQ ⟨rfl, rfl, id, id⟩, fun _ => hQ⟩⟩

theorem closeOnceFlushed (c : Calls ok hooks p Q Q) (hgone : (s.peers p).Gone → Q h s)
    (hclosing : Q h (s.setPeer p { s.peers p with closeWhenFlushed := true, readPaused := false })) :
    wp ok (TcpPeer.closeOnceFlushed hooks p) (fun _ => Q) h s := by
  simp only [TcpPeer.closeOnceFlushed, getPeer, wp_bind, wp_get, wp_pure, wp_ite]
  exact ⟨hgone, fun _ => wp_modify.2 (c.flush hclosing)⟩

end Calls

/-- The callbacks of `p` all keep `J`, which does not depend on the sockets. -/
structure Served (ok : ν → Prop) (hooks : PeerHooks κ τ ν) (p : ℕ)
    (J : List ν → Host κ τ → Prop) : Prop extends Calls ok hooks p J J where
  onConnected : ∀ h s, J h s →
    wp ok (hooks.onConnected (s.peers p).callbacks p) (fun _ => J) h s
  onRead : ∀ data h s, J h s → (s.peers p).closed = false → (s.peers p).closeWhenFlushed = false →
    wp ok (hooks.onRead (s.peers p).callbacks p data) (fun _ => J) h s
  onEof : ∀ h s, J h s → wp ok (hooks.onEof (s.peers p).callbacks p) (fun _ => J) h s
  /-- So does putting the staged callbacks in place. -/
  applied : ∀ h s, J h s → J h (s.setPeer p (applyStaged (s.peers p)))

namespace Served

/-- Reading goes on only while the peer is open. -/
theorem readLoop (c : Served ok hooks p J) (reads : List Received) (hJ : J h s)
    (hopen : (s.peers p).closed = false) :
    wp ok (TcpPeer.readLoop hooks p reads) (fun _ => J) h s := by
  induction reads generalizing h s with
  | nil => exact wp_pure.2 hJ
  | cons received rest ih =>
    cases received with
    | bytes data =>
      have hread : wp ok (when (¬ (s.peers p).closeWhenFlushed)
          (hooks.onRead (s.peers p).callbacks p data)) (fun _ => J) h s :=
        wp_when.2 ⟨fun hread => c.onRead data h s hJ hopen (by simpa using hread), fun _ => hJ⟩
      rw [TcpPeer.readLoop, wp_bind, wp_getPeer, wp_bind]
      refine wp_mono hread fun _ h s hJ => ?_
      rw [wp_bind, wp_getPeer, wp_ite, wp_pure]
      exact ⟨fun _ => hJ, fun hgo => ih hJ (by simpa using (not_or.1 hgo).1)⟩
    | eof =>
      simp only [TcpPeer.readLoop, getPeer, wp_bind, wp_get, wp_pure, wp_when]
      refine wp_modify.2 ?_
      have htouched : Host.Touched s (s.setPeer p { s.peers p with eofSeen := true }) :=
        s.touched_setPeer p ⟨rfl, rfl, id, id⟩
      have heof := c.onEof h _ (c.stable h s _ htouched hJ)
      rw [(htouched.peers p).callbacks] at heof
      exact wp_mono heof fun _ h s hJ => ⟨fun _ => c.close h s hJ, fun _ => hJ⟩
    | failed => exact c.close h s hJ

theorem handleConnectionComplete (c : Served ok hooks p J) (connectOk : Bool) :
    Keeps ok J (TcpPeer.handleConnectionComplete hooks p connectOk) := by
  intro h s hJ
  simp only [TcpPeer.handleConnectionComplete, getPeer, wp_bind, wp_get, wp_pure, wp_ite, wp_when]
  refine ⟨fun _ => wp_modify.2 ?_, fun _ => wp_modify.2 ?_⟩
  · have htouched : Host.Touched s (s.setPeer p { s.peers p with closed := true }) :=
      s.touched_setPeer p ⟨rfl, rfl, id, fun _ => rfl⟩
    have := c.onClosed h _ (c.stable h s _ htouched hJ)
    rwa [(htouched.peers p).callbacks] at this
  · have htouched : Host.Touched s
        (s.setPeer p { s.peers p with connecting := false, connected := true }) :=
      s.touched_setPeer p ⟨rfl, rfl, id, id⟩
    have hconnected := c.onConnected h _ (c.stable h s _ htouched hJ)
    rw [(htouched.peers p).callbacks] at hconnected
    exact wp_mono hconnected fun _ h s hJ => ⟨fun _ => c.flush hJ, fun _ => hJ⟩

theorem dispatch (c : Served ok hooks p J) (events : PollEvents) :
    Keeps ok J (TcpPeer.dispatch hooks p events) := by
  intro h s hJ
  have hclose : Keeps ok J (TcpPeer.close hooks p) := c.close
  have hflush : Keeps ok J (TcpPeer.flush hooks p) := fun _ _ => c.flush
  have hrest : Keeps ok J (do
      let peer ← getPeer p
      if peer.closed then return
      when (events.writable ∨ events.error) (TcpPeer.flush hooks p)
      let peer ← getPeer p
      when (events.error ∧ ¬ peer.closed) (TcpPeer.close hooks p)) :=
    .bind keeps_getPeer fun _ => .ite (.pure _) <| .bind (.when hflush) fun _ =>
      .bind keeps_getPeer fun _ => .when hclose
  rw [TcpPeer.dispatch, wp_bind, wp_getPeer, wp_ite, wp_pure, wp_ite, wp_bind, wp_when]
  refine ⟨fun _ => hJ, fun hopen => ⟨fun _ => c.handleConnectionComplete _ h s hJ, fun _ => ?_⟩⟩
  refine ⟨fun _ => ?_, fun _ => hrest h s hJ⟩
  rw [TcpPeer.readAvailable, wp_bind, wp_getPeer, wp_ite, wp_pure]
  exact ⟨fun _ => hrest h s hJ, fun _ => wp_mono (c.readLoop _ hJ (by simpa using hopen))
    fun _ h s => hrest h s⟩

/-- **An event of a peer keeps `J`** when its callbacks do. -/
theorem handleEvents (c : Served ok hooks p J) (events : PollEvents) :
    Keeps ok J (TcpPeer.handleEvents hooks p events) := by
  intro h s hJ
  simp only [TcpPeer.handleEvents, wp_bind]
  refine wp_mono (wp_modifyPeer c.stable hJ ⟨rfl, rfl, id, id⟩) fun _ h s hJ =>
    wp_mono (c.dispatch events h s hJ) fun _ h s hJ => ?_
  refine wp_modify.2 ?_
  have htouched : Host.Touched s
      (s.setPeer p { s.peers p with dispatchDepth := (s.peers p).dispatchDepth - 1 }) :=
    s.touched_setPeer p ⟨rfl, rfl, id, id⟩
  have happlied := c.applied h _ (c.stable h s _ htouched hJ)
  simpa [Host.setPeer] using happlied

end Served

end TcpPeer

end Net

end ArgusBackend
