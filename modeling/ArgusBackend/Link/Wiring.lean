import ArgusBackend.Link.ClientRules

/-!
# Which local peer serves which stream

A local peer names its stream by the id in its callbacks, and a stream its local peer by
`localPeer`.  The two agree whenever an event ends, although ids are used again and callbacks are
cleared late:

* `Calm` : outside the handling of frames, nothing is opened, dialled or queued;
* `Wired` : a stream's local peer calls back for that stream, and a peer that reads serves an
  open stream; the peers in `O` are on their way out;
* `wired_events` : every event keeps the wiring, whatever its notes.
-/

namespace ArgusBackend

namespace Link

open Net Prog

/-! ### Outside the handling of frames -/

/-- Nothing was opened, dialled or queued since the table was `streams₀`, and the link is read. -/
structure Calm (streams₀ : Table UInt32 Stream) (s : LinkHost) : Prop where
  reading : s.node.linkReadPaused = false
  known : ∀ streamId stream, s.node.streams.lookup streamId = some stream →
    ∃ stream₀, streams₀.lookup streamId = some stream₀ ∧
      stream.localPeer = stream₀.localPeer ∧
      (stream₀.pendingToLocal = [] → stream.pendingToLocal = [])

/-- The invariant on runs. -/
def CalmInv (streams₀ : Table UInt32 Stream) : List Note → LinkHost → Prop :=
  fun _ s => Calm streams₀ s

/-- What the entry points of the client do while no frame is handled. -/
structure CalmKernel (ok : Note → Prop) (k : Kernel) : Prop where
  channelDrained : ∀ streams₀, Keeps ok (CalmInv streams₀) k.channelDrained
  channelClosed : ∀ streams₀, Keeps ok (CalmInv streams₀) k.channelClosed
  localDrained : ∀ streams₀ streamId p, Keeps ok (CalmInv streams₀) (k.localDrained streamId p)
  localClosed : ∀ streams₀ streamId p, Keeps ok (CalmInv streams₀) (k.localClosed streamId p)

section Calm

variable {options : LinkOptions} {k : Kernel} {ok : Note → Prop} {streams₀ : Table UInt32 Stream}
  {s : LinkHost} {streamId : UInt32} {p : ℕ}

theorem Calm.start (hread : s.node.linkReadPaused = false) : Calm s.node.streams s :=
  ⟨hread, fun _ stream hfound => ⟨stream, hfound, rfl, id⟩⟩

theorem Calm.adjust {f : Stream → Stream} {node : LinkState} (hcalm : Calm streams₀ s)
    (hstreams : node.streams = s.node.streams.adjust streamId f)
    (hread : node.linkReadPaused = s.node.linkReadPaused)
    (hlocal : ∀ stream, (f stream).localPeer = stream.localPeer)
    (hpending : ∀ stream, stream.pendingToLocal = [] → (f stream).pendingToLocal = []) :
    Calm streams₀ (s.withNode node) where
  reading := hread.trans hcalm.reading
  known id stream hfound := by
    replace hfound : node.streams.lookup id = some stream := hfound
    rw [hstreams] at hfound
    rcases Table.lookup_adjust.1 hfound with ⟨rfl, before, hbefore, rfl⟩ | ⟨-, hbefore⟩
    · obtain ⟨stream₀, hfound₀, hlocal₀, hempty⟩ := hcalm.known id before hbefore
      exact ⟨stream₀, hfound₀, (hlocal before).trans hlocal₀, fun h => hpending _ (hempty h)⟩
    · exact hcalm.known id stream hbefore

theorem Calm.mapEntries {f : Stream → Stream} (hcalm : Calm streams₀ s)
    (hlocal : ∀ stream, (f stream).localPeer = stream.localPeer)
    (hpending : ∀ stream, (f stream).pendingToLocal = stream.pendingToLocal) :
    Calm streams₀ (s.withNode { s.node with streams := s.node.streams.mapEntries f }) where
  reading := hcalm.reading
  known id stream hfound := by
    replace hfound : (s.node.streams.mapEntries f).lookup id = some stream := hfound
    rw [Table.lookup_mapEntries, Option.map_eq_some_iff] at hfound
    obtain ⟨before, hbefore, rfl⟩ := hfound
    rw [hlocal, hpending]
    exact hcalm.known id before hbefore

theorem Calm.removeStream {moved : Stream} (hcalm : Calm streams₀ s) :
    Calm streams₀ (s.withNode (s.node.removeStream streamId moved)) where
  reading := hcalm.reading
  known id stream hfound := by
    replace hfound : (s.node.streams.erase streamId).lookup id = some stream := hfound
    by_cases hid : id = streamId
    · rw [hid, AList.lookup_erase] at hfound
      cases hfound
    · rw [AList.lookup_erase_ne hid] at hfound
      exact hcalm.known id stream hfound

theorem calm_core : Core (CalmInv streams₀) where
  stable h s s' htouched hcalm := by
    obtain ⟨hread, hknown⟩ := hcalm
    rw [← htouched.node] at hread hknown
    exact ⟨hread, hknown⟩
  node h s node haside hcalm := by
    obtain ⟨hread, hknown⟩ := hcalm
    rw [← haside.linkReadPaused] at hread
    rw [← haside.streams] at hknown
    exact ⟨hread, hknown⟩
  stream h s streamId f hf hcalm :=
    hcalm.adjust rfl rfl hf.localPeer fun stream h => (hf.pendingToLocal stream).trans h
  note h s n hn hcalm := hcalm

theorem calm_resumeLinkRead : Keeps ok (CalmInv streams₀) (resumeLinkRead options k) :=
  fun h s hcalm => by simp [resumeLinkRead, hcalm.reading, hcalm]

theorem calm_resumeLocalReads : Keeps ok (CalmInv streams₀) (resumeLocalReads options) :=
  calm_core.keeps_resumeLocalReads fun _ _ hcalm => hcalm.mapEntries
    (fun stream => by unfold resumeRead; split <;> rfl)
    fun stream => by unfold resumeRead; split <;> rfl

variable (K : CalmKernel ok k)

include K

theorem calm_send (outgoing : Outgoing) :
    Keeps ok (CalmInv streams₀) (sendFrameToNode k outgoing) :=
  keeps_sendFrameToNode calm_core (fun _ _ _ _ hcalm _ => ⟨hcalm.reading, hcalm.known⟩)
    (fun _ _ hcalm => hcalm) (fun _ _ hcalm => hcalm) (K.channelDrained _) (K.channelClosed _)

theorem calm_calls :
    TcpPeer.Calls ok (localHooks k) p (CalmInv streams₀) (CalmInv streams₀) :=
  localHooks_calls calm_core calm_core (fun _ _ hcalm => hcalm)
    (fun h s id hcalm _ => K.localDrained _ id p h s hcalm)
    fun h s id hcalm _ => K.localClosed _ id p h s hcalm

theorem calm_closeLocal {reason : CloseReason} :
    Keeps ok (CalmInv streams₀) (closeLocal options k streamId reason) := by
  refine fun h s hcalm => wp_closeLocal (fun _ => hcalm) fun moved _ => ?_
  refine wp_announceClosed
    (fun outgoing _ => calm_send K outgoing) (fun _ _ _ => id) (fun p _ h s hcalm => ?_)
    calm_resumeLinkRead hcalm.removeStream
  exact wp_releaseLocal calm_core (calm_calls K) (calm_calls K)
    (fun _ _ _ hcalm _ _ => ⟨hcalm.reading, hcalm.known⟩) ⟨hcalm.reading, hcalm.known⟩

theorem calm_closeLink : Keeps ok (CalmInv streams₀) (closeLink options k) := by
  refine fun h s hcalm => wp_closeLink (fun _ => hcalm) ⟨hcalm.reading, hcalm.known⟩
    (fun _ => calm_closeLocal K) fun h s node _ _ hempty _ _ _ hread => ⟨hread, ?_⟩
  intro id stream hfound
  replace hfound : node.streams.lookup id = some stream := hfound
  rw [hempty] at hfound
  cases hfound

theorem calm_flushToHome : Keeps ok (CalmInv streams₀) (flushToHome options k streamId) := by
  refine Core.keeps_flushToHome (fun stream => calm_core.keeps_finishFlush (calm_closeLocal K)
    ?_ calm_resumeLocalReads)
    (fun _ => calm_send K _) (fun _ => ?_) fun _ => ?_
  · exact fun h s hcalm => wp_modifyStream.2 (hcalm.adjust rfl rfl (fun _ => rfl) fun _ => id)
  · exact fun h s hcalm => wp_modifyStream.2 (hcalm.adjust rfl rfl (fun _ => rfl) fun _ => id)
  · exact fun h s hcalm => wp_modifyNode.2 ⟨hcalm.reading, hcalm.known⟩

theorem calm_flushToLocal : Keeps ok (CalmInv streams₀) (flushToLocal options k streamId) := by
  refine calm_core.keeps_flushToLocal ?_ (fun _ => ?_)
    (fun p bytes _ _ => (calm_calls K).send bytes) (fun outgoing _ => calm_send K outgoing)
    calm_resumeLinkRead
  · exact fun h s hcalm => wp_modifyStream.2 (hcalm.adjust rfl rfl (fun _ => rfl) fun _ _ => rfl)
  · exact fun h s hcalm => wp_modifyNode.2 ⟨hcalm.reading, hcalm.known⟩

end Calm

/-- The client is calm outside the handling of frames, however deep its calls nest. -/
theorem calm_kernel (options : LinkOptions) (ok : Note → Prop) (n : ℕ) :
    CalmKernel ok (kernel options n) := by
  induction n with
  | zero =>
    exact ⟨fun _ => .stuck, fun _ => .stuck, fun _ _ _ => .stuck, fun _ _ _ => .stuck⟩
  | succ n ih =>
    exact
      { channelDrained := fun _ => Core.keeps_onChannelDrained (fun _ => calm_flushToHome ih)
          calm_resumeLocalReads calm_resumeLinkRead
        channelClosed := fun _ => calm_closeLink ih
        localDrained := fun _ _ _ => Core.keeps_onLocalDrained (calm_flushToLocal ih)
        localClosed := fun _ _ _ => Core.keeps_onLocalClosed fun _ _ => calm_closeLocal ih }

/-! ### The wiring -/

/-- Streams and local peers agree.  The peers in `O` have lost their stream and are about to be
released, those in `G` are known to be gone. -/
structure Wired (O G : ℕ → Prop) (s : LinkHost) : Prop where
  served : ∀ streamId stream p, s.node.streams.lookup streamId = some stream →
    stream.localPeer = some p → stream.routed = true ∧ p < s.nextPeer ∧
      (s.peers p).callbacks = some streamId ∧ (s.peers p).staged = none ∧ ¬ O p
  silent : ∀ p streamId, ¬ O p → (s.peers p).callbacks = some streamId → (s.peers p).Gone ∨
    ∃ stream, s.node.streams.lookup streamId = some stream ∧ stream.localPeer = some p
  staged : ∀ p callbacks, (s.peers p).staged = some callbacks → callbacks = none
  orphans : ∀ p, O p → p < s.nextPeer
  gone : ∀ p, G p → p < s.nextPeer ∧ (s.peers p).Gone

/-- The invariant on runs. -/
def WiredInv (O G : ℕ → Prop) : List Note → LinkHost → Prop := fun _ s => Wired O G s

/-- The entry points of the client keep the wiring. -/
structure WiredKernel (ok : Note → Prop) (k : Kernel) : Prop where
  channelDrained : ∀ O G, Keeps ok (WiredInv O G) k.channelDrained
  channelClosed : ∀ O G, Keeps ok (WiredInv O G) k.channelClosed
  localDrained : ∀ O G streamId p, Keeps ok (WiredInv O G) (k.localDrained streamId p)
  localClosed : ∀ O G streamId p, Keeps ok (WiredInv O G) (k.localClosed streamId p)
  pumpFrames : ∀ O G, Keeps ok (WiredInv O G) k.pumpFrames

section Wired

variable {options : LinkOptions} {k : Kernel} {ok : Note → Prop} {O G O' G' : ℕ → Prop}
  {s s' : LinkHost} {node : LinkState} {streamId : UInt32} {p : ℕ}

theorem Wired.touched (hwired : Wired O G s) (htouched : Host.Touched s s') : Wired O G s' where
  served id stream q hfound hlocal := by
    rw [htouched.node] at hfound
    obtain ⟨hrouted, hlt, hcallbacks, hstaged, hO⟩ := hwired.served id stream q hfound hlocal
    rw [htouched.nextPeer, (htouched.peers q).callbacks, (htouched.peers q).staged]
    exact ⟨hrouted, hlt, hcallbacks, hstaged, hO⟩
  silent q id hO hcallbacks := by
    rw [(htouched.peers q).callbacks] at hcallbacks
    rw [htouched.node]
    exact (hwired.silent q id hO hcallbacks).imp_left (htouched.peers q).gone
  staged q callbacks hstaged := by
    rw [(htouched.peers q).staged] at hstaged
    exact hwired.staged q callbacks hstaged
  orphans q hO := htouched.nextPeer ▸ hwired.orphans q hO
  gone q hG := by
    rw [htouched.nextPeer]
    exact ⟨(hwired.gone q hG).1, (htouched.peers q).gone (hwired.gone q hG).2⟩

/-- Other streams with the same local peers, routed at least as before. -/
theorem Wired.withNode (hwired : Wired O G s)
    (hserved : ∀ id stream q, node.streams.lookup id = some stream → stream.localPeer = some q →
      ∃ before, s.node.streams.lookup id = some before ∧ before.localPeer = some q ∧
        (before.routed = true → stream.routed = true))
    (hkept : ∀ id before q, s.node.streams.lookup id = some before → before.localPeer = some q →
      ∃ stream, node.streams.lookup id = some stream ∧ stream.localPeer = some q) :
    Wired O G (s.withNode node) where
  served id stream q hfound hlocal := by
    obtain ⟨before, hbefore, hlocal, hrouted⟩ := hserved id stream q hfound hlocal
    obtain ⟨hrouted', hrest⟩ := hwired.served id before q hbefore hlocal
    exact ⟨hrouted hrouted', hrest⟩
  silent q id hO hcallbacks := by
    refine (hwired.silent q id hO hcallbacks).imp_right ?_
    rintro ⟨before, hbefore, hlocal⟩
    exact hkept id before q hbefore hlocal
  staged := hwired.staged
  orphans := hwired.orphans
  gone := hwired.gone

theorem Wired.adjust {f : Stream → Stream} (hwired : Wired O G s)
    (hstreams : node.streams = s.node.streams.adjust streamId f)
    (hlocal : ∀ stream, (f stream).localPeer = stream.localPeer)
    (hrouted : ∀ stream, stream.routed = true → (f stream).routed = true) :
    Wired O G (s.withNode node) := by
  refine hwired.withNode (fun id stream q hfound hpeer => ?_) fun id before q hbefore hpeer => ?_
  · rw [hstreams] at hfound
    rcases Table.lookup_adjust.1 hfound with ⟨rfl, before, hbefore, rfl⟩ | ⟨-, hbefore⟩
    · exact ⟨before, hbefore, (hlocal before).symm.trans hpeer, hrouted before⟩
    · exact ⟨stream, hbefore, hpeer, fun h => h⟩
  · rw [hstreams]
    by_cases hid : id = streamId
    · subst hid
      exact ⟨f before, by rw [Table.lookup_adjust_self, hbefore, Option.map_some],
        (hlocal before).trans hpeer⟩
    · exact ⟨before, by rwa [Table.lookup_adjust_ne f hid], hpeer⟩

theorem Wired.mapEntries {f : Stream → Stream} (hwired : Wired O G s)
    (hlocal : ∀ stream, (f stream).localPeer = stream.localPeer)
    (hrouted : ∀ stream, (f stream).routed = stream.routed) :
    Wired O G (s.withNode { s.node with streams := s.node.streams.mapEntries f }) := by
  refine hwired.withNode (fun id stream q hfound hpeer => ?_) fun id before q hbefore hpeer => ?_
  · replace hfound : (s.node.streams.mapEntries f).lookup id = some stream := hfound
    rw [Table.lookup_mapEntries, Option.map_eq_some_iff] at hfound
    obtain ⟨before, hbefore, rfl⟩ := hfound
    exact ⟨before, hbefore, (hlocal before).symm.trans hpeer, fun h => (hrouted before).trans h⟩
  · exact ⟨f before, by rw [Table.lookup_mapEntries, hbefore, Option.map_some],
      (hlocal before).trans hpeer⟩

/-- A stream without a local peer may come. -/
theorem Wired.insert {stream : Stream} (hwired : Wired O G s)
    (hfree : s.node.streams.lookup streamId = none) (hnone : stream.localPeer = none) :
    Wired O G (s.withNode { s.node with streams := s.node.streams.insert streamId stream }) := by
  refine hwired.withNode (fun id row q hfound hpeer => ?_) fun id before q hbefore hpeer => ?_
  · replace hfound : (s.node.streams.insert streamId stream).lookup id = some row := hfound
    by_cases hid : id = streamId
    · rw [hid, AList.lookup_insert] at hfound
      obtain rfl := Option.some.inj hfound
      rw [hnone] at hpeer
      cases hpeer
    · rw [AList.lookup_insert_ne hid] at hfound
      exact ⟨row, hfound, hpeer, fun h => h⟩
  · have hid : id ≠ streamId := by
      rintro rfl
      rw [hfree] at hbefore
      cases hbefore
    exact ⟨before, by rwa [AList.lookup_insert_ne hid], hpeer⟩

/-- And go. -/
theorem Wired.erase (hwired : Wired O G s) (hstreams : node.streams = s.node.streams.erase streamId)
    (hnone : ∀ stream, s.node.streams.lookup streamId = some stream → stream.localPeer = none) :
    Wired O G (s.withNode node) := by
  refine hwired.withNode (fun id row q hfound hpeer => ?_) fun id before q hbefore hpeer => ?_
  · rw [hstreams] at hfound
    by_cases hid : id = streamId
    · rw [hid, AList.lookup_erase] at hfound
      cases hfound
    · rw [AList.lookup_erase_ne hid] at hfound
      exact ⟨row, hfound, hpeer, fun h => h⟩
  · have hid : id ≠ streamId := by
      rintro rfl
      rw [hnone before hbefore] at hpeer
      cases hpeer
    exact ⟨before, by rwa [hstreams, AList.lookup_erase_ne hid], hpeer⟩

/-- Staged callbacks are cleared callbacks. -/
theorem Wired.applied (hwired : Wired O G s) (p : ℕ) :
    Wired O G (s.setPeer p (s.peers p).applyStaged) := by
  have hstaged := hwired.staged p
  rcases hpeer : (s.peers p).staged with _ | callbacks
  · have hsame : (s.peers p).applyStaged = s.peers p := by
      unfold TcpPeer.applyStaged
      simp [hpeer]
    simpa [hsame, Host.setPeer] using hwired
  by_cases hdepth : 0 < (s.peers p).dispatchDepth
  · simpa [TcpPeer.applyStaged, hdepth, Host.setPeer] using hwired
  obtain rfl := hstaged callbacks hpeer
  have hself : (s.setPeer p (s.peers p).applyStaged).peers p =
      { s.peers p with staged := none, callbacks := none } := by
    simp [Host.setPeer, TcpPeer.applyStaged, hpeer, hdepth]
  have hne : ∀ q, q ≠ p → (s.setPeer p (s.peers p).applyStaged).peers q = s.peers q :=
    fun q hq => Function.update_of_ne hq _ _
  refine ⟨fun id stream q hfound hlocal => ?_, fun q id hO hcallbacks => ?_,
    fun q callbacks hq => ?_, hwired.orphans, fun q hG => ⟨(hwired.gone q hG).1, ?_⟩⟩
  · have hserved := hwired.served id stream q hfound hlocal
    have hq : q ≠ p := by
      rintro rfl
      rw [hpeer] at hserved
      cases hserved.2.2.2.1
    rw [hne q hq]
    exact hserved
  · have hq : q ≠ p := by
      rintro rfl
      rw [hself] at hcallbacks
      cases hcallbacks
    rw [hne q hq] at hcallbacks ⊢
    exact hwired.silent q id hO hcallbacks
  · by_cases hqp : q = p
    · subst hqp
      rw [hself] at hq
      cases hq
    · rw [hne q hqp] at hq
      exact hwired.staged q callbacks hq
  · by_cases hqp : q = p
    · subst hqp
      rw [hself]
      exact (hwired.gone q hG).2
    · rw [hne q hqp]
      exact (hwired.gone q hG).2

/-- The local peer of a stream that is taken out of the table has to be released. -/
theorem Wired.removeStream {moved : Stream} (hwired : Wired O G s)
    (hfound : s.node.streams.lookup streamId = some moved) :
    Wired (fun q => O q ∨ moved.localPeer = some q) G
      (s.withNode (s.node.removeStream streamId moved)) where
  served id stream q hrow hlocal := by
    replace hrow : (s.node.streams.erase streamId).lookup id = some stream := hrow
    have hid : id ≠ streamId := by
      rintro rfl
      rw [AList.lookup_erase] at hrow
      cases hrow
    rw [AList.lookup_erase_ne hid] at hrow
    obtain ⟨hrouted, hlt, hcallbacks, hstaged, hO⟩ := hwired.served id stream q hrow hlocal
    refine ⟨hrouted, hlt, hcallbacks, hstaged, not_or.2 ⟨hO, fun hmoved => hid ?_⟩⟩
    exact Option.some.inj (hcallbacks.symm.trans (hwired.served _ _ q hfound hmoved).2.2.1)
  silent q id hO hcallbacks := by
    refine (hwired.silent q id (not_or.1 hO).1 hcallbacks).imp_right ?_
    rintro ⟨stream, hrow, hlocal⟩
    have hid : id ≠ streamId := by
      rintro rfl
      obtain rfl : moved = stream := Option.some.inj (hfound.symm.trans hrow)
      exact (not_or.1 hO).2 hlocal
    exact ⟨stream, (AList.lookup_erase_ne hid).trans hrow, hlocal⟩
  staged := hwired.staged
  orphans q hO := by
    rcases hO with hO | hmoved
    · exact hwired.orphans q hO
    · exact (hwired.served _ _ q hfound hmoved).2.1
  gone := hwired.gone

/-- Its callbacks can be cleared, -/
theorem Wired.cleared (hwired : Wired O G s) (hO : O p) :
    Wired O G (s.setPeer p ((s.peers p).setCallbacks none)) := by
  have hne : ∀ q, q ≠ p → (s.setPeer p ((s.peers p).setCallbacks none)).peers q = s.peers q :=
    fun q hq => Function.update_of_ne hq _ _
  have hself : (s.setPeer p ((s.peers p).setCallbacks none)).peers p =
      (s.peers p).setCallbacks none := Function.update_self _ _ _
  refine ⟨fun id stream q hfound hlocal => ?_, fun q id hq => ?_, fun q callbacks => ?_,
    hwired.orphans, fun q hG => ⟨(hwired.gone q hG).1, ?_⟩⟩
  · have hserved := hwired.served id stream q hfound hlocal
    rw [hne q fun h => hserved.2.2.2.2 (h ▸ hO)]
    exact hserved
  · rw [hne q fun h => hq (h ▸ hO)]
    exact hwired.silent q id hq
  · by_cases hq : q = p
    · subst hq
      rw [hself, TcpPeer.setCallbacks]
      split
      · rintro ⟨⟩
        rfl
      · exact hwired.staged q callbacks
    · rw [hne q hq]
      exact hwired.staged q callbacks
  · by_cases hq : q = p
    · subst hq
      rw [hself, TcpPeer.setCallbacks]
      have := (hwired.gone q hG).2
      split <;> exact this
    · rw [hne q hq]
      exact (hwired.gone q hG).2

/-- it goes, -/
theorem Wired.goes {peer : TcpPeer UInt32} (hwired : Wired O G s) (hO : O p)
    (htouch : Touch (s.peers p) peer) (hgone : peer.Gone) :
    Wired O (fun q => G q ∨ q = p) (s.setPeer p peer) := by
  have htouched := hwired.touched (s.touched_setPeer p htouch)
  refine { htouched with gone := ?_ }
  rintro q (hG | rfl)
  · exact htouched.gone q hG
  · exact ⟨htouched.orphans q hO, by simpa [Host.setPeer] using hgone⟩

/-- and when it is gone, the wiring is as before. -/
theorem Wired.settle (hwired : Wired O' G' s) (hO : ∀ q, O q → O' q) (hG : ∀ q, G q → G' q)
    (hgone : ∀ q, O' q → ¬ O q → G' q) : Wired O G s where
  served id stream q hfound hlocal := by
    obtain ⟨hrouted, hlt, hcallbacks, hstaged, hO'⟩ := hwired.served id stream q hfound hlocal
    exact ⟨hrouted, hlt, hcallbacks, hstaged, fun h => hO' (hO q h)⟩
  silent q id hq hcallbacks := by
    by_cases hO' : O' q
    · exact .inl (hwired.gone q (hgone q hO' hq)).2
    · exact hwired.silent q id hO' hcallbacks
  staged := hwired.staged
  orphans q hq := hwired.orphans q (hO q hq)
  gone q hq := hwired.gone q (hG q hq)

/-- A stream without a local peer gets a new one. -/
theorem Wired.dial {stream : Stream} (hwired : Wired O G s)
    (hfound : s.node.streams.lookup streamId = some stream) (hnone : stream.localPeer = none)
    (hrouted : stream.routed = true) :
    Wired O G { s.setPeer s.nextPeer { callbacks := some streamId, connecting := true } with
      nextPeer := s.nextPeer + 1
      node := { s.node with streams := s.node.streams.adjust streamId fun stream =>
        { stream with localPeer := some s.nextPeer } } } := by
  -- the new peer is none of those there were
  have hne : ∀ q, q < s.nextPeer → (s.setPeer s.nextPeer
      { callbacks := some streamId, connecting := true }).peers q = s.peers q :=
    fun q hq => Function.update_of_ne (Nat.ne_of_lt hq) _ _
  have hself : (s.setPeer s.nextPeer { callbacks := some streamId, connecting := true }).peers
      s.nextPeer = { callbacks := some streamId, connecting := true } :=
    Function.update_self _ _ _
  refine ⟨fun id row q hrow hlocal => ?_, fun q id hq hcallbacks => ?_, fun q callbacks => ?_,
    fun q hq => Nat.lt_succ_of_lt (hwired.orphans q hq),
    fun q hq => ⟨Nat.lt_succ_of_lt (hwired.gone q hq).1, ?_⟩⟩
  · rcases Table.lookup_adjust.1 hrow with ⟨rfl, before, hbefore, rfl⟩ | ⟨-, hbefore⟩
    · obtain rfl : before = stream := Option.some.inj (hbefore.symm.trans hfound)
      obtain rfl : s.nextPeer = q := Option.some.inj hlocal
      dsimp only
      rw [hself]
      exact ⟨hrouted, Nat.lt_succ_self _, rfl, rfl,
        fun hO => Nat.lt_irrefl _ (hwired.orphans _ hO)⟩
    · have hserved := hwired.served id row q hbefore hlocal
      dsimp only
      rw [hne q hserved.2.1]
      exact ⟨hserved.1, Nat.lt_succ_of_lt hserved.2.1, hserved.2.2⟩
  · dsimp only at hcallbacks ⊢
    by_cases hnew : q = s.nextPeer
    · subst hnew
      rw [hself] at hcallbacks
      obtain rfl := Option.some.inj hcallbacks
      exact .inr ⟨_, by rw [Table.lookup_adjust_self, hfound, Option.map_some], rfl⟩
    · have hsame : (s.setPeer s.nextPeer
          { callbacks := some streamId, connecting := true }).peers q = s.peers q :=
        Function.update_of_ne hnew _ _
      rw [hsame] at hcallbacks ⊢
      refine (hwired.silent q id hq hcallbacks).imp_right ?_
      rintro ⟨row, hrow, hlocal⟩
      -- the stream that dials had no peer
      have hid : id ≠ streamId := by
        rintro rfl
        obtain rfl : stream = row := Option.some.inj (hfound.symm.trans hrow)
        rw [hnone] at hlocal
        cases hlocal
      exact ⟨row, by rwa [Table.lookup_adjust_ne _ hid], hlocal⟩
  · dsimp only
    by_cases hnew : q = s.nextPeer
    · subst hnew
      rw [hself]
      rintro ⟨⟩
    · have hsame : (s.setPeer s.nextPeer
          { callbacks := some streamId, connecting := true }).peers q = s.peers q :=
        Function.update_of_ne hnew _ _
      rw [hsame]
      exact hwired.staged q callbacks
  · dsimp only
    rw [hne q (hwired.gone q hq).1]
    exact (hwired.gone q hq).2

/-! ### The functions keep the wiring -/

theorem wired_core : Core (WiredInv O G) where
  stable h s s' htouched hwired := hwired.touched htouched
  node h s node haside hwired := by
    refine hwired.withNode (fun id stream q hfound hpeer => ?_) fun id before q hbefore hpeer => ?_
    · exact ⟨stream, by rwa [haside.streams] at hfound, hpeer, fun h => h⟩
    · exact ⟨before, by rwa [haside.streams], hpeer⟩
  stream h s id f hf hwired := by
    refine hwired.adjust rfl hf.localPeer fun stream hrouted => ?_
    by_contra hno
    rw [hf.routed stream (by simpa using hno)] at hrouted
    cases hrouted
  note h s n hn hwired := hwired

/-- The wiring depends on the streams only. -/
theorem wired_modifyNode {f : LinkState → LinkState} (hf : ∀ node, (f node).streams = node.streams) :
    Keeps ok (WiredInv O G) (modifyNode f) := by
  refine fun h s hwired => wp_modifyNode.2 (hwired.withNode ?_ ?_)
  · exact fun id stream q hfound hpeer => ⟨stream, by rwa [hf] at hfound, hpeer, fun h => h⟩
  · exact fun id before q hbefore hpeer => ⟨before, by rwa [hf], hpeer⟩

theorem wired_modifyStream {f : Stream → Stream}
    (hlocal : ∀ stream, (f stream).localPeer = stream.localPeer)
    (hrouted : ∀ stream, stream.routed = true → (f stream).routed = true) :
    Keeps ok (WiredInv O G) (modifyStream streamId f) :=
  fun _ _ hwired => wp_modifyStream.2 (hwired.adjust rfl hlocal hrouted)

theorem wired_withChannel (h : List Note) (s : LinkHost) (channel channel' : TlsChannel)
    (hwired : WiredInv O G h s) (_ : s.node.channel = some channel) :
    WiredInv O G h (s.withChannel channel') :=
  hwired.withNode (fun _ stream _ hfound hpeer => ⟨stream, hfound, hpeer, fun h => h⟩)
    fun _ before _ hbefore hpeer => ⟨before, hbefore, hpeer⟩

theorem wired_resumeLocalReads : Keeps ok (WiredInv O G) (resumeLocalReads options) :=
  wired_core.keeps_resumeLocalReads fun _ _ hwired => hwired.mapEntries
    (fun stream => by unfold resumeRead; split <;> rfl)
    fun stream => by unfold resumeRead; split <;> rfl

theorem wired_pauseAllLocalReads : Keeps ok (WiredInv O G) pauseAllLocalReads :=
  wired_core.keeps_pauseAllLocalReads fun _ _ hwired => hwired.mapEntries
    (fun stream => by unfold pauseRead; split <;> rfl)
    fun stream => by unfold pauseRead; split <;> rfl

variable (K : WiredKernel ok k)

include K

theorem wired_send (outgoing : Outgoing) :
    Keeps ok (WiredInv O G) (sendFrameToNode k outgoing) :=
  keeps_sendFrameToNode wired_core wired_withChannel (fun _ _ hwired => hwired)
    (fun _ _ hwired => hwired) (K.channelDrained O G) (K.channelClosed O G)

theorem wired_calls :
    TcpPeer.Calls ok (localHooks k) p (WiredInv O G) (WiredInv O G) :=
  localHooks_calls wired_core wired_core (fun _ _ hwired => hwired)
    (fun h s id hwired _ => K.localDrained O G id p h s hwired)
    fun h s id hwired _ => K.localClosed O G id p h s hwired

theorem wired_resumeLinkRead : Keeps ok (WiredInv O G) (resumeLinkRead options k) :=
  Core.keeps_resumeLinkRead
    (fun _ _ hwired => hwired.withNode
      (fun _ stream _ hfound hpeer => ⟨stream, hfound, hpeer, fun h => h⟩)
      fun _ before _ hbefore hpeer => ⟨before, hbefore, hpeer⟩)
    wired_withChannel (K.pumpFrames O G)

/-- Releasing the local peer of a stream that left the table. -/
theorem wired_releaseLocal {bytes : Bytes} {reason : CloseReason} {h : List Note} (hO : O' p)
    (hsub : ∀ q, O q → O' q) (hrest : ∀ q, O' q → ¬ O q → q = p) (hwired : WiredInv O' G h s) :
    wp ok (releaseLocal k p bytes reason) (fun _ => WiredInv O G) h s := by
  have hrelease : wp ok (releaseLocal k p bytes reason)
      (fun _ => WiredInv O' fun q => G q ∨ q = p) h s :=
    wp_releaseLocal wired_core (wired_calls K) (wired_calls K)
      (fun h s peer hwired htouch hgone => Wired.goes hwired hO htouch hgone)
      (Wired.cleared hwired hO)
  exact wp_mono hrelease fun _ h s hwired => Wired.settle hwired hsub (fun q hG => .inl hG)
    fun q hq hnot => .inr (hrest q hq hnot)

theorem wired_closeLocal {reason : CloseReason} :
    Keeps ok (WiredInv O G) (closeLocal options k streamId reason) := by
  refine fun h s hwired => wp_closeLocal (fun _ => hwired) fun moved hfound => ?_
  refine wp_announceClosed (P := WiredInv (fun q => O q ∨ moved.localPeer = some q) G)
    (Q := WiredInv O G)
    (fun outgoing _ => wired_send K outgoing) (fun hnone h s hwired => ?_)
    (fun p hlocal h s hwired => ?_) (fun h s => wired_resumeLinkRead K h s)
    (hwired.removeStream hfound)
  · refine Wired.settle hwired (fun q => .inl) (fun q => id) fun q hq hnot => ?_
    simp [hnone, hnot] at hq
  · refine wired_releaseLocal K (.inr hlocal) (fun q => .inl) (fun q hq hnot => ?_) hwired
    rw [hlocal] at hq
    exact (Option.some.inj (hq.resolve_left hnot)).symm

theorem wired_closeLink : Keeps ok (WiredInv O G) (closeLink options k) := by
  refine fun h s hwired => wp_closeLink (T := WiredInv O G) (fun _ => hwired) ?_
    (fun _ => wired_closeLocal K) fun h s node hT hempty hnode _ _ _ _ => ?_
  · exact hwired.withNode (fun _ stream _ hfound hpeer => ⟨stream, hfound, hpeer, fun h => h⟩)
      fun _ before _ hbefore hpeer => ⟨before, hbefore, hpeer⟩
  · refine Wired.withNode hT (fun id stream q hfound hpeer => ?_) fun id before q hbefore hpeer => ?_
    · exact ⟨stream, by rwa [hempty, ← hnode], hpeer, fun h => h⟩
    · exact ⟨before, by rwa [hnode, ← hempty], hpeer⟩

theorem wired_flushToHome : Keeps ok (WiredInv O G) (flushToHome options k streamId) :=
  Core.keeps_flushToHome (fun _ => wired_core.keeps_finishFlush (wired_closeLocal K)
      (wired_modifyStream (fun _ => rfl) fun _ h => h) wired_resumeLocalReads)
    (fun _ => wired_send K _)
    (fun _ => wired_modifyStream (fun _ => rfl) fun _ h => h)
    fun _ => wired_modifyNode fun _ => rfl

theorem wired_flushToLocal : Keeps ok (WiredInv O G) (flushToLocal options k streamId) :=
  wired_core.keeps_flushToLocal (wired_modifyStream (fun _ => rfl) fun _ h => h)
    (fun _ => wired_modifyNode fun _ => rfl)
    (fun _ bytes _ _ => (wired_calls K).send bytes)
    (fun outgoing _ => wired_send K outgoing) (wired_resumeLinkRead K)

theorem wired_holdForLocal {stream : Stream} {payload : Bytes} :
    Keeps ok (WiredInv O G) (holdForLocal options k streamId stream payload) := by
  refine .ite (wired_closeLocal K) (.bind ?_ fun _ => .bind keeps_getNode fun _ => .when ?_)
  · exact fun h s hwired => wp_modifyNode.2 (hwired.adjust rfl (fun _ => rfl) fun _ h => h)
  · exact .bind (wired_modifyNode fun _ => rfl) fun _ => wired_modifyNode fun _ => rfl

/-- A stream that has just been opened or routed is dialled.  When the dial fails, the node is
told, and the stream it is told of has no local peer still: nothing is dialled meanwhile. -/
theorem wired_dialListener {h : List Note} {stream : Stream} (C : CalmKernel ok k)
    (hread : s.node.linkReadPaused = false)
    (hfound : s.node.streams.lookup streamId = some stream) (hnone : stream.localPeer = none)
    (hrouted : stream.routed = true) (hwired : WiredInv O G h s) :
    wp ok (dialListener k streamId) (fun _ => WiredInv O G) h s := by
  refine Core.wp_dialListener (P := fun _ s' => Wired O G s' ∧ s'.node = s.node) ⟨hwired, rfl⟩ ?_ ?_ ?_
  · exact fun h s₁ s₂ htouched hP => ⟨hP.1.touched htouched, htouched.node.trans hP.2⟩
  · rintro h s' ⟨hwired, hnode⟩
    exact Wired.dial hwired (hnode ▸ hfound) hnone hrouted
  · rintro h s' ⟨hwired, hnode⟩
    have hcalm : CalmInv s.node.streams h s' := by
      have := Calm.start (s := s') (hnode ▸ hread)
      rwa [hnode] at this
    refine wp_bind.2 (wp_mono (wp_and (wired_send K _ h s' hwired) (calm_send C _ h s' hcalm)) ?_)
    rintro _ h s' ⟨hwired, hcalm⟩
    refine wp_modifyNode.2 (Wired.erase hwired rfl fun row hrow => ?_)
    obtain ⟨stream₀, hfound₀, hlocal, -⟩ := hcalm.known _ row hrow
    obtain rfl : stream = stream₀ := Option.some.inj (hfound.symm.trans hfound₀)
    exact hlocal.trans hnone

theorem wired_kept (C : CalmKernel ok k) : Kept options k ok (WiredInv O G) where
  toCore := wired_core
  send outgoing _ := wired_send K outgoing
  sendLocal _ bytes _ _ := (wired_calls K).send bytes
  closeLocal _ _ := wired_closeLocal K
  closeLink := wired_closeLink K
  flushToHome _ := wired_flushToHome K
  refuseStream h s _ _ hwired _ _ :=
    Keeps.bind (wired_send K _) (fun _ => wired_closeLocal K) h s hwired
  holdForLocal h s _ _ _ _ hwired _ _ _ := wired_holdForLocal K h s hwired
  insert _ _ _ _ hwired _ hfree hfresh _ := Wired.insert hwired hfree hfresh.localPeer
  dialOpened h s id stream hwired hread hfound hfresh hrouted :=
    wired_dialListener K C hread hfound hfresh.localPeer hrouted hwired
  dialRouted h s id stream hwired hread hfound hrouted := by
    have hnone : stream.localPeer = none := by
      by_contra hsome
      obtain ⟨p, hp⟩ := Option.ne_none_iff_exists'.1 hsome
      rw [(Wired.served hwired _ _ p hfound hp).1] at hrouted
      cases hrouted
    have hrouted' : (s.node.streams.adjust id fun stream =>
        { stream with routed := true, clientHello := [] }).lookup id =
          some { stream with routed := true, clientHello := [] } := by
      rw [Table.lookup_adjust_self, hfound, Option.map_some]
    exact wired_dialListener K C hread hrouted' hnone rfl
      (Wired.adjust hwired rfl (fun _ => rfl) fun _ _ => rfl)

end Wired

/-- The wiring is kept however deep the calls nest. -/
theorem wired_kernel (options : LinkOptions) (ok : Note → Prop) (n : ℕ) :
    WiredKernel ok (kernel options n) := by
  induction n with
  | zero =>
    exact ⟨fun _ _ => .stuck, fun _ _ => .stuck, fun _ _ _ _ => .stuck, fun _ _ _ _ => .stuck,
      fun _ _ => .stuck⟩
  | succ n ih =>
    exact
      { channelDrained := fun _ _ => Core.keeps_onChannelDrained (fun _ => wired_flushToHome ih)
          wired_resumeLocalReads (wired_resumeLinkRead ih)
        channelClosed := fun _ _ => wired_closeLink ih
        localDrained := fun _ _ _ _ => Core.keeps_onLocalDrained (wired_flushToLocal ih)
        localClosed := fun _ _ _ _ => Core.keeps_onLocalClosed fun _ _ => wired_closeLocal ih
        pumpFrames := fun _ _ => (wired_kept ih (calm_kernel options ok n)).pumpFrames }

/-- No peer is on its way out. -/
def NoPeer : ℕ → Prop := fun _ => False

/-- **Every event keeps the wiring.** -/
theorem wired_events (options : LinkOptions) (ok : Note → Prop) (n : ℕ) :
    KeptEvents options (kernel options n) ok (fun _ _ => True) (WiredInv NoPeer NoPeer) := by
  have K := wired_kernel options ok n
  have hdrained : Keeps ok (WiredInv NoPeer NoPeer)
      (onChannelDrained options (kernel options n)) :=
    Core.keeps_onChannelDrained (fun _ => wired_flushToHome K) wired_resumeLocalReads
      (wired_resumeLinkRead K)
  exact
    { toKept := wired_kept K (calm_kernel options ok n)
      flags := fun h s channel channel' hwired hchannel _ _ _ =>
        wired_withChannel h s channel channel' hwired hchannel
      opened := fun h s hwired _ => hwired.withNode
        (fun _ stream _ hfound hpeer => ⟨stream, hfound, hpeer, fun h => h⟩)
        fun _ before _ hbefore hpeer => ⟨before, hbefore, hpeer⟩
      flush := keeps_channelFlush wired_core wired_withChannel (fun _ _ hwired => hwired) hdrained
        (wired_closeLink K)
      close := keeps_channelClose wired_withChannel (wired_closeLink K)
      closeReleased := fun p => (wired_calls K).close
      localRead := fun h s p id data _ hwired _ _ _ =>
        wired_core.keeps_onLocalRead (fun _ => .note fun _ _ _ hwired => hwired)
          (fun _ _ _ hwired => hwired.adjust rfl (fun _ => rfl) fun _ h => h)
          (wired_modifyStream (fun _ => rfl) fun _ h => h) wired_pauseAllLocalReads
          (wired_flushToHome K) (wired_closeLocal K) h s hwired
      localEof := fun h s id _ hwired => by
        refine Keeps.bind keeps_findStream (fun stream => ?_) h s hwired
        rcases stream with _ | stream
        · exact .pure _
        · exact .bind (wired_modifyStream (fun _ => rfl) fun _ h => h) fun _ =>
            .when (wired_closeLocal K)
      flushToLocal := fun _ => wired_flushToLocal K
      applied := fun _ _ p hwired => Wired.applied hwired p }

theorem wired_initialHost : Wired NoPeer NoPeer initialHost where
  served _ _ _ hfound := by cases hfound
  silent _ _ _ hcallbacks := by cases hcallbacks
  staged _ _ hstaged := by cases hstaged
  orphans _ hO := hO.elim
  gone _ hG := hG.elim

/-- A local peer that is read serves an open stream, which is routed. -/
theorem Wired.reading {G : ℕ → Prop} {s : LinkHost} {p : ℕ} {streamId : UInt32}
    (hwired : Wired NoPeer G s) (hcallbacks : (s.peers p).callbacks = some streamId)
    (hopen : (s.peers p).closed = false) (hgoing : (s.peers p).closeWhenFlushed = false) :
    ∃ stream, s.node.streams.lookup streamId = some stream ∧ stream.localPeer = some p ∧
      stream.routed = true := by
  obtain hgone | ⟨stream, hfound, hlocal⟩ := hwired.silent p streamId not_false hcallbacks
  · rcases hgone with hgone | hgone
    · rw [hopen] at hgone
      cases hgone
    · rw [hgoing] at hgone
      cases hgone
  · exact ⟨stream, hfound, hlocal, (hwired.served streamId stream p hfound hlocal).1⟩

end Link

end ArgusBackend
