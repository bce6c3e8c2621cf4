import ArgusBackend.Link.Reading
import ArgusBackend.Link.Wiring

/-!
# Integrity of the uplink

What the client reads from a local peer must reach the channel once and in order.  For a stream,
`readOf` is what was read and `framedOf` what was framed since it was opened; the difference has
to be the bytes that wait.

`flushToHome` erases a chunk only when its send has returned.  A send that empties a congested
channel calls `onDrained` first, which flushes every stream: the chunk is sent again and then
erased twice (`not_uplinkIntact_drainedInChunk`).  Nothing else goes wrong:

* `Uplink` is the invariant, which exempts the streams that are being refused;
* `uplink_intact` : in every run in which no send of a chunk calls `onDrained`, every stream is
  intact.
-/

namespace ArgusBackend

namespace Link

open Net Prog

/-! ### What was read and what was framed -/

/-- What a note adds to the bytes read for a stream since it was opened. -/
def Note.readStep (streamId : UInt32) (acc : Bytes) : Note → Bytes
  | .opened streamId' => if streamId' = streamId then [] else acc
  | .read streamId' bytes => if streamId' = streamId then acc ++ bytes else acc
  | _ => acc

/-- What a note adds to the payloads of the data frames of a stream since it was opened. -/
def Note.framedStep (streamId : UInt32) (acc : Bytes) : Note → Bytes
  | .opened streamId' => if streamId' = streamId then [] else acc
  | .sent (.chunk streamId' bytes) => if streamId' = streamId then acc ++ bytes else acc
  | .sent (.alert streamId' bytes) => if streamId' = streamId then acc ++ bytes else acc
  | _ => acc

/-- The bytes read from the local peer of a stream. -/
def readOf (streamId : UInt32) (h : List Note) : Bytes := h.foldl (Note.readStep streamId) []

/-- The bytes put on the channel for a stream. -/
def framedOf (streamId : UInt32) (h : List Note) : Bytes := h.foldl (Note.framedStep streamId) []

@[simp] theorem readOf_append (streamId : UInt32) (h : List Note) (n : Note) :
    readOf streamId (h ++ [n]) = n.readStep streamId (readOf streamId h) := by
  simp [readOf]

@[simp] theorem framedOf_append (streamId : UInt32) (h : List Note) (n : Note) :
    framedOf streamId (h ++ [n]) = n.framedStep streamId (framedOf streamId h) := by
  simp [framedOf]

/-- Every stream closed with reason normal after the end of its local input had all its bytes
framed or waiting. -/
def ClosedIntact (h : List Note) : Prop :=
  ∀ before streamId pending after, h = before ++ .closed streamId .normal true pending :: after →
    framedOf streamId before ++ pending = readOf streamId before

/-- The integrity of the uplink, of the open streams and of the closed ones. -/
structure UplinkIntact (h : List Note) (s : LinkHost) : Prop where
  opened : ∀ streamId stream, s.node.streams.lookup streamId = some stream →
    framedOf streamId h ++ stream.pendingToHome = readOf streamId h
  closed : ClosedIntact h

/-! ### The invariant -/

theorem closedIntact_append {h : List Note} {n : Note} (hclosed : ClosedIntact h)
    (hn : ∀ streamId pending, n = .closed streamId .normal true pending →
      framedOf streamId h ++ pending = readOf streamId h) : ClosedIntact (h ++ [n]) := by
  intro before streamId pending after heq
  rcases List.eq_nil_or_concat after with rfl | ⟨after, last, rfl⟩
  · obtain ⟨rfl, hlast⟩ := List.append_inj' heq rfl
    exact hn streamId pending (List.singleton_inj.1 hlast)
  · rw [List.concat_eq_append, ← List.cons_append, ← List.append_assoc] at heq
    obtain ⟨rfl, -⟩ := List.append_inj' heq rfl
    exact hclosed before streamId pending after rfl

/-- What the invariant says of one open stream.  A stream in `A` is being refused: it got a data
frame of its own, and its local peer has not ended. -/
structure Row (A : UInt32 → Prop) (h : List Note) (streamId : UInt32) (stream : Stream) :
    Prop where
  intact : ¬ A streamId → framedOf streamId h ++ stream.pendingToHome = readOf streamId h
  alerted : A streamId → stream.localEof = false
  unrouted : stream.routed = false → stream.localEof = false ∧ stream.pendingToHome = []

theorem Row.same {A : UInt32 → Prop} {h h' : List Note} {streamId : UInt32}
    {stream stream' : Stream} (row : Row A h streamId stream)
    (hframed : framedOf streamId h' = framedOf streamId h)
    (hread : readOf streamId h' = readOf streamId h)
    (hpending : stream'.pendingToHome = stream.pendingToHome)
    (heof : stream'.localEof = stream.localEof)
    (hrouted : stream'.routed = false → stream.routed = false) : Row A h' streamId stream' := by
  refine ⟨?_, ?_, ?_⟩
  · rw [hframed, hread, hpending]
    exact row.intact
  · rw [heof]
    exact row.alerted
  · rw [heof, hpending]
    exact fun h => row.unrouted (hrouted h)

/-- What holds of the streams after any run. -/
structure Uplink (A : UInt32 → Prop) (h : List Note) (streams : Table UInt32 Stream) : Prop where
  rows : ∀ streamId stream, streams.lookup streamId = some stream → Row A h streamId stream
  closed : ClosedIntact h

/-- The invariant on the host. -/
def UplinkInv (A : UInt32 → Prop) (h : List Note) (s : LinkHost) : Prop := Uplink A h s.node.streams

theorem ClosedIntact.uplink {A : UInt32 → Prop} {h : List Note} {streams : Table UInt32 Stream}
    (hclosed : ClosedIntact h) (hempty : streams = ∅) : Uplink A h streams where
  rows streamId stream hfound := by
    rw [hempty] at hfound
    cases hfound
  closed := hclosed

section Uplink

variable {A : UInt32 → Prop} {h : List Note} {streams : Table UInt32 Stream} {streamId : UInt32}

/-- A note that adds no bytes and closes no stream. -/
def Note.Quiet (n : Note) : Prop :=
  (∀ streamId acc, n.readStep streamId acc = acc ∧ n.framedStep streamId acc = acc) ∧
    ∀ streamId reason localEof pending, n ≠ .closed streamId reason localEof pending

theorem Uplink.note {n : Note} (hn : n.Quiet) (hup : Uplink A h streams) :
    Uplink A (h ++ [n]) streams where
  rows streamId stream hfound := by
    refine (hup.rows streamId stream hfound).same ?_ ?_ rfl rfl id
    · rw [framedOf_append, (hn.1 _ _).2]
    · rw [readOf_append, (hn.1 _ _).1]
  closed := closedIntact_append hup.closed fun _ _ heq => absurd heq (hn.2 _ _ _ _)

theorem quiet_drained (during : Option Outgoing) : Note.Quiet (.drained during) :=
  ⟨fun _ _ => ⟨rfl, rfl⟩, by simp⟩

theorem quiet_sent {outgoing : Outgoing} (hcontrol : outgoing.IsControl) :
    Note.Quiet (.sent outgoing) := by
  refine ⟨fun _ _ => ⟨rfl, ?_⟩, by simp⟩
  cases outgoing <;> first | rfl | exact hcontrol.elim

theorem quiet_aside {n : Note} (hn : n.Aside) : n.Quiet := by
  cases hn <;> exact ⟨fun _ _ => ⟨rfl, rfl⟩, by simp⟩

/-- Changing a stream without touching its uplink. -/
theorem Uplink.adjust {f : Stream → Stream} (hup : Uplink A h streams)
    (hpending : ∀ stream, (f stream).pendingToHome = stream.pendingToHome)
    (heof : ∀ stream, (f stream).localEof = stream.localEof)
    (hrouted : ∀ stream, (f stream).routed = false → stream.routed = false) :
    Uplink A h (streams.adjust streamId f) where
  rows id stream hfound := by
    rcases Table.lookup_adjust.1 hfound with ⟨rfl, before, hbefore, rfl⟩ | ⟨-, hbefore⟩
    · exact (hup.rows _ _ hbefore).same rfl rfl (hpending _) (heof _) (hrouted _)
    · exact hup.rows _ _ hbefore
  closed := hup.closed

theorem Uplink.mapEntries {f : Stream → Stream} (hup : Uplink A h streams)
    (hpending : ∀ stream, (f stream).pendingToHome = stream.pendingToHome)
    (heof : ∀ stream, (f stream).localEof = stream.localEof)
    (hrouted : ∀ stream, (f stream).routed = stream.routed) :
    Uplink A h (streams.mapEntries f) where
  rows id stream hfound := by
    rw [Table.lookup_mapEntries, Option.map_eq_some_iff] at hfound
    obtain ⟨before, hbefore, rfl⟩ := hfound
    exact (hup.rows _ _ hbefore).same rfl rfl (hpending _) (heof _) ((hrouted _).symm.trans)
  closed := hup.closed

theorem Uplink.erase (hup : Uplink A h streams) : Uplink A h (streams.erase streamId) where
  rows id stream hfound := by
    by_cases hid : id = streamId
    · rw [hid, AList.lookup_erase] at hfound
      cases hfound
    · exact hup.rows _ _ (by rwa [AList.lookup_erase_ne hid] at hfound)
  closed := hup.closed

/-- A stream is opened with nothing read and nothing framed. -/
theorem Uplink.insert (hup : Uplink A h streams) {stream : Stream}
    (hpending : stream.pendingToHome = []) (heof : stream.localEof = false) :
    Uplink A (h ++ [.opened streamId]) (streams.insert streamId stream) where
  rows id row hfound := by
    by_cases hid : id = streamId
    · subst hid
      rw [AList.lookup_insert] at hfound
      obtain rfl := Option.some.inj hfound
      refine ⟨fun _ => ?_, fun _ => heof, fun _ => ⟨heof, hpending⟩⟩
      simp [Note.readStep, Note.framedStep, hpending]
    · rw [AList.lookup_insert_ne hid] at hfound
      refine (hup.rows _ _ hfound).same ?_ ?_ rfl rfl fun h => h
      · simp [Note.framedStep, Ne.symm hid]
      · simp [Note.readStep, Ne.symm hid]
  closed := closedIntact_append hup.closed fun _ _ heq => by cases heq

/-- A closed stream leaves the table as it was: intact if it had to be. -/
theorem Uplink.close (hup : Uplink A h streams) {stream : Stream} {reason : CloseReason}
    {localEof : Bool} (hfound : streams.lookup streamId = some stream)
    (halert : A streamId → localEof = false) :
    Uplink A (h ++ [.closed streamId reason localEof stream.pendingToHome])
      (streams.erase streamId) where
  rows id row hrow := by
    refine (hup.erase.rows id row hrow).same ?_ ?_ rfl rfl fun h => h
    · simp [Note.framedStep]
    · simp [Note.readStep]
  closed := by
    refine closedIntact_append hup.closed fun id pending heq => ?_
    obtain ⟨rfl, -, heof, rfl⟩ := Note.closed.inj heq
    refine (hup.rows _ _ hfound).intact fun hA => ?_
    rw [halert hA] at heof
    cases heof

/-- A chunk moves from the waiting bytes to the channel. -/
theorem Uplink.chunk (hup : Uplink A h streams) {stream : Stream} {f : Stream → Stream} {n : ℕ}
    (hfound : streams.lookup streamId = some stream)
    (hpending : (f stream).pendingToHome = stream.pendingToHome.drop n)
    (heof : (f stream).localEof = stream.localEof) (hrouted : (f stream).routed = stream.routed) :
    Uplink A (h ++ [.sent (.chunk streamId (stream.pendingToHome.take n))])
      (streams.adjust streamId f) where
  rows id row hrow := by
    rcases Table.lookup_adjust.1 hrow with ⟨rfl, before, hbefore, rfl⟩ | ⟨hne, hbefore⟩
    · obtain rfl : before = stream := Option.some.inj (hbefore.symm.trans hfound)
      obtain ⟨hintact, halerted, hunrouted⟩ := hup.rows _ _ hbefore
      refine ⟨fun hA => ?_, fun hA => heof.trans (halerted hA), fun hunrouted' => ?_⟩
      · simpa [Note.readStep, Note.framedStep, hpending] using hintact hA
      · obtain ⟨heof', hempty⟩ := hunrouted (hrouted ▸ hunrouted')
        exact ⟨heof.trans heof', by rw [hpending, hempty, List.drop_nil]⟩
    · refine (hup.rows _ _ hbefore).same ?_ ?_ rfl rfl fun h => h
      · simp [Note.framedStep, Ne.symm hne]
      · simp [Note.readStep]
  closed := closedIntact_append hup.closed fun _ _ heq => by cases heq

/-- Bytes read from the local peer wait. -/
theorem Uplink.read (hup : Uplink A h streams) {f : Stream → Stream} {bytes : Bytes}
    (hpending : ∀ stream, (f stream).pendingToHome = stream.pendingToHome ++ bytes)
    (heof : ∀ stream, (f stream).localEof = stream.localEof)
    (hrouted : ∀ stream, streams.lookup streamId = some stream → (f stream).routed = true) :
    Uplink A (h ++ [.read streamId bytes]) (streams.adjust streamId f) where
  rows id row hrow := by
    rcases Table.lookup_adjust.1 hrow with ⟨rfl, before, hbefore, rfl⟩ | ⟨hne, hbefore⟩
    · obtain ⟨hintact, halert, -⟩ := hup.rows _ _ hbefore
      refine ⟨fun hA => ?_, fun hA => (heof before).trans (halert hA), fun hunrouted => ?_⟩
      · simp [Note.readStep, Note.framedStep, hpending, ← hintact hA]
      · rw [hrouted before hbefore] at hunrouted
        cases hunrouted
    · refine (hup.rows _ _ hbefore).same ?_ ?_ rfl rfl fun h => h
      · simp [Note.framedStep]
      · simp [Note.readStep, Ne.symm hne]
  closed := closedIntact_append hup.closed fun _ _ heq => by cases heq

/-- A stream that is closed in error may lose bytes. -/
theorem Uplink.lose (hup : Uplink A h streams) {bytes : Bytes} {reason : CloseReason}
    {localEof : Bool} {pending : Bytes} (hreason : reason ≠ .normal) :
    Uplink A (h ++ [.read streamId bytes] ++ [.closed streamId reason localEof pending])
      (streams.erase streamId) where
  rows id row hrow := by
    have hne : id ≠ streamId := by
      rintro rfl
      rw [AList.lookup_erase] at hrow
      cases hrow
    refine (hup.erase.rows id row hrow).same ?_ ?_ rfl rfl fun h => h
    · rw [framedOf_append, framedOf_append]
      rfl
    · rw [readOf_append, readOf_append]
      simp [Note.readStep, Ne.symm hne]
  closed :=
    closedIntact_append (closedIntact_append hup.closed fun _ _ heq => by cases heq)
      fun _ _ heq => absurd (Note.closed.inj heq).2.1 hreason

/-- A stream that is refused is exempt until it is closed. -/
theorem Uplink.exempt (hup : Uplink A h streams)
    (heof : ∀ stream, streams.lookup streamId = some stream → stream.localEof = false) :
    Uplink (fun id => A id ∨ id = streamId) h streams where
  rows id row hrow := by
    obtain ⟨hintact, halerted, hunrouted⟩ := hup.rows id row hrow
    refine ⟨fun hA => hintact (not_or.1 hA).1, fun hA => ?_, hunrouted⟩
    rcases hA with hA | rfl
    · exact halerted hA
    · exact heof row hrow
  closed := hup.closed

/-- So it may get an alert. -/
theorem Uplink.alert (hup : Uplink A h streams) {bytes : Bytes} (hA : A streamId) :
    Uplink A (h ++ [.sent (.alert streamId bytes)]) streams where
  rows id row hrow := by
    obtain ⟨hintact, halerted, hunrouted⟩ := hup.rows id row hrow
    refine ⟨fun hnot => ?_, halerted, hunrouted⟩
    have hne : streamId ≠ id := fun h => hnot (h ▸ hA)
    simpa [Note.readStep, Note.framedStep, hne] using hintact hnot
  closed := closedIntact_append hup.closed fun _ _ heq => by cases heq

/-- When it is closed, the others are as they were. -/
theorem Uplink.refused (hup : Uplink (fun id => A id ∨ id = streamId) h streams)
    (hgone : streams.lookup streamId = none) : Uplink A h streams where
  rows id row hrow := by
    have hne : id ≠ streamId := by
      rintro rfl
      rw [hgone] at hrow
      cases hrow
    obtain ⟨hintact, halerted, hunrouted⟩ := hup.rows id row hrow
    exact ⟨fun hA => hintact (not_or.2 ⟨hA, hne⟩), fun hA => halerted (.inl hA), hunrouted⟩
  closed := hup.closed

end Uplink

theorem uplink_core (A : UInt32 → Prop) : Core (UplinkInv A) where
  stable h s s' htouched hJ := by
    rwa [UplinkInv, htouched.node]
  node h s node haside hJ := by
    have hstreams : (s.withNode node).node.streams = s.node.streams := haside.streams
    rwa [UplinkInv, hstreams]
  stream h s streamId f hf hJ := hJ.adjust hf.pendingToHome hf.localEof hf.routed
  note h s n hn hJ := hJ.note (quiet_aside hn)

/-! ### The entry points -/

/-- No send of a chunk calls `onDrained`. -/
def ChunkUndrained (n : Note) : Prop := ∀ streamId bytes, n ≠ .drained (some (.chunk streamId bytes))

/-- The link is being torn down: nothing can be framed any more. -/
def Tearing (h : List Note) (s : LinkHost) : Prop := ClosedIntact h ∧ s.node.channel = none

/-- What the entry points of the client do to the uplink. -/
structure UplinkKernel (k : Kernel) : Prop where
  channelDrained : ∀ A, Keeps ChunkUndrained (UplinkInv A) k.channelDrained
  channelClosed : ∀ A, Keeps ChunkUndrained (UplinkInv A) k.channelClosed
  pumpFrames : ∀ A, Keeps ChunkUndrained (UplinkInv A) k.pumpFrames
  localDrained : ∀ A streamId p, Keeps ChunkUndrained (UplinkInv A) (k.localDrained streamId p)
  localClosed : ∀ A streamId p, Keeps ChunkUndrained (UplinkInv A) (k.localClosed streamId p)
  /-- Losing the channel closes every stream, whatever was framed of it. -/
  channelLost : ∀ h s, ClosedIntact h → s.node.channel.isSome →
    wp ChunkUndrained k.channelClosed (fun _ h s => ClosedIntact h ∧ s.node.streams = ∅) h s
  localLost : ∀ streamId p, Keeps ChunkUndrained Tearing (k.localClosed streamId p)

section Functions

variable {options : LinkOptions} {k : Kernel} {A : UInt32 → Prop} {h : List Note} {s : LinkHost}
  {streamId : UInt32} {p : ℕ}

/-- The invariant is about the streams only. -/
theorem uplink_modifyNode {f : LinkState → LinkState} (hf : ∀ node, (f node).streams = node.streams) :
    Keeps ChunkUndrained (UplinkInv A) (modifyNode f) :=
  fun h s hJ => wp_modifyNode.2 (by
    have : (s.withNode (f s.node)).node.streams = s.node.streams := hf s.node
    rwa [UplinkInv, this])

variable (K : UplinkKernel k)

include K

theorem uplink_send (outgoing : Outgoing) (hcontrol : outgoing.IsControl) :
    Keeps ChunkUndrained (UplinkInv A) (sendFrameToNode k outgoing) :=
  keeps_sendFrameToNode (uplink_core A) (fun _ _ _ _ hJ _ => hJ)
    (fun _ _ hJ => hJ.note (quiet_sent hcontrol)) (fun _ _ hJ => hJ.note (quiet_drained _))
    (K.channelDrained A) (K.channelClosed A)

theorem uplink_calls :
    TcpPeer.Calls ChunkUndrained (localHooks k) p (UplinkInv A) (UplinkInv A) :=
  localHooks_calls (uplink_core A) (uplink_core A) (fun _ _ hJ => hJ)
    (fun h s streamId hJ _ => K.localDrained A streamId p h s hJ)
    (fun h s streamId hJ _ => K.localClosed A streamId p h s hJ)

theorem uplink_resumeLinkRead : Keeps ChunkUndrained (UplinkInv A) (resumeLinkRead options k) :=
  Core.keeps_resumeLinkRead (fun _ _ hJ => hJ) (fun _ _ _ _ hJ _ => hJ) (K.pumpFrames A)

theorem uplink_announceClosed {reason : CloseReason} {moved : Stream} :
    Keeps ChunkUndrained (UplinkInv A) (announceClosed options k streamId reason moved) :=
  fun _ _ => wp_announceClosed (uplink_send K) (fun _ _ _ => id)
    (fun _ _ _ _ hJ => wp_releaseLocal (uplink_core A) (uplink_calls K)
      (uplink_calls K) (fun _ _ _ hJ _ _ => hJ) hJ)
    fun h s hJ => uplink_resumeLinkRead K h s hJ

theorem uplink_closeLocal {reason : CloseReason} :
    Keeps ChunkUndrained (UplinkInv A) (closeLocal options k streamId reason) :=
  fun _ _ hJ => wp_closeLocal (fun _ => hJ) fun _ hfound =>
    uplink_announceClosed K _ _ (hJ.close hfound (hJ.rows _ _ hfound).alerted)

/-! ### Tearing down -/

omit K in
theorem tearing_core : Core Tearing where
  stable h s s' htouched hJ := ⟨hJ.1, by rw [htouched.node]; exact hJ.2⟩
  node h s node haside hJ := ⟨hJ.1, haside.channel.trans hJ.2⟩
  stream h s streamId f _ hJ := hJ
  note h s n hn hJ :=
    ⟨closedIntact_append hJ.1 fun _ _ heq => absurd heq ((quiet_aside hn).2 _ _ _ _), hJ.2⟩

/-- Without a channel, closing a stream that did not end well frames nothing. -/
theorem tearing_closeLocal {reason : CloseReason} (hreason : reason ≠ .normal) :
    Keeps ChunkUndrained Tearing (closeLocal options k streamId reason) := by
  refine fun h s hJ => wp_closeLocal (fun _ => hJ) fun moved _ => ?_
  have hclosed : Tearing (h ++ [.closed streamId reason moved.localEof moved.pendingToHome])
      (s.withNode (s.node.removeStream streamId moved)) :=
    ⟨closedIntact_append hJ.1 fun _ _ heq => absurd (Note.closed.inj heq).2.1 hreason, hJ.2⟩
  have hsend : ∀ outgoing, Keeps ChunkUndrained Tearing (sendFrameToNode k outgoing) :=
    fun outgoing h s hJ => by
      simp [sendFrameToNode, TlsChannel.send, TlsChannel.openOf, hJ, hJ.2]
  have hresume : Keeps ChunkUndrained Tearing (resumeLinkRead options k) :=
    fun h s hJ => by simp [resumeLinkRead, hJ, hJ.2]
  exact wp_announceClosed (fun outgoing _ => hsend outgoing) (fun _ _ _ => id)
    (fun p _ h s hJ => wp_releaseLocal_lost tearing_core hreason
      (fun h s id hJ _ => K.localLost id p h s hJ) hJ) hresume hclosed

/-- **The end of a link ends every stream**, whatever was framed of it. -/
theorem closeLink_lost (hclosed : ClosedIntact h) (hup : s.node.channel.isSome) :
    wp ChunkUndrained (closeLink options k) (fun _ h s => ClosedIntact h ∧ s.node.streams = ∅)
      h s := by
  refine wp_closeLink (T := Tearing) (fun hnone => ?_) ⟨hclosed, rfl⟩
    (fun _ => tearing_closeLocal K (by decide)) fun h s node hT _ hempty _ _ _ _ => ⟨hT.1, hempty⟩
  rw [hnone] at hup
  cases hup

theorem uplink_closeLink : Keeps ChunkUndrained (UplinkInv A) (closeLink options k) :=
  fun _ _ hJ => wp_closeLink (fun _ => hJ) hJ (fun _ => uplink_closeLocal K)
    fun _ _ _ hT _ hempty _ _ _ _ =>
      hT.closed.uplink hempty

/-! ### Flushing -/

omit K in
theorem uplink_resumeLocalReads :
    Keeps ChunkUndrained (UplinkInv A) (resumeLocalReads options) :=
  (uplink_core A).keeps_resumeLocalReads fun _ _ hJ => hJ.mapEntries
    (fun stream => by unfold resumeRead; split <;> rfl)
    (fun stream => by unfold resumeRead; split <;> rfl)
    fun stream => by unfold resumeRead; split <;> rfl

omit K in
theorem uplink_pauseAllLocalReads :
    Keeps ChunkUndrained (UplinkInv A) pauseAllLocalReads :=
  (uplink_core A).keeps_pauseAllLocalReads fun _ _ hJ => hJ.mapEntries
    (fun stream => by unfold pauseRead; split <;> rfl)
    (fun stream => by unfold pauseRead; split <;> rfl)
    fun stream => by unfold pauseRead; split <;> rfl

theorem uplink_finishFlush {stream : Stream} :
    Keeps ChunkUndrained (UplinkInv A) (finishFlush options k streamId stream) :=
  (uplink_core A).keeps_finishFlush (uplink_closeLocal K)
    (fun _ _ hJ => wp_modifyStream.2 (hJ.adjust (fun _ => rfl) (fun _ => rfl) fun _ h => h))
    uplink_resumeLocalReads

/-- **A chunk is sent as one step**: when its send returns, either nothing else has happened or
the link is gone. -/
theorem wp_sendChunk {bytes : Bytes} (hclosed : ClosedIntact h) (hopen : TlsChannel.openOf s ≠ none) :
    wp ChunkUndrained (sendFrameToNode k (.chunk streamId bytes)) (fun _ h' s' =>
      (h' = h ++ [.sent (.chunk streamId bytes)] ∧ s'.node.streams = s.node.streams) ∨
        (ClosedIntact h' ∧ s'.node.streams = ∅)) h s := by
  have hsent : ClosedIntact (h ++ [.sent (.chunk streamId bytes)]) :=
    closedIntact_append hclosed fun _ _ heq => by cases heq
  have hlost : ∀ h' s', ClosedIntact h' → s'.node.channel.isSome →
      wp ChunkUndrained k.channelClosed (fun _ h' s' =>
        (h' = h ++ [.sent (.chunk streamId bytes)] ∧ s'.node.streams = s.node.streams) ∨
          (ClosedIntact h' ∧ s'.node.streams = ∅)) h' s' :=
    fun h' s' hclosed hup => wp_mono (K.channelLost h' s' hclosed hup) fun _ _ _ => .inr
  have c : TlsChannel.Calls ChunkUndrained (channelHooks k) (some (.chunk streamId bytes))
      (fun h' s' => h' = h ++ [.sent (.chunk streamId bytes)] ∧ s'.node.streams = s.node.streams)
      (fun h' s' =>
        (h' = h ++ [.sent (.chunk streamId bytes)] ∧ s'.node.streams = s.node.streams) ∨
          (ClosedIntact h' ∧ s'.node.streams = ∅)) :=
    { stable := fun h' s₁ s₂ htouched hP => ⟨hP.1, by rw [htouched.node]; exact hP.2⟩
      buffer := fun h' s' channel _ hP _ => hP
      weaken := fun _ _ => .inl
      onDrained := fun _ _ _ _ _ _ hok => absurd rfl (hok streamId bytes)
      onClosed := fun h' s' channel hP _ => hlost _ _ (hP.1 ▸ hsent) rfl }
  refine c.send (fun hnone => absurd hnone hopen) (fun _ _ _ => ⟨rfl, rfl⟩) (fun _ _ hQ _ => hQ)
    (fun h' s' channel hQ _ => hlost _ _ ?_ rfl) (fun _ _ _ hQ _ => hQ) fun _ _ _ hQ _ _ => hQ
  rcases hQ with ⟨rfl, -⟩ | ⟨hQ, -⟩
  · exact hsent
  · exact hQ

theorem uplink_flushToHome : Keeps ChunkUndrained (UplinkInv A) (flushToHome options k streamId) := by
  refine .loop fun h s hJ => ?_
  rw [flushToHomeOnce, wp_bind, wp_findStream, wp_bind, TlsChannel.wp_getOpen]
  rcases hfound : s.node.streams.lookup streamId with _ | stream
  · exact wp_pure.2 hJ
  rcases hopen : TlsChannel.openOf s with _ | channel
  · exact wp_pure.2 hJ
  simp only [wp_ite, wp_bind, wp_pure]
  refine ⟨fun _ => uplink_finishFlush K h s hJ, fun _ => ⟨fun _ => hJ, fun _ => ?_⟩⟩
  rcases hchunk : stream.sendWindow.nextChunk stream.pendingToHome.length with _ | chunk
  · exact wp_pure.2 hJ
  refine wp_bind.2 (wp_mono (wp_sendChunk K hJ.closed (by simp [hopen])) fun _ h' s' hsent => ?_)
  rw [wp_bind, wp_findStream]
  rcases hsent with ⟨rfl, hstreams⟩ | ⟨hclosed, hempty⟩
  · rw [hstreams, hfound]
    simp only [wp_bind, wp_modifyStream, wp_modifyNode, wp_pure]
    have := hJ.chunk (f := fun stream =>
      { stream with
        sendWindow := stream.sendWindow.recordUsed chunk
        pendingToHome := stream.pendingToHome.drop chunk }) hfound rfl rfl rfl
    rw [← hstreams] at this
    exact this
  · rw [hempty]
    exact wp_pure.2 (hclosed.uplink hempty)

/-! ### The other functions -/

theorem uplink_flushToLocal :
    Keeps ChunkUndrained (UplinkInv A) (flushToLocal options k streamId) :=
  (uplink_core A).keeps_flushToLocal
    (fun _ _ hJ => wp_modifyStream.2 (hJ.adjust (fun _ => rfl) (fun _ => rfl) fun _ h => h))
    (fun _ => uplink_modifyNode fun _ => rfl)
    (fun _ bytes _ _ => (uplink_calls K).send bytes) (uplink_send K)
    (uplink_resumeLinkRead K)

theorem uplink_dialListener : Keeps ChunkUndrained (UplinkInv A) (dialListener k streamId) := by
  have hconnect : Keeps ChunkUndrained (UplinkInv A)
      (TcpPeer.connect streamId : LinkProg (Option ℕ)) := by
    intro h s hJ
    simp only [TcpPeer.connect, nextDial, addPeer, wp_bind, wp_get, wp_modify, wp_pure, wp_ite]
    exact ⟨fun _ => hJ, fun _ => hJ⟩
  refine .bind hconnect fun dialled => ?_
  rcases dialled with _ | p
  · exact .bind (uplink_send K (.close _ _) trivial) fun _ _ _ hJ => wp_modifyNode.2 hJ.erase
  · exact fun _ _ hJ => wp_modifyStream.2 (hJ.adjust (fun _ => rfl) (fun _ => rfl) fun _ h => h)

theorem uplink_holdForLocal {stream : Stream} {payload : Bytes} :
    Keeps ChunkUndrained (UplinkInv A) (holdForLocal options k streamId stream payload) := by
  refine .ite (uplink_closeLocal K) (.bind ?_ fun _ => .bind keeps_getNode fun _ => .when ?_)
  · exact fun _ _ hJ => wp_modifyNode.2 (hJ.adjust (fun _ => rfl) (fun _ => rfl) fun _ h => h)
  · exact .bind (uplink_modifyNode fun _ => rfl) fun _ => uplink_modifyNode fun _ => rfl

/-- A refused stream is exempt while its alert is on its way, and closed then. -/
theorem uplink_refuseStream {stream : Stream} (hJ : UplinkInv A h s)
    (hfound : s.node.streams.lookup streamId = some stream) (hrouted : stream.routed = false) :
    wp ChunkUndrained (refuseStream options k streamId) (fun _ => UplinkInv A) h s := by
  have hexempt : UplinkInv (fun id => A id ∨ id = streamId) h s := by
    refine Uplink.exempt hJ fun row hrow => ?_
    obtain rfl : stream = row := Option.some.inj (hfound.symm.trans hrow)
    exact ((hJ.rows _ _ hfound).unrouted hrouted).1
  have hsend : Keeps ChunkUndrained (UplinkInv fun id => A id ∨ id = streamId)
      (sendFrameToNode k (.alert streamId (tlsAlertRecord kUnrecognizedNameAlert))) :=
    keeps_sendFrameToNode (uplink_core _) (fun _ _ _ _ hJ _ => hJ)
      (fun _ _ hJ => Uplink.alert hJ (.inr rfl)) (fun _ _ hJ => hJ.note (quiet_drained _))
      (K.channelDrained _) (K.channelClosed _)
  rw [refuseStream, wp_bind]
  refine wp_mono (hsend h s hexempt) fun _ h s hJ => wp_closeLocal (fun hgone => hJ.refused hgone) ?_
  exact fun moved hfound =>
    uplink_announceClosed K _ _
      ((hJ.close hfound (hJ.rows _ _ hfound).alerted).refused (AList.lookup_erase _ _))

theorem uplink_kept : Kept options k ChunkUndrained (UplinkInv A) where
  toCore := uplink_core A
  send := uplink_send K
  sendLocal _ bytes _ _ := (uplink_calls K).send bytes
  closeLocal _ _ := uplink_closeLocal K
  closeLink := uplink_closeLink K
  flushToHome _ := uplink_flushToHome K
  refuseStream _ _ _ _ := uplink_refuseStream K
  holdForLocal h s _ _ _ _ hJ _ _ _ := uplink_holdForLocal K h s hJ
  insert _ _ _ _ hJ _ _ hfresh _ := Uplink.insert hJ hfresh.pendingToHome hfresh.localEof
  dialOpened h s _ _ hJ _ _ _ _ := uplink_dialListener K h s hJ
  dialRouted h _ _ _ hJ _ _ _ := uplink_dialListener K h _
    (Uplink.adjust hJ (fun _ => rfl) (fun _ => rfl) fun _ hrouted => by cases hrouted)

/-- The end of a local peer's bytes closes its stream when nothing waits. -/
theorem uplink_handleLocalEof (hJ : UplinkInv (fun _ => False) h s) :
    wp ChunkUndrained (handleLocalEof options k streamId)
      (fun _ => UplinkInv fun _ => False) h s := by
  rw [handleLocalEof, wp_bind, wp_findStream]
  rcases hfound : s.node.streams.lookup streamId with _ | stream
  · exact wp_pure.2 hJ
  simp only [wp_bind, wp_modifyStream, wp_when]
  have hended : (s.node.streams.adjust streamId fun stream => { stream with localEof := true }).lookup
      streamId = some { stream with localEof := true } := by
    rw [Table.lookup_adjust_self, hfound, Option.map_some]
  refine ⟨fun _ => wp_closeLocal (fun hgone => ?_) fun moved hmoved => ?_, fun hwaiting => ?_⟩
  · replace hgone : (s.node.streams.adjust streamId _).lookup streamId = none := hgone
    rw [hended] at hgone
    cases hgone
  · obtain rfl := Option.some.inj (hended.symm.trans hmoved)
    refine uplink_announceClosed K _ _ ?_
    have hclosed : Uplink (fun _ => False) (h ++ [.closed streamId .normal true stream.pendingToHome])
        (s.node.streams.erase streamId) := hJ.close hfound False.elim
    simpa [UplinkInv, LinkHost.withNode, LinkState.removeStream, Table.erase_adjust] using hclosed
  · refine ⟨fun id row hrow => ?_, hJ.closed⟩
    rcases Table.lookup_adjust.1 hrow with ⟨rfl, before, hbefore, rfl⟩ | ⟨-, hbefore⟩
    · obtain rfl : before = stream := Option.some.inj (hbefore.symm.trans hfound)
      obtain ⟨hintact, -, hunrouted⟩ := hJ.rows _ _ hbefore
      exact ⟨hintact, False.elim, fun h => absurd (hunrouted h).2 hwaiting⟩
    · exact hJ.rows _ _ hbefore

/-- Bytes of a local peer wait in its stream, or the stream is closed in error. -/
theorem uplink_onLocalRead {stream : Stream} {data : Bytes}
    (hfound : s.node.streams.lookup streamId = some stream) (hrouted : stream.routed = true)
    (hJ : UplinkInv A h s) :
    wp ChunkUndrained (onLocalRead options k streamId data) (fun _ => UplinkInv A) h s := by
  have hread : ∀ f : Stream → Stream,
      (∀ stream, (f stream).pendingToHome = stream.pendingToHome ++ data) →
      (∀ stream, (f stream).localEof = stream.localEof) →
      (∀ stream, (f stream).routed = stream.routed) →
      Uplink A (h ++ [.read streamId data]) (s.node.streams.adjust streamId f) := by
    intro f hpending heof hsame
    refine hJ.read hpending heof fun row hrow => ?_
    obtain rfl : stream = row := Option.some.inj (hfound.symm.trans hrow)
    exact (hsame stream).trans hrouted
  simp only [onLocalRead, wp_bind, wp_findStream, hfound, wp_note, writeToStream, wp_ite, wp_pure,
    wp_getNode, TlsChannel.wp_getOpen]
  refine fun _ => ⟨?_, fun _ => ?_⟩
  · rintro rfl
    refine ⟨fun id row hrow => ?_, (hread id (by simp) (fun _ => rfl) fun _ => rfl).closed⟩
    refine (hJ.rows id row hrow).same (by simp [Note.framedStep]) ?_ rfl rfl fun h => h
    simp [Note.readStep]
  rcases s.node.helloReceived with _ | _ <;> rcases TlsChannel.openOf s with _ | channel
  case true.some =>
    simp only [wp_bind]
    refine wp_mono ((uplink_core A).wp_holdForHome ?_ ?_ uplink_pauseAllLocalReads)
      fun _ h s hJ => uplink_flushToHome K h s hJ
    · exact hread _ (fun _ => rfl) (fun _ => rfl) fun _ => rfl
    · exact fun _ _ hJ => wp_modifyStream.2
        (hJ.adjust (fun _ => rfl) (fun _ => rfl) fun _ h => h)
  all_goals
    refine wp_closeLocal (fun hgone => ?_) fun moved hmoved => ?_
    · rw [hfound] at hgone
      cases hgone
    · exact uplink_announceClosed K _ _ (Uplink.lose hJ (by decide))

end Functions

/-- The entry points keep the uplink intact however deep the calls nest. -/
theorem uplink_kernel (options : LinkOptions) (n : ℕ) : UplinkKernel (kernel options n) := by
  induction n with
  | zero =>
    exact
      { channelDrained := fun _ => .stuck
        channelClosed := fun _ => .stuck
        pumpFrames := fun _ => .stuck
        localDrained := fun _ _ _ => .stuck
        localClosed := fun _ _ _ => .stuck
        channelLost := fun _ _ _ _ => wp_stuck
        localLost := fun _ _ => .stuck }
  | succ n ih =>
    exact
      { channelDrained := fun _ => Core.keeps_onChannelDrained (fun _ => uplink_flushToHome ih)
          uplink_resumeLocalReads (uplink_resumeLinkRead ih)
        channelClosed := fun _ => uplink_closeLink ih
        pumpFrames := fun _ => (uplink_kept ih).pumpFrames
        localDrained := fun _ _ _ => Core.keeps_onLocalDrained (uplink_flushToLocal ih)
        localClosed := fun _ _ _ => Core.keeps_onLocalClosed fun _ _ => uplink_closeLocal ih
        channelLost := fun _ _ => closeLink_lost ih
        localLost := fun _ _ => Core.keeps_onLocalClosed fun _ => tearing_closeLocal ih }

/-- Every event keeps the uplink intact. -/
theorem uplink_events (options : LinkOptions) (n : ℕ) :
    KeptEvents options (kernel options n) ChunkUndrained (WiredInv NoPeer NoPeer)
      (UplinkInv fun _ => False) := by
  have K := uplink_kernel options n
  exact
    { toKept := uplink_kept K
      flags := fun _ _ _ _ hJ _ _ _ _ => hJ
      opened := fun _ _ hJ _ => hJ
      flush := keeps_channelFlush (uplink_core _) (fun _ _ _ _ hJ _ => hJ)
        (fun _ _ hJ => hJ.note (quiet_drained _))
        (Core.keeps_onChannelDrained (fun _ => uplink_flushToHome K) uplink_resumeLocalReads
          (uplink_resumeLinkRead K))
        (uplink_closeLink K)
      close := keeps_channelClose (fun _ _ _ _ hJ _ => hJ) (uplink_closeLink K)
      closeReleased := fun _ => (uplink_calls K).close
      localRead := fun h s p id data hwired hJ hcallbacks hopen hgoing => by
        obtain ⟨stream, hfound, -, hrouted⟩ := Wired.reading hwired hcallbacks hopen hgoing
        exact uplink_onLocalRead K hfound hrouted hJ
      localEof := fun _ _ _ _ => uplink_handleLocalEof K
      flushToLocal := fun _ => uplink_flushToLocal K
      applied := fun _ _ _ hJ => hJ }

/-- **Integrity of the uplink**: in every run in which no send of a chunk calls `onDrained`, what
was framed for a stream followed by what waits is what was read, for every open stream and for
every stream that ended well after its local peer had ended. -/
theorem uplink_intact {options : LinkOptions} {h : List Note} {s : LinkHost}
    (hrun : Run (LinkStep options) initialHost h s) (hok : ∀ n ∈ h, ChunkUndrained n) :
    UplinkIntact h s := by
  have hinv : WiredInv NoPeer NoPeer h s ∧ UplinkInv (fun _ => False) h s := by
    refine run_invariant (fun fuel => (wired_events options _ fuel).and (uplink_events options fuel))
      hrun hok ⟨wired_initialHost, ?_⟩
    exact ClosedIntact.uplink (fun before _ _ _ heq => by simp at heq) rfl
  exact ⟨fun id stream hfound => (hinv.2.rows id stream hfound).intact not_false, hinv.2.closed⟩

/-- Three bytes of a local peer, framed once. -/
theorem uplink_intact_three : ∃ h s, Run (LinkStep {}) initialHost h s ∧
    (∀ n ∈ h, ChunkUndrained n) ∧ framedOf 5 h = [1, 2, 3] ∧ UplinkIntact h s := by
  have hreplay : CanReach {} fun h _ => decide (h = [.sent (.hello 3), .opened 5,
      .read 5 [1, 2, 3], .sent (.chunk 5 [1, 2, 3])]) = true :=
    canReach_of_replay 4 [⟨.openChannel true, 0, [], []⟩,
      ⟨.channel { writable := true, handshake := .done }, 0, [⟨100, false⟩], []⟩,
      ⟨.channel { readable := true, reads := [.bytes (encodeHello 0 ++ encodeOpen 5)] }, 0, [],
        [true]⟩,
      ⟨.localPeer 0 { writable := true }, 0, [], []⟩,
      ⟨readable 0 [1, 2, 3], 0, [], []⟩] _ (by decide +kernel)
  obtain ⟨h, s, hrun, hcheck⟩ := hreplay
  have hnotes := of_decide_eq_true hcheck
  have hok : ∀ n ∈ h, ChunkUndrained n := by simp [hnotes, ChunkUndrained]
  exact ⟨h, s, hrun, hok, by rw [hnotes]; rfl, uplink_intact hrun hok⟩

/-! ### The chunk that is sent twice -/

/-- The node opens stream 5, and its local peer is connected. -/
def attach : List Stimulus :=
  [⟨.openChannel true, 0, [], []⟩,
    ⟨.channel { writable := true, handshake := .done }, 0, [⟨100, false⟩], []⟩,
    ⟨.channel { readable := true, reads := [.bytes (encodeHello 0 ++ encodeOpen 5)] }, 0, [], [true]⟩,
    ⟨.localPeer 0 { writable := true }, 0, [], []⟩]

/-- A client with one stream that has read as much as it framed, with `n` bytes on the channel. -/
structure Filling (n : ℕ) (notified : Bool) (h : List Note) (s : LinkHost) : Prop where
  same : framedOf 5 h = readOf 5 h
  serves : ∃ stream channel, Serves 5 stream channel s ∧ stream.sendWindow.limited = false ∧
    channel.connecting = false ∧ channel.sendBuffer.length = n ∧
      channel.congestedNotified = notified
  total : s.node.globalPendingToHome = 0
  reading : s.node.linkReadPaused = false
  keys : s.node.streams.keys = [5]
  peer : s.peers 0 = { callbacks := some 5, connected := true }
  now : s.node.now = 0

theorem canReach_filling : CanReach {} (Filling 0 false) := by
  have hreplay : CanReach {} fun h s => decide (h = [.sent (.hello 3), .opened 5] ∧
      s.node.channel = some { ready := true, connecting := false } ∧
      s.node.streams.entries = [⟨5, {
        localPeer := some 0
        localAttached := true
        sendWindow := { window := 262144, remaining := 262144 }
        receiveWindow := { window := 262144, remaining := 262144 } }⟩] ∧
      s.node.helloReceived = true ∧ s.node.globalPendingToHome = 0 ∧
      s.node.linkReadPaused = false ∧ s.peers 0 = { callbacks := some 5, connected := true } ∧
      s.node.now = 0) = true :=
    canReach_of_replay 4 attach _ (by decide +kernel)
  obtain ⟨h, s, hrun, hcheck⟩ := hreplay
  obtain ⟨rfl, hchannel, hstreams, hhello, htotal, hreading, hpeer, hnow⟩ := of_decide_eq_true hcheck
  have hlookup : ∀ id, s.node.streams.lookup id = List.dlookup id s.node.streams.entries :=
    fun _ => rfl
  refine ⟨_, s, hrun, rfl, ⟨_, _, ⟨(hlookup 5).trans (by rw [hstreams]; rfl), rfl, rfl, ?_,
    TlsChannel.openOf_eq_some.2 ⟨hchannel, rfl⟩, rfl, hhello⟩, rfl, rfl, rfl, rfl⟩, htotal, hreading,
    by rw [AList.keys, hstreams]; rfl, hpeer, hnow⟩
  intro id row hrow
  rw [hlookup, hstreams] at hrow
  by_cases hid : id = 5
  · subst hid
    obtain rfl := Option.some.inj hrow
    rfl
  · rw [List.dlookup_cons_ne _ _ hid] at hrow
    cases hrow

theorem length_encodeData (streamId : UInt32) (data : Bytes) :
    (encodeData streamId data).length = data.length + 12 := by
  simp [encodeData, encodeFrame, appendU16, appendU32]

theorem node_now {s : LinkHost} {stimulus : Stimulus} (hnow : s.node.now = stimulus.now) :
    (stimulus.arm s).node = s.node := by
  obtain ⟨peers, nextPeer, answers, dials, node⟩ := s
  cases node
  simp only [Stimulus.arm] at hnow ⊢
  rw [hnow]

theorem nextChunk_unlimited {window : CreditWindow} {data : Bytes} (hlimited : window.limited = false)
    (hdata : data ≠ []) (hlen : data.length ≤ 65536) :
    window.nextChunk data.length = some data.length := by
  simp [CreditWindow.nextChunk, hlimited, hdata, kDataFrameMax, hlen]

/-- A read while the socket takes nothing. -/
theorem Filling.read {n : ℕ} {notified : Bool} {h : List Note} {s : LinkHost} {data : Bytes}
    (hfill : Filling n notified h s) (hdata : data ≠ []) (hlen : data.length ≤ 65536)
    (hroom : n < kSendLimit) :
    yields (perform {} (kernel {} 2) (readable 0 data))
      (fun _ => Filling (n + data.length + 12)
        (notified || kSendLimit ≤ n + data.length + 12)) h
      (Stimulus.arm ⟨readable 0 data, 0, [], []⟩ s) := by
  obtain ⟨hsame, ⟨stream, channel, serves, hlimited, hconnecting, hbuffer, hnotified⟩, htotal, hreading,
    hkeys, hpeer, hnow⟩ := hfill
  have hlimit : kSendLimit = 262144 := rfl
  have hcap : kSendHardCap = 4194304 := rfl
  have hnode : (Stimulus.arm ⟨readable 0 data, 0, [], []⟩ s).node = s.node := node_now hnow
  -- a data frame has twelve bytes before its data
  have hsent : (channel.sent (encodeData 5 data) 0).sendBuffer.length = n + data.length + 12 := by
    simp only [TlsChannel.sent, List.drop_zero, List.length_append, length_encodeData, hbuffer]
    omega
  have hfits : Fits 5 stream.sendWindow channel (Stimulus.arm ⟨readable 0 data, 0, [], []⟩ s)
      data := by
    refine ⟨hdata, nextChunk_unlimited hlimited hdata hlen, ?_, rfl, fun _ hempty => ?_, ?_⟩
    · simp only [TlsChannel.congested, hbuffer, decide_eq_false_iff_not]
      omega
    · have hzero : (channel.sent (encodeData 5 data) 0).sendBuffer.length = 0 := by
        rw [show (channel.sent (encodeData 5 data) 0).sendBuffer = [] from hempty]
        rfl
      omega
    · exact lt_of_eq_of_lt hsent (by omega)
  refine (serves.congr hnode).readable (n := 0) hfits ?_ ?_ hpeer fun s' hs' hpeer' => ?_
  · exact Nat.lt_of_le_of_lt hlen (by decide)
  · rw [hnode, htotal]
    simp only [UInt64.zero_add, UInt64.toNat_ofNat']
    exact Nat.lt_of_le_of_lt (Nat.mod_le _ _) (Nat.lt_of_le_of_lt hlen (by decide))
  have after := ((serves.congr hnode).flushed data).congr hs'
  refine ⟨?_, ⟨_, _, after, ?_, hconnecting, hsent, ?_⟩, ?_, ?_, ?_, hpeer'.trans hpeer, ?_⟩
  · rw [framedOf_append, framedOf_append, readOf_append, readOf_append]
    simp [Note.framedStep, Note.readStep, hsame]
  · simp [Stream.after, CreditWindow.recordUsed, hlimited]
  · change (channel.congestedNotified ||
      decide (kSendLimit ≤ (channel.sent (encodeData 5 data) 0).sendBuffer.length)) = _
    rw [hsent, hnotified]
  · rw [hs']
    simp [LinkHost.flushed, LinkHost.holding, LinkHost.withNode, hnode, htotal]
  · rw [hs']
    exact hreading
  · rw [hs']
    have hfound : s.node.streams.lookup 5 = some stream := serves.found
    simp [LinkHost.flushed, LinkHost.holding, LinkHost.withNode, hnode, Table.adjust, hfound,
      AList.keys_insert, hkeys]
  · rw [hs']
    rfl

/-- The socket takes a part of the buffer. -/
theorem Filling.drainPart {n w : ℕ} {notified : Bool} {h : List Note} {s : LinkHost}
    (hfill : Filling n notified h s) (hw : w < n) :
    yields (perform {} (kernel {} 2) (.channel { writable := true })) (fun _ => Filling (n - w) notified)
      h (Stimulus.arm ⟨.channel { writable := true }, 0, [⟨w, false⟩], []⟩ s) := by
  obtain ⟨hsame, ⟨stream, channel, serves, hlimited, hconnecting, hbuffer, hnotified⟩, htotal, hreading,
    hkeys, hpeer, hnow⟩ := hfill
  have hnode : (Stimulus.arm ⟨.channel { writable := true }, 0, [⟨w, false⟩], []⟩ s).node = s.node :=
    node_now hnow
  have hserves := serves.congr hnode
  have hleft : (channel.sendBuffer.drop w).length = n - w := by rw [List.length_drop, hbuffer]
  have hnonempty : channel.sendBuffer.drop w ≠ [] := by
    intro hempty
    rw [hempty, List.length_nil] at hleft
    omega
  rw [perform, TlsChannel.dispatch, yields_bind, TlsChannel.yields_getOpen, hserves.opened]
  simp only [hconnecting, Bool.false_eq_true, if_false, yields_bind, yields_when,
    TlsChannel.yields_getOpen, hserves.opened, hserves.ready, not_true, false_implies,
    not_false_eq_true, true_implies, true_and]
  refine ⟨⟨TlsChannel.yields_flush hserves.opened hserves.ready ?_ rfl (fun _ => hnonempty) ?_,
    trivial⟩, trivial⟩
  · rintro hempty
    rw [hempty] at hbuffer
    simp only [List.length_nil] at hbuffer
    omega
  refine ⟨hsame, ⟨stream, { channel with sendBuffer := channel.sendBuffer.drop w }, ?_, hlimited,
    hconnecting, hleft, hnotified⟩, ?_, ?_, ?_, hpeer, rfl⟩
  · obtain ⟨hfound, hempty, hgoing, hunpaused, hopened, hready, hhello⟩ := hserves
    exact ⟨hfound, hempty, hgoing, hunpaused,
      TlsChannel.openOf_withChannel (TlsChannel.openOf_eq_some.1 hopened).2, hready, hhello⟩
  · exact htotal
  · exact hreading
  · exact hkeys

/-- A chunk that empties a buffer whose congestion was reported is sent a second time by the
`onDrained` inside its send. -/
theorem Serves.flushTwice {n : ℕ} {h : List Note} {s : LinkHost} {stream : Stream}
    {channel : TlsChannel} {data : Bytes} (serves : Serves 5 stream channel s)
    (hlimited : stream.sendWindow.limited = false) (hdata : data ≠ [])
    (hlen : data.length ≤ 65536) (hbuffer : channel.sendBuffer.length = n)
    (hnotified : channel.congestedNotified = true) (hroom : n < kSendLimit)
    (hanswers : s.answers = [⟨n + data.length + 12, false⟩])
    (hreading : s.node.linkReadPaused = false) (hkeys : s.node.streams.keys = [5]) :
    yields (Link.flushToHome {} (kernel {} 4) 5) (fun _ h' s' =>
      h' = h ++ [.sent (.chunk 5 data)] ++ [.drained (some (.chunk 5 data))] ++
        [.sent (.chunk 5 data)] ∧
      ∃ row, s'.node.streams.lookup 5 = some row ∧ row.pendingToHome = []) h (s.holding 5 data) := by
  have hlimit : kSendLimit = 262144 := rfl
  have hcap : kSendHardCap = 4194304 := rfl
  have hwaiting : (s.holding 5 data).node.streams.lookup 5 =
      some { stream with lastActivity := s.node.now, pendingToHome := data } := by
    simp [LinkHost.holding, LinkHost.withNode, Table.lookup_adjust_self, serves.found, serves.empty]
  have hopen : TlsChannel.openOf (s.holding 5 data) = some channel := serves.opened
  have hcongested : channel.congested = false := by
    simp only [TlsChannel.congested, hbuffer, decide_eq_false_iff_not]
    omega
  have hanswer : (s.holding 5 data).answer = ⟨n + data.length + 12, false⟩ := by
    rw [show (s.holding 5 data).answer = s.answer from rfl, LinkHost.answer, hanswers]
    rfl
  -- the state inside the send: the buffer is empty, and the chunk still waits
  let inner : LinkHost := LinkHost.withChannel { s with answers := s.answers.tail }
    { channel with sendBuffer := [], congestedNotified := false }
  have hinner : Serves 5 stream { channel with sendBuffer := [], congestedNotified := false } inner :=
    ⟨serves.found, serves.empty, serves.going, serves.unpaused,
      TlsChannel.openOf_withChannel (TlsChannel.openOf_eq_some.1 serves.opened).2, serves.ready,
      serves.hello⟩
  have hinnerAnswer : inner.answer = ⟨0, false⟩ := by
    simp [inner, LinkHost.answer, LinkHost.withChannel, LinkHost.withNode, hanswers]
  have hsent : (TlsChannel.sent { channel with sendBuffer := [], congestedNotified := false }
      (encodeData 5 data) inner.answer.written).sendBuffer.length = data.length + 12 := by
    rw [hinnerAnswer]
    simp [TlsChannel.sent, length_encodeData]
  have hfits : Fits 5 stream.sendWindow
      { channel with sendBuffer := [], congestedNotified := false } inner data :=
    { nonempty := hdata
      chunk := nextChunk_unlimited hlimited hdata hlen
      room := by simp [TlsChannel.congested, kSendLimit]
      answer := by rw [hinnerAnswer]
      left := by simp
      cap := lt_of_eq_of_lt hsent (by omega) }
  have after := hinner.flushed data
  rw [Link.flushToHome, show (kernel {} 4).fuel = 3 + 1 from rfl]
  refine yields_loop ?_
  rw [flushToHomeOnce]
  simp only [yields_bind, yields_findStream, hwaiting, TlsChannel.yields_getOpen, hopen, hdata,
    hcongested, nextChunk_unlimited hlimited hdata hlen, if_false, Bool.false_eq_true,
    List.take_length]
  refine yields_sendFrameToNode_drained hopen serves.ready (by rw [hanswer])
    (by simp [Outgoing.frame, encodeData, encodeFrame, hdata]) hnotified ?_ ?_
  · rw [hanswer, List.drop_eq_nil_iff]
    simp only [List.length_append, Outgoing.frame, length_encodeData, hbuffer]
    omega
  rw [show (kernel {} 4).channelDrained = onChannelDrained {} (kernel {} 3) from rfl,
    onChannelDrained, yields_bind, yields_getNode]
  have hinnerKeys : (inner.holding 5 data).node.streams.keys = [5] := by
    have hfound : s.node.streams.lookup 5 = some stream := serves.found
    simp [inner, LinkHost.holding, LinkHost.withChannel, LinkHost.withNode, Table.adjust, hfound,
      AList.keys_insert, hkeys]
  change yields (do
      each (Link.flushToHome {} (kernel {} 3)) (inner.holding 5 data).node.streams.keys
      resumeLocalReads {}
      resumeLinkRead {} (kernel {} 3)) _ _ (inner.holding 5 data)
  rw [hinnerKeys, each, yields_bind, yields_bind]
  refine hinner.flushToHome (n := 1) rfl hfits ?_
  simp only [each, yields_pure, yields_bind]
  refine yields_resumeLocalReads after.unpaused ?_
  rw [resumeLinkRead, yields_bind, yields_getNode, if_pos (.inl (by
    simp [LinkHost.flushed, LinkHost.holding, LinkHost.withNode, inner, LinkHost.withChannel,
      hreading])), yields_pure]
  refine ⟨⟨_, after.opened, lt_of_eq_of_lt hsent (by omega)⟩, ?_⟩
  -- back in the outer flush, which erases the chunk again
  rw [after.found]
  simp only [yields_bind, yields_modifyStream, yields_modifyNode, yields_pure, if_true]
  change yields (loop (2 + 1) (flushToHomeOnce {} (kernel {} 4) 5)) _ _ _
  obtain ⟨row, herased⟩ := after.erased data.length {
    ((inner.holding 5 data).flushed 5 _ data).node with
      streams := Table.adjust 5 _ ((inner.holding 5 data).flushed 5 _ data).node.streams
      globalPendingToHome := _ } rfl rfl rfl
  exact herased.flushDone ⟨rfl, row, herased.found, herased.empty⟩

/-- The last read empties the buffer: its chunk is sent twice. -/
theorem Filling.readTwice {n : ℕ} {h : List Note} {s : LinkHost} {data : Bytes}
    (hfill : Filling n true h s) (hdata : data ≠ []) (hlen : data.length ≤ 65536)
    (hroom : n < kSendLimit) :
    yields (perform {} (kernel {} 4) (readable 0 data)) (fun _ h s => ¬ UplinkIntact h s) h
      (Stimulus.arm ⟨readable 0 data, 0, [⟨n + data.length + 12, false⟩], []⟩ s) := by
  obtain ⟨hsame, ⟨stream, channel, serves, hlimited, hconnecting, hbuffer, hnotified⟩, htotal,
    hreading, hkeys, hpeer, hnow⟩ := hfill
  have hnode : (Stimulus.arm ⟨readable 0 data, 0, [⟨n + data.length + 12, false⟩], []⟩ s).node =
    s.node := node_now hnow
  generalize hs₀ : Stimulus.arm ⟨readable 0 data, 0, [⟨n + data.length + 12, false⟩], []⟩ s = s₀
  have hanswers : s₀.answers = [⟨n + data.length + 12, false⟩] := by rw [← hs₀]; rfl
  have hpeer₀ : s₀.peers 0 = { callbacks := some 5, connected := true } := by rw [← hs₀]; exact hpeer
  rw [hs₀] at hnode
  refine yields_readable hpeer₀ ?_
  generalize hs₁ : s₀.setPeer 0 { callbacks := some 5, connected := true, dispatchDepth := 1 } = s₁
  have hnode₁ : s₁.node = s.node := by rw [← hs₁]; exact hnode
  have hanswers₁ : s₁.answers = [⟨n + data.length + 12, false⟩] := by rw [← hs₁]; exact hanswers
  have serves₁ := serves.congr hnode₁
  simp only [onLocalRead, yields_bind, yields_findStream, serves₁.found, yields_note,
    writeToStream, hdata, if_false, yields_getNode, TlsChannel.yields_getOpen, serves₁.opened,
    serves₁.hello]
  refine serves₁.holdForHome (Nat.lt_of_le_of_lt hlen (by decide)) ?_ ?_
  · rw [hnode₁, htotal]
    simp only [UInt64.zero_add, UInt64.toNat_ofNat']
    exact Nat.lt_of_le_of_lt (Nat.mod_le _ _) (Nat.lt_of_le_of_lt hlen (by decide))
  refine yields_mono (serves₁.flushTwice hlimited hdata hlen hbuffer hnotified hroom hanswers₁
    (by rw [hnode₁]; exact hreading) (by rw [hnode₁]; exact hkeys)) ?_
  rintro _ h' s' ⟨rfl, row, hrow, hempty⟩ hintact
  have hbytes := hintact.opened 5 row hrow
  have hlength := congrArg List.length hbytes
  rw [framedOf_append, framedOf_append, framedOf_append, framedOf_append, readOf_append,
    readOf_append, readOf_append, readOf_append] at hlength
  simp only [Note.framedStep, Note.readStep, if_true, hsame, hempty, List.append_nil,
    List.length_append] at hlength
  have := List.length_pos_iff.2 hdata
  omega

/-- The bytes of one full read. -/
def fullRead : Bytes := List.replicate 65536 0

theorem length_fullRead : fullRead.length = 65536 := List.length_replicate

theorem fullRead_ne_nil : fullRead ≠ [] := List.ne_nil_of_length_pos (by simp [length_fullRead])

/-- Four full reads while the socket takes nothing congest the channel. -/
theorem canReach_congested : CanReach {} (Filling 262192 true) := by
  have hread : ∀ n, n < kSendLimit → CanReach {} (Filling n false) →
      CanReach {} (Filling (n + 65548) (decide (kSendLimit ≤ n + 65548))) := by
    intro n hroom hreach
    refine hreach.next ⟨readable 0 fullRead, 0, [], []⟩ 2 fun h s hfill => ⟨hfill.now.le, ?_⟩
    have := hfill.read fullRead_ne_nil length_fullRead.le hroom
    rwa [length_fullRead, Bool.false_or] at this
  have hfirst := hread 0 (by decide) canReach_filling
  have hsecond := hread 65548 (by decide) (by simpa [kSendLimit] using hfirst)
  have hthird := hread 131096 (by decide) (by simpa [kSendLimit] using hsecond)
  have hfourth := hread 196644 (by decide) (by simpa [kSendLimit] using hthird)
  simpa [kSendLimit] using hfourth

/-- Four full reads congest the channel, the socket takes most of the buffer, and takes all of it
while three more bytes are sent: these are framed twice. -/
theorem not_uplinkIntact_drainedInChunk :
    ¬ ∀ (options : LinkOptions) (h : List Note) (s : LinkHost),
      Run (LinkStep options) initialHost h s → UplinkIntact h s := by
  intro hall
  have hpart : CanReach {} (Filling 192 true) :=
    canReach_congested.next ⟨.channel { writable := true }, 0, [⟨262000, false⟩], []⟩ 2
      fun h s hfill => ⟨hfill.now.le, hfill.drainPart (by decide)⟩
  have htwice : CanReach {} fun h s => ¬ UplinkIntact h s :=
    hpart.next ⟨readable 0 [1, 2, 3], 0, [⟨192 + 3 + 12, false⟩], []⟩ 4
      fun h s hfill => ⟨hfill.now.le, hfill.readTwice (by decide) (by decide) (by decide)⟩
  obtain ⟨h, s, hrun, hnot⟩ := htwice
  exact hnot (hall {} h s hrun)

end Link

end ArgusBackend
