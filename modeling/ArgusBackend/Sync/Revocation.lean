import ArgusBackend.Sync.Sockets

/-!
# A revoked session keeps no socket

* `Gone` : the sockets that were there when their session or their user was disconnected are in no
  room, get no room message, and are shut down, at the latest by the timer of their farewell;
* `Settled` : no socket of the session or the user waits in the middle of its `handleConnect`;
* `revoked_gone` : the sockets are gone in every run whose disconnects find them settled.
-/

namespace ArgusBackend

namespace Sync

variable {Modules : Type} (access : RoleAccess Modules)

/-- What holds of sockets that were revoked. -/
structure Gone (h : List Received) (s : SyncLoop) : Prop where
  rooms : ∀ x ∈ s.sockets, x.revoked = true →
    x.rooms = ∅ ∧ (x.connected = true → x.farewell = true)
  silent : ∀ n ∈ h, n.revoked = false
  shut : ∀ id, ∀ x ∈ (s.handle access (.farewell id)).1.sockets, x.id = id → x.revoked = true →
    x.connected = false

/-- Whoever is disconnected does not wait in the middle of `handleConnect`. -/
def Settled (s : SyncLoop) : Event Modules → Prop
  | .disconnectLocalSession userId sessionId _ =>
    ∀ x ∈ s.sockets, x.ofSession userId sessionId = true → x.connected = true → x.connecting = false
  | .disconnectLocalUserRoom userId _ =>
    ∀ x ∈ s.sockets, x.context.sub = userId → x.connected = true → x.connecting = false
  | _ => True

/-! ### What holds of every socket -/

/-- What holds of every socket. -/
structure Socket.Held (x : Socket) : Prop where
  closed : x.connected = false → x.rooms = ∅
  found : x.connected = true →
    x.connecting = true ∨ x.farewell = true ∨ userRoom x.context.sub ∈ x.rooms
  leaving : x.farewell = true → x.connected = true → x.rooms = ∅ ∧ x.connecting = false
  waiting : x.connecting = true → x.rooms = ∅
  gone : x.revoked = true → x.rooms = ∅ ∧ (x.connected = true → x.farewell = true)

section Steps

variable {access} {x : Socket} {s s' : SyncLoop} {id : ℕ} {role : UserRole} {modules : Modules}
  {room : RoomId} {e : Event Modules} {h notes : List Received}

/-- A socket that is not connected and in no room. -/
theorem Socket.Held.of_closed (hconnected : x.connected = false) (hrooms : x.rooms = ∅) : x.Held :=
  ⟨fun _ => hrooms, fun h => absurd h (by simp [hconnected]), fun _ h => absurd h (by simp [hconnected]),
    fun _ => hrooms, fun _ => ⟨hrooms, fun h => absurd h (by simp [hconnected])⟩⟩

/-- A member of a room is connected, and neither waits nor leaves. -/
theorem Socket.Held.member (hx : x.Held) (hroom : room ∈ x.rooms) :
    x.connected = true ∧ x.connecting = false ∧ x.farewell = false ∧ x.revoked = false ∧
      userRoom x.context.sub ∈ x.rooms := by
  have hsome : x.rooms ≠ ∅ := Finset.ne_empty_of_mem hroom
  have hconnected : x.connected = true := by
    by_contra hnot
    exact hsome (hx.closed (by simpa using hnot))
  have hconnecting : x.connecting = false := by
    by_contra hnot
    exact hsome (hx.waiting (by simpa using hnot))
  have hfarewell : x.farewell = false := by
    by_contra hnot
    exact hsome (hx.leaving (by simpa using hnot) hconnected).1
  have hrevoked : x.revoked = false := by
    by_contra hnot
    exact hsome (hx.gone (by simpa using hnot)).1
  refine ⟨hconnected, hconnecting, hfarewell, hrevoked, ?_⟩
  rcases hx.found hconnected with hc | hf | hr
  · simp [hconnecting] at hc
  · simp [hfarewell] at hf
  · exact hr

/-- A socket that is connected, neither waits nor leaves, and is in its user's room. -/
theorem Socket.Held.of_member (hconnected : x.connected = true) (hconnecting : x.connecting = false)
    (hfarewell : x.farewell = false) (hrevoked : x.revoked = false)
    (hroom : userRoom x.context.sub ∈ x.rooms) : x.Held :=
  ⟨fun h => by simp [hconnected] at h, fun _ => .inr (.inr hroom), fun h => by simp [hfarewell] at h,
    fun h => by simp [hconnecting] at h, fun h => by simp [hrevoked] at h⟩

theorem Socket.Held.settle (hx : x.Held) (hconnecting : x.connecting = true) :
    (x.settle access modules).Held := by
  unfold Socket.settle
  split
  next hconnected =>
    have hfarewell : x.farewell = false := by
      by_contra hnot
      have := (hx.leaving (by simpa using hnot) hconnected).2
      simp [hconnecting] at this
    have hrevoked : x.revoked = false := by
      by_contra hnot
      have := (hx.gone (by simpa using hnot)).2 hconnected
      simp [hfarewell] at this
    exact .of_member hconnected rfl hfarewell hrevoked (by simp)
  next hconnected =>
    exact .of_closed (by simpa using hconnected) (hx.waiting hconnecting)

theorem not_isRoleScopedRoom_userRoom (userId : ℕ) : isRoleScopedRoom (userRoom userId) = false := by
  have hlower : ¬1000 + userId < 450 := by omega
  have hupper : ¬1000 + userId < 1000 := by omega
  simp only [isRoleScopedRoom, userRoom, kConnectedRoom, hlower, decide_false, Bool.and_false,
    Bool.false_or, Bool.and_eq_false_iff]
  exact .inr (decide_eq_false hupper)

theorem Socket.Held.reconcile (hx : x.Held) (hroom : room ∈ x.rooms) (role' : UserRole) :
    Socket.Held { x.reconcileRoleRooms access role modules with
      context := { x.context with role := role' } } := by
  obtain ⟨hconnected, hconnecting, hfarewell, hrevoked, huser⟩ := hx.member hroom
  refine .of_member hconnected hconnecting hfarewell hrevoked ?_
  simp [Socket.reconcileRoleRooms, huser, not_isRoleScopedRoom_userRoom]

theorem Socket.Held.visit {f : Socket → Socket} (hx : x.Held)
    (hf : room ∈ x.rooms → (f x).Held) : (x.visit room f).Held := by
  unfold Socket.visit
  split
  next hroom =>
    split
    next => exact hf hroom
    next hconnected =>
      have hclosed : x.connected = false := by simpa using hconnected
      exact .of_closed hclosed rfl
  next => exact hx

theorem Socket.Held.setRole (hx : x.Held) :
    Socket.Held { x with context := { x.context with role } } :=
  ⟨hx.closed, hx.found, hx.leaving, hx.waiting, hx.gone⟩

theorem finish_connected : x.finish.connected = false := by
  unfold Socket.finish
  split
  · rfl
  next hnot => simpa using hnot

theorem Socket.Held.finish (hrooms : x.rooms = ∅) : x.finish.Held := by
  unfold Socket.finish
  split
  next => exact .of_closed rfl hrooms
  next hconnected => exact .of_closed (by simpa using hconnected) hrooms

/-- A socket that a disconnect has found. -/
theorem Socket.Held.disconnect {revoked delayed : Bool} (hx : x.Held) (hroom : room ∈ x.rooms) :
    (Socket.disconnect { x with revoked } delayed).Held := by
  obtain ⟨hconnected, hconnecting, -, -, -⟩ := hx.member hroom
  simp only [Socket.disconnect, hconnected, if_true, Socket.closeAfterFarewell]
  split
  next =>
    exact ⟨fun _ => rfl, fun _ => .inr (.inl rfl), fun _ _ => ⟨rfl, hconnecting⟩, fun _ => rfl,
      fun _ => ⟨rfl, fun _ => rfl⟩⟩
  next => exact Socket.Held.finish rfl

/-- A socket that a disconnect did not find, and that may have been meant. -/
theorem Socket.Held.missed {meant : Bool} (hx : x.Held)
    (hmeant : meant = true → userRoom x.context.sub ∉ x.rooms ∧
      (x.connected = true → x.connecting = false)) :
    Socket.Held { x with revoked := x.revoked || meant } := by
  refine ⟨hx.closed, hx.found, hx.leaving, hx.waiting, fun hrevoked => ?_⟩
  have hwhy : x.revoked = true ∨ meant = true := by simpa using hrevoked
  rcases hwhy with hold | hnew
  · exact hx.gone hold
  · obtain ⟨hroom, hconnecting⟩ := hmeant hnew
    by_cases hconnected : x.connected = true
    · rcases hx.found hconnected with hc | hf | hr
      · simp [hconnecting hconnected] at hc
      · exact ⟨(hx.leaving hf hconnected).1, fun _ => hf⟩
      · exact absurd hr hroom
    · exact ⟨hx.closed (by simpa using hconnected), fun h => absurd h hconnected⟩

/-! ### Steps -/

/-- What holds of every socket. -/
def Kept (s : SyncLoop) : Prop := ∀ x ∈ s.sockets, x.Held

theorem Kept.each {f : Socket → Socket} (hK : Kept s) (hf : ∀ x ∈ s.sockets, x.Held → (f x).Held) :
    Kept (s.each f) := by
  intro y hy
  obtain ⟨x, hx, rfl⟩ := List.mem_map.1 hy
  exact hf x hx (hK x hx)

theorem Kept.on {f : Socket → Socket} (hK : Kept s) (hf : ∀ x : Socket, x.Held → (f x).Held) :
    Kept (s.on id f) := by
  refine hK.each fun x _ hx => ?_
  split
  · exact hf x hx
  · exact hx

theorem Kept.replaceRoleRooms {userId : ℕ} (hK : Kept s) :
    Kept (s.replaceRoleRooms access userId role modules) :=
  hK.each fun _ _ hx => hx.visit fun hroom => hx.reconcile hroom role

theorem Kept.deliver (hK : Kept s) : Kept (s.deliver access room modules) :=
  hK.each fun x _ hx => hx.visit fun hroom => hx.reconcile hroom x.context.role

theorem Kept.refreshContext {found : DirectoryUser} (hK : Kept s) :
    Kept (s.refreshContext access id found modules) := by
  have hrole : ∀ {s role}, Kept s → Kept (s.setRole id role) :=
    fun hK => hK.on fun _ hx => hx.setRole
  unfold SyncLoop.refreshContext
  split
  next => exact hK
  next x _ =>
    cases found with
    | unavailable => exact hK
    | disabled => exact hK.on fun _ _ => Socket.Held.finish rfl
    | active role =>
      simp only
      split
      next => exact hrole hK.replaceRoleRooms
      next => exact hrole hK

theorem kept_handle (hK : Kept s) (hok : Settled s e) : Kept (s.handle access e).1 := by
  cases e with
  | handleConnect context waits modules =>
    intro x hx
    rcases List.mem_append.1 hx with hold | hnew
    · exact hK x hold
    · rw [List.mem_singleton.1 hnew]
      split
      next =>
        exact ⟨fun _ => rfl, fun _ => .inl rfl, fun h => (nomatch h), fun _ => rfl, fun h => (nomatch h)⟩
      next => exact .of_member rfl rfl rfl rfl (by simp [Socket.settle])
  | settled id modules =>
    refine hK.on fun x hx => ?_
    split
    next hconnecting => exact hx.settle hconnecting
    next => exact hx
  | refreshContext id found modules => exact hK.refreshContext
  | replaceLocalRoleRooms userId role modules => exact hK.replaceRoleRooms
  | modulesChanged modules => exact hK.deliver
  | userChanged userId modules => exact hK.deliver
  | handleDisconnect id => exact hK.on fun _ _ => .of_closed rfl rfl
  | farewell id =>
    refine hK.on fun x hx => ?_
    split
    next hfarewell =>
      -- it left its rooms when its session was disconnected
      have hrooms : x.finish.rooms = ∅ := by
        unfold Socket.finish
        split
        next hconnected => exact (hx.leaving hfarewell hconnected).1
        next hnot => exact hx.closed (by simpa using hnot)
      exact .of_closed finish_connected hrooms
    next => exact hx
  | disconnectLocalSession userId sessionId delayed =>
    refine hK.each fun x hmem hx => ?_
    simp only
    split
    next hfound => exact hx.disconnect hfound.1
    next hmissed =>
      -- not found in the room of its user, so by the condition it is past its await
      refine hx.missed fun hmeant => ⟨fun hroom => hmissed ?_, hok x hmem hmeant⟩
      simp only [Socket.ofSession, Bool.and_eq_true, decide_eq_true_eq] at hmeant
      exact ⟨hmeant.1 ▸ hroom, hmeant.2⟩
  | disconnectLocalUserRoom userId delayed =>
    refine hK.each fun x hmem hx => ?_
    simp only
    split
    next hfound => exact hx.disconnect hfound
    next hmissed =>
      refine hx.missed fun hmeant => ?_
      have huser : x.context.sub = userId := by simpa using hmeant
      exact ⟨fun hroom => hmissed (huser ▸ hroom), hok x hmem huser⟩
  | emitMany rooms => exact hK

/-- What a socket is sent comes to its rooms. -/
theorem silent_handle (hK : Kept s) : ∀ n ∈ (s.handle access e).2, n.revoked = false := by
  cases e with
  | emitMany rooms =>
    intro n hn
    obtain ⟨x, hx, rfl⟩ := List.mem_map.1 hn
    obtain ⟨hx, hany⟩ := List.mem_filter.1 hx
    obtain ⟨room, -, hroom⟩ := List.any_eq_true.1 hany
    exact ((hK x hx).member (by simpa using hroom)).2.2.2.1
  | _ => exact fun _ hn => absurd hn List.not_mem_nil

theorem gone_of_kept (hK : Kept s) (hsilent : ∀ n ∈ h, n.revoked = false) : Gone access h s := by
  refine ⟨fun x hx => (hK x hx).gone, hsilent, fun id y hy hid hrevoked => ?_⟩
  obtain ⟨x, hx, rfl⟩ := List.mem_map.1 hy
  by_cases hx' : x.id = id
  · simp only [hx', if_true] at hrevoked ⊢
    split at hrevoked
    next hfarewell =>
      rw [if_pos hfarewell]
      exact finish_connected
    next hnone =>
      rw [if_neg hnone]
      by_contra hconnected
      exact hnone (((hK x hx).gone hrevoked).2 (by simpa using hconnected))
  · rw [if_neg hx'] at hid
    exact absurd hid hx'

end Steps

/-! ### Whole runs -/

/-- A revoked socket is gone in every run whose disconnects find it settled. -/
theorem revoked_gone {h : List Received} {s : SyncLoop}
    (hrun : Run (SyncLoop.Step access Settled) {} h s) : Gone access h s := by
  have hkept := hrun.invariant (J := fun h s => Kept s ∧ ∀ n ∈ h, n.revoked = false)
    ⟨fun _ hx => absurd hx List.not_mem_nil, fun _ hn => absurd hn List.not_mem_nil⟩ ?_
  · exact gone_of_kept hkept.1 hkept.2
  · rintro h s notes s' ⟨hK, hsilent⟩ ⟨e, hok, hhandle⟩
    obtain ⟨rfl, rfl⟩ : (s.handle access e).1 = s' ∧ (s.handle access e).2 = notes := by
      rw [hhandle]
      exact ⟨rfl, rfl⟩
    refine ⟨kept_handle hK hok, fun n hn => ?_⟩
    rcases List.mem_append.1 hn with hold | hnew
    · exact hsilent n hold
    · exact silent_handle hK n hnew

/-! ### An owner connects -/

/-- A household without modules. -/
def bare : RoleAccess Unit := { moduleTables := fun _ _ => [], camera := 0 }

/-- The session of an owner. -/
def owner : JwtContext := { sub := 7, sessionId := "s", role := .owner }

theorem revoked_gone_owner :
    ∃ h s, Run (SyncLoop.Step bare Settled) {} h s ∧ s.sockets.map (fun x => x.revoked) = [true] ∧
      Gone bare h s := by
  have hstart : Run (SyncLoop.Step bare Settled) {} [] {} := .start
  have hasked := hstart.next ⟨.handleConnect owner true (), trivial, rfl⟩
  have hjoined := hasked.next ⟨.settled 0 (), trivial, rfl⟩
  have hrun := hjoined.next ⟨.disconnectLocalSession 7 "s" fun _ => true, fun x hx _ _ => by
    rw [List.mem_singleton.1 hx]
    rfl, rfl⟩
  exact ⟨_, _, hrun, rfl, revoked_gone bare hrun⟩

/-- The session is disconnected while its socket awaits the catalog, and the socket joins its rooms
afterwards. -/
theorem owner_joins_after :
    ∃ h s, Run (SyncLoop.Step bare fun _ _ => True) {} h s ∧ ¬Gone bare h s := by
  have hstart : Run (SyncLoop.Step bare fun _ _ => True) {} [] {} := .start
  have hasked := hstart.next ⟨.handleConnect owner true (), trivial, rfl⟩
  have hrevoked := hasked.next ⟨.disconnectLocalSession 7 "s" fun _ => true, trivial, rfl⟩
  have hjoined := hrevoked.next ⟨.settled 0 (), trivial, rfl⟩
  refine ⟨_, _, hjoined, fun hgone => ?_⟩
  have hrooms := (hgone.rooms _ (List.mem_singleton_self _) rfl).1
  have huser : userRoom 7 ∈ (∅ : Finset RoomId) := by
    rw [← hrooms]
    decide
  exact absurd huser (Finset.notMem_empty _)

end Sync

end ArgusBackend
