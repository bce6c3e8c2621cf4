import ArgusBackend.Library.Positions
import ArgusBackend.Sync.Sockets

/-!
# The rooms of one event loop

A room knows its members by their addresses, and an address knows its rooms and the connection that
came last under it.  A connection may be destroyed without leaving its rooms, and a later one may get
its address.

* `Local` : the three maps, and the operations of the room manager on them;
* `Enters`, `Leaves` : what an operation does to the rooms of one address;
* `Loop`, `Event` : the maps, the connections there are, and what happens to them.
-/

namespace ArgusBackend

namespace Sync

namespace Rooms

/-- The address of a connection. -/
abbrev Raw := ℕ

/-- A connection object; an address is used again, an id is not. -/
structure Conn where
  id : ℕ
  raw : Raw
  deriving DecidableEq, Repr

/-- The members of a room, with the place of each. -/
abbrev RoomData := Positions Raw

/-- The rooms of one loop: their members, the rooms of each, and the connections. -/
structure Local where
  rooms : Table RoomId RoomData := ∅
  reverse : Table Raw (List RoomId) := ∅
  weakRefs : Table Raw Conn := ∅

namespace Local

variable (s : Local)

/-- The members of a room. -/
def membersOf (room : RoomId) : List Raw :=
  match s.rooms.lookup room with
  | none => []
  | some data => data.members

/-- The rooms of a member. -/
def reverseOf (raw : Raw) : List RoomId := (s.reverse.lookup raw).getD []

/-! ### Operations -/

/-- `weakRefs[raw] = conn` -/
def track (conn : Conn) : Local := { s with weakRefs := s.weakRefs.insert conn.raw conn }

/-- `rooms[room].add(raw)` -/
def addMember (room : RoomId) (raw : Raw) : Local :=
  { s with rooms := s.rooms.insert room (((s.rooms.lookup room).getD {}).add raw) }

/-- A member is removed, and a room without members is erased. -/
def removeMember (room : RoomId) (raw : Raw) : Local :=
  match s.rooms.lookup room with
  | none => s
  | some data =>
    { s with rooms :=
      if (data.remove raw).members = [] then s.rooms.erase room
      else s.rooms.insert room (data.remove raw) }

/-- `reverse[raw].insert(room)` -/
def insertReverse (raw : Raw) (room : RoomId) : Local :=
  { s with reverse := s.reverse.insert raw ((s.reverseOf raw).insert room) }

/-- `joined.erase(room)` of `reverse[raw]` -/
def eraseReverse (raw : Raw) (room : RoomId) : Local :=
  { s with reverse := s.reverse.insert raw ((s.reverseOf raw).filter (· ≠ room)) }

/-- An address is in a room, in both tables. -/
def enter (raw : Raw) (room : RoomId) : Local := (s.addMember room raw).insertReverse raw room

/-- `reverse` and `weakRefs` forget an address. -/
def forget (raw : Raw) : Local :=
  { s with reverse := s.reverse.erase raw, weakRefs := s.weakRefs.erase raw }

/-- `join` -/
def join (room : RoomId) (conn : Conn) : Local := (s.track conn).enter conn.raw room

/-- `joinMany` -/
def joinMany (rooms : List RoomId) (conn : Conn) : Local :=
  rooms.foldl (fun s room => s.enter conn.raw room) (s.track conn)

/-- `leave` -/
def leave (room : RoomId) (conn : Conn) : Local :=
  let s := s.removeMember room conn.raw
  match s.reverse.lookup conn.raw with
  | none => s
  | some joined =>
    if joined.filter (· ≠ room) = [] then s.forget conn.raw
    else { s with reverse := s.reverse.insert conn.raw (joined.filter (· ≠ room)) }

/-- An address is in no room any more. -/
def leaveAllLocal (raw : Raw) : Local :=
  match s.reverse.lookup raw with
  | none => s
  | some joined => (joined.foldl (fun s room => s.removeMember room raw) s).forget raw

/-- `desired` is what `roleRoomsOf` gives for the role and the modules. -/
def reconcileRoleRooms (desired : List RoomId) (conn : Conn) : Local :=
  let s := s.track conn
  let joined := s.reverseOf conn.raw
  let s := { s with reverse := s.reverse.insert conn.raw joined }
  let stale := joined.filter fun room => isRoleScopedRoom room && room ∉ desired
  let s := stale.foldl (fun s room => (s.removeMember room conn.raw).eraseReverse conn.raw room) s
  desired.foldl (fun s room => s.enter conn.raw room) s

section Connections

-- the connections that are not destroyed, and those that are not connected any more
variable (objects closed : List Conn)

/-- The loop of `visitLocalMembers` over the members of a room: who is visited after it. -/
def visitLoop (s : Local) : List Raw → List Conn × Local
  | [] => ([], s)
  | raw :: rest =>
    match s.weakRefs.lookup raw with
    | none => visitLoop s rest
    | some conn =>
      if conn ∈ objects ∧ conn ∉ closed then
        let (connections, s') := visitLoop s rest
        (conn :: connections, s')
      else visitLoop (s.leaveAllLocal raw) rest

/-- Who is visited in a room; the dead leave it. -/
def visitLocalMembers (room : RoomId) : List Conn × Local :=
  visitLoop objects closed s (s.membersOf room)

/-- The loop of `emitLocalRoomsView`: who the message is sent to, and which addresses are dead. -/
def emitLoop : List Raw → (seen : List Raw) → List Conn × List Raw
  | [], _ => ([], [])
  | raw :: rest, seen =>
    if raw ∈ seen then emitLoop rest seen
    else
      match s.weakRefs.lookup raw with
      | none => emitLoop rest (raw :: seen)
      | some conn =>
        let (sent, dead) := emitLoop rest (raw :: seen)
        if conn ∈ objects then (conn :: sent, dead) else (sent, raw :: dead)

/-- Who gets a message to some rooms; the dead leave them. -/
def emitLocalRoomsView (rooms : List RoomId) : List Conn × Local :=
  let (sent, dead) := s.emitLoop objects (rooms.flatMap s.membersOf) []
  (sent, dead.foldl leaveAllLocal s)

/-- Every dead connection leaves its rooms. -/
def pruneAllDeadConnections : Local :=
  ((s.weakRefs.entries.filter fun e => e.2 ∉ objects).map (·.1)).foldl leaveAllLocal s

end Connections

/-! ### What an operation does to the rooms of an address -/

/-- A room has an address among its members when the address has the room. -/
def Agree : Prop := ∀ room raw, raw ∈ s.membersOf room ↔ room ∈ s.reverseOf raw

variable {s} {s' : Local} {room room' : RoomId} {raw raw' : Raw} {conn : Conn}

@[simp] theorem reverseOf_addMember : (s.addMember room raw).reverseOf raw' = s.reverseOf raw' := rfl

@[simp] theorem reverseOf_track : (s.track conn).reverseOf raw = s.reverseOf raw := rfl

theorem mem_addMember : raw' ∈ (s.addMember room raw).membersOf room' ↔
    (raw' = raw ∧ room' = room) ∨ raw' ∈ s.membersOf room' := by
  unfold addMember membersOf
  dsimp only
  by_cases hroom : room' = room
  · subst hroom
    rw [AList.lookup_insert]
    dsimp only
    rw [Positions.mem_add]
    cases s.rooms.lookup room' <;> simp
  · simp [AList.lookup_insert_ne hroom, hroom]

theorem removeMember_eq : (s.removeMember room raw).reverse = s.reverse ∧
    (s.removeMember room raw).weakRefs = s.weakRefs := by
  unfold removeMember
  split <;> exact ⟨rfl, rfl⟩

theorem mem_removeMember : raw' ∈ (s.removeMember room raw).membersOf room' ↔
    raw' ∈ s.membersOf room' ∧ ¬(raw' = raw ∧ room' = room) := by
  unfold removeMember
  split
  next hnone =>
    refine ⟨fun hmem => ⟨hmem, ?_⟩, And.left⟩
    rintro ⟨-, rfl⟩
    simp [membersOf, hnone] at hmem
  next data hdata =>
    unfold membersOf
    dsimp only
    by_cases hroom : room' = room
    · subst hroom
      have hmem : raw' ∈ (data.remove raw).members ↔ raw' ∈ data.members ∧ raw' ≠ raw :=
        Positions.mem_remove
      rw [hdata]
      split_ifs with hempty
      · rw [AList.lookup_erase]
        simpa [hempty] using hmem
      · rw [AList.lookup_insert]
        simpa using hmem
    · have hlookup : (if (data.remove raw).members = [] then s.rooms.erase room
          else s.rooms.insert room (data.remove raw)).lookup room' = s.rooms.lookup room' := by
        split_ifs
        · exact AList.lookup_erase_ne hroom
        · exact AList.lookup_insert_ne hroom
      rw [hlookup]
      simp [hroom]

theorem mem_insertReverse : room' ∈ (s.insertReverse raw room).reverseOf raw' ↔
    (raw' = raw ∧ room' = room) ∨ room' ∈ s.reverseOf raw' := by
  by_cases hraw : raw' = raw
  · subst hraw
    simp [insertReverse, reverseOf]
  · simp [insertReverse, reverseOf, AList.lookup_insert_ne hraw, hraw]

theorem mem_eraseReverse : room' ∈ (s.eraseReverse raw room).reverseOf raw' ↔
    room' ∈ s.reverseOf raw' ∧ ¬(raw' = raw ∧ room' = room) := by
  by_cases hraw : raw' = raw
  · subst hraw
    simp [eraseReverse, reverseOf]
  · simp [eraseReverse, reverseOf, AList.lookup_insert_ne hraw, hraw]

/-- The rooms of one address become those with a property; all else stays. -/
structure Turns (s s' : Local) (raw : Raw) (P : RoomId → Prop) : Prop where
  agree : s.Agree → s'.Agree
  rooms : ∀ room, room ∈ s'.reverseOf raw ↔ P room
  others : ∀ raw' ≠ raw, ∀ room, room ∈ s'.reverseOf raw' ↔ room ∈ s.reverseOf raw'
  weakRefs : ∀ raw' ≠ raw, s'.weakRefs.lookup raw' = s.weakRefs.lookup raw'

/-- A connection enters. -/
structure Enters (s s' : Local) (conn : Conn) (P : RoomId → Prop) : Prop extends
    Turns s s' conn.raw P where
  tracked : s'.weakRefs.lookup conn.raw = some conn

/-- Rooms of an address are left, and when none is left, the address may be forgotten. -/
structure Leaves (s s' : Local) (raw : Raw) (P : RoomId → Prop) : Prop extends
    Turns s s' raw P where
  less : ∀ room, P room → room ∈ s.reverseOf raw
  tracked : s'.weakRefs.lookup raw = s.weakRefs.lookup raw ∨
    (s'.weakRefs.lookup raw = none ∧ ∀ room, ¬P room)

theorem Turns.refl (s : Local) (raw : Raw) : Turns s s raw (· ∈ s.reverseOf raw) :=
  ⟨id, fun _ => Iff.rfl, fun _ _ _ => Iff.rfl, fun _ _ => rfl⟩

theorem Turns.trans {s₁ : Local} {P Q : RoomId → Prop} (h : Turns s s₁ raw P)
    (h' : Turns s₁ s' raw Q) : Turns s s' raw Q where
  agree hs := h'.agree (h.agree hs)
  rooms := h'.rooms
  others raw' hne room := (h'.others raw' hne room).trans (h.others raw' hne room)
  weakRefs raw' hne := (h'.weakRefs raw' hne).trans (h.weakRefs raw' hne)

theorem Turns.congr {P Q : RoomId → Prop} (h : Turns s s' raw P) (hPQ : ∀ room, P room ↔ Q room) :
    Turns s s' raw Q :=
  { h with rooms := fun room => (h.rooms room).trans (hPQ room) }

theorem turns_track (s : Local) (conn : Conn) :
    Turns s (s.track conn) conn.raw (· ∈ s.reverseOf conn.raw) :=
  { Turns.refl s conn.raw with weakRefs := fun _ hne => AList.lookup_insert_ne hne }

theorem turns_enter (s : Local) (raw : Raw) (room : RoomId) :
    Turns s (s.enter raw room) raw fun room' => room' = room ∨ room' ∈ s.reverseOf raw where
  agree hs room' raw' := by
    rw [enter, mem_insertReverse, reverseOf_addMember, ← hs room' raw']
    exact mem_addMember
  rooms room' := by simp [enter, mem_insertReverse]
  others raw' hne room' := by simp [enter, mem_insertReverse, hne]
  weakRefs raw' hne := rfl

theorem turns_enters (s : Local) (raw : Raw) (rooms : List RoomId) :
    Turns s (rooms.foldl (fun s room => s.enter raw room) s) raw
      fun room => room ∈ rooms ∨ room ∈ s.reverseOf raw := by
  induction rooms generalizing s with
  | nil => exact (Turns.refl s raw).congr fun room => by simp
  | cons room rooms ih =>
    have henter := turns_enter s raw room
    refine (henter.trans (ih _)).congr fun room' => ?_
    rw [henter.rooms, List.mem_cons]
    tauto

theorem weakRefs_enters (s : Local) (raw : Raw) (rooms : List RoomId) :
    (rooms.foldl (fun s room => s.enter raw room) s).weakRefs = s.weakRefs := by
  induction rooms generalizing s with
  | nil => rfl
  | cons room rooms ih => exact ih _

theorem enters_joinMany (s : Local) (rooms : List RoomId) (conn : Conn) :
    Enters s (s.joinMany rooms conn) conn
      fun room => room ∈ rooms ∨ room ∈ s.reverseOf conn.raw :=
  { (turns_track s conn).trans (turns_enters (s.track conn) conn.raw rooms) with
    tracked := by
      rw [joinMany, weakRefs_enters]
      exact AList.lookup_insert _ }

theorem enters_join (s : Local) (room : RoomId) (conn : Conn) :
    Enters s (s.join room conn) conn fun room' => room' ∈ [room] ∨ room' ∈ s.reverseOf conn.raw :=
  enters_joinMany s [room] conn

/-- What a loop over stale rooms takes away. -/
theorem turns_stale (s : Local) (raw : Raw) (stale : List RoomId) :
    Turns s (stale.foldl (fun s room => (s.removeMember room raw).eraseReverse raw room) s) raw
        (fun room => room ∈ s.reverseOf raw ∧ room ∉ stale) ∧
      (stale.foldl (fun s room => (s.removeMember room raw).eraseReverse raw room) s).weakRefs =
        s.weakRefs := by
  induction stale generalizing s with
  | nil => exact ⟨(Turns.refl s raw).congr fun room => by simp, rfl⟩
  | cons room stale ih =>
    have hrest (raw' : Raw) : (s.removeMember room raw).reverseOf raw' = s.reverseOf raw' := by
      rw [reverseOf, removeMember_eq.1, reverseOf]
    have hweak : ((s.removeMember room raw).eraseReverse raw room).weakRefs = s.weakRefs :=
      removeMember_eq.2
    have hfirst : Turns s ((s.removeMember room raw).eraseReverse raw room) raw
        fun room' => room' ∈ s.reverseOf raw ∧ room' ≠ room := by
      refine ⟨fun hs room' raw' => ?_, fun room' => ?_, fun raw' hne room' => ?_,
        fun raw' _ => by rw [hweak]⟩
      · rw [mem_eraseReverse, hrest, ← hs room' raw']
        exact mem_removeMember
      · simp [mem_eraseReverse, hrest]
      · simp [mem_eraseReverse, hrest, hne]
    obtain ⟨hturns, hweaks⟩ := ih ((s.removeMember room raw).eraseReverse raw room)
    refine ⟨(hfirst.trans hturns).congr fun room' => ?_, hweaks.trans hweak⟩
    rw [hfirst.rooms, List.mem_cons]
    tauto

theorem enters_reconcileRoleRooms (s : Local) (desired : List RoomId) (conn : Conn) :
    Enters s (s.reconcileRoleRooms desired conn) conn fun room => room ∈ desired ∨
      (room ∈ s.reverseOf conn.raw ∧ ¬(isRoleScopedRoom room = true ∧ room ∉ desired)) := by
  have hsame : Turns (s.track conn) { s.track conn with
      reverse := (s.track conn).reverse.insert conn.raw ((s.track conn).reverseOf conn.raw) }
        conn.raw (· ∈ s.reverseOf conn.raw) := by
    have hreverse (raw : Raw) : ({ s.track conn with
        reverse := (s.track conn).reverse.insert conn.raw ((s.track conn).reverseOf conn.raw) } :
          Local).reverseOf raw = s.reverseOf raw := by
      by_cases hraw : raw = conn.raw
      · subst hraw
        simp [reverseOf, track]
      · simp [reverseOf, track, AList.lookup_insert_ne hraw]
    exact ⟨fun hs room raw => (hreverse raw).symm ▸ hs room raw,
      fun room => by rw [hreverse], fun raw _ room => by rw [hreverse]; rfl, fun _ _ => rfl⟩
  have hstart := (turns_track s conn).trans hsame
  obtain ⟨hstale, hweak⟩ := turns_stale { s.track conn with
      reverse := (s.track conn).reverse.insert conn.raw ((s.track conn).reverseOf conn.raw) } conn.raw
    (((s.track conn).reverseOf conn.raw).filter fun room =>
      isRoleScopedRoom room && room ∉ desired)
  refine { ((hstart.trans hstale).trans (turns_enters _ conn.raw desired)).congr fun room => ?_ with
    tracked := ?_ }
  · rw [hstale.rooms, hsame.rooms]
    simp only [List.mem_filter, reverseOf_track, Bool.and_eq_true, decide_eq_true_eq]
    tauto
  · rw [reconcileRoleRooms, weakRefs_enters, hweak]
    exact AList.lookup_insert _

theorem reverseOf_forget : (s.forget raw).reverseOf raw' =
    if raw' = raw then [] else s.reverseOf raw' := by
  split_ifs with hraw
  · subst hraw
    simp [forget, reverseOf]
  · simp [forget, reverseOf, AList.lookup_erase_ne hraw]

theorem leaves_leave (s : Local) (room : RoomId) (conn : Conn) :
    Leaves s (s.leave room conn) conn.raw
      fun room' => room' ∈ s.reverseOf conn.raw ∧ room' ≠ room := by
  have hweak : (s.removeMember room conn.raw).weakRefs = s.weakRefs := removeMember_eq.2
  have hreverse (raw : Raw) : (s.removeMember room conn.raw).reverseOf raw = s.reverseOf raw := by
    rw [reverseOf, removeMember_eq.1, reverseOf]
  unfold leave
  dsimp only
  split
  next hnone =>
    rw [removeMember_eq.1] at hnone
    have hempty : s.reverseOf conn.raw = [] := by rw [reverseOf, hnone]; rfl
    refine ⟨⟨fun hs room' raw' => ?_, fun room' => ?_, fun raw' _ room' => by rw [hreverse],
      fun _ _ => by rw [hweak]⟩, fun _ => And.left, .inl (by rw [hweak])⟩
    · rw [mem_removeMember, hs room' raw', hreverse]
      refine and_iff_left_of_imp fun hmem hboth => ?_
      rw [hboth.1, hempty] at hmem
      cases hmem
    · rw [hreverse, hempty]
      simp
  next joined hjoined =>
    rw [removeMember_eq.1] at hjoined
    have hrooms : s.reverseOf conn.raw = joined := by rw [reverseOf, hjoined]; rfl
    split_ifs with hempty
    · have hnone (room' : RoomId) : ¬(room' ∈ s.reverseOf conn.raw ∧ room' ≠ room) := fun hmem => by
        have : room' ∈ joined.filter (· ≠ room) := by simpa [hrooms] using hmem
        rw [hempty] at this
        cases this
      refine ⟨⟨fun hs room' raw' => ?_, fun room' => ?_, fun raw' hne room' => ?_,
        fun raw' hne => ?_⟩, fun _ => And.left, .inr ⟨AList.lookup_erase _ _, hnone⟩⟩
      · rw [reverseOf_forget, hreverse]
        refine (mem_removeMember (s := s)).trans ?_
        rw [hs room' raw']
        split_ifs with hraw
        · subst hraw
          have := hnone room'
          simp only [List.not_mem_nil, iff_false, true_and]
          exact this
        · simp [hraw]
      · rw [reverseOf_forget, if_pos rfl]
        simpa using hnone room'
      · rw [reverseOf_forget, if_neg hne, hreverse]
      · rw [← hweak]
        exact AList.lookup_erase_ne hne
    · have hset (raw' : Raw) : ({ s.removeMember room conn.raw with
          reverse := (s.removeMember room conn.raw).reverse.insert conn.raw
            (joined.filter (· ≠ room)) } : Local) =
          (s.removeMember room conn.raw).eraseReverse conn.raw room := by
        rw [eraseReverse, hreverse, hrooms]
      rw [hset conn.raw]
      refine ⟨⟨fun hs room' raw' => ?_, fun room' => ?_, fun raw' hne room' => ?_,
        fun raw' _ => congrArg (AList.lookup raw') hweak⟩, fun _ => And.left,
        .inl (congrArg (AList.lookup conn.raw) hweak)⟩
      · rw [mem_eraseReverse, hreverse, ← hs room' raw']
        exact mem_removeMember
      · rw [mem_eraseReverse, hreverse]
        simp
      · rw [mem_eraseReverse, hreverse]
        simp [hne]

theorem mem_removeMembers (s : Local) (raw : Raw) (rooms : List RoomId) :
    (rooms.foldl (fun s room => s.removeMember room raw) s).reverse = s.reverse ∧
      (rooms.foldl (fun s room => s.removeMember room raw) s).weakRefs = s.weakRefs ∧
      ∀ raw' room', raw' ∈ (rooms.foldl (fun s room => s.removeMember room raw) s).membersOf room' ↔
        raw' ∈ s.membersOf room' ∧ ¬(raw' = raw ∧ room' ∈ rooms) := by
  induction rooms generalizing s with
  | nil => exact ⟨rfl, rfl, by simp⟩
  | cons room rooms ih =>
    obtain ⟨hreverse, hweak, hmem⟩ := ih (s.removeMember room raw)
    refine ⟨hreverse.trans removeMember_eq.1, hweak.trans removeMember_eq.2, fun raw' room' => ?_⟩
    rw [List.foldl_cons, hmem, mem_removeMember, List.mem_cons]
    tauto

theorem leaves_leaveAllLocal (s : Local) (raw : Raw) :
    Leaves s (s.leaveAllLocal raw) raw fun _ => False := by
  unfold leaveAllLocal
  split
  next hnone =>
    have hempty : s.reverseOf raw = [] := by rw [reverseOf, hnone]; rfl
    exact { (Turns.refl s raw).congr fun room => by simp [hempty] with
      less := fun _ => False.elim, tracked := .inl rfl }
  next joined hjoined =>
    have hrooms : s.reverseOf raw = joined := by rw [reverseOf, hjoined]; rfl
    obtain ⟨hreverse, hweak, hmem⟩ := mem_removeMembers s raw joined
    have hsame (raw' : Raw) :
        (joined.foldl (fun s room => s.removeMember room raw) s).reverseOf raw' =
          s.reverseOf raw' := by
      rw [reverseOf, hreverse, reverseOf]
    refine ⟨⟨fun hs room' raw' => ?_, fun room' => ?_, fun raw' hne room' => ?_,
      fun raw' hne => ?_⟩, fun _ => False.elim, .inr ⟨AList.lookup_erase _ _, fun _ => id⟩⟩
    · rw [reverseOf_forget, hsame]
      refine (hmem raw' room').trans ?_
      rw [hs room' raw']
      split_ifs with hraw
      · subst hraw
        simp [hrooms]
      · simp [hraw]
    · rw [reverseOf_forget, if_pos rfl]
      simp
    · rw [reverseOf_forget, if_neg hne, hsame]
    · rw [← hweak]
      exact AList.lookup_erase_ne hne

end Local

/-! ### The loop -/

/-- The maps, the connections that are not destroyed, and those that are not connected any more. -/
structure Loop where
  g_local : Local := {}
  objects : List Conn := []
  closed : List Conn := []
  /-- how many connections there have been -/
  created : ℕ := 0

/-- What happens to connections and rooms. -/
inductive Event where
  | accept (raw : Raw)
  | close (conn : Conn)
  | destroy (conn : Conn)
  | join (room : RoomId) (conn : Conn)
  | joinMany (rooms : List RoomId) (conn : Conn)
  | leave (room : RoomId) (conn : Conn)
  | leaveAll (conn : Conn)
  | reconcileRoleRooms (desired : List RoomId) (conn : Conn)
  | visitLocalMembers (room : RoomId)
  | emitLocalRoomsView (rooms : List RoomId)
  | pruneAllDeadConnections
  deriving DecidableEq, Repr

namespace Loop

variable (s : Loop)

/-- An operation for a connection, which is not destroyed while it is at hand. -/
def call (conn : Conn) (f : Local → Local) : Option Loop :=
  if conn ∈ s.objects then some { s with g_local := f s.g_local } else none

/-- What an event does; none when it cannot come.  An address is free when no connection has it. -/
def act : Event → Option Loop
  | .accept raw =>
    if s.objects.all fun conn => conn.raw ≠ raw then
      some { s with objects := ⟨s.created, raw⟩ :: s.objects, created := s.created + 1 }
    else none
  | .close conn => some { s with closed := conn :: s.closed }
  | .destroy conn => some { s with objects := s.objects.filter (· ≠ conn) }
  | .join room conn => s.call conn fun g => g.join room conn
  | .joinMany rooms conn => s.call conn fun g => g.joinMany rooms conn
  | .leave room conn => s.call conn fun g => g.leave room conn
  | .leaveAll conn => s.call conn fun g => g.leaveAllLocal conn.raw
  | .reconcileRoleRooms desired conn => s.call conn fun g => g.reconcileRoleRooms desired conn
  | .visitLocalMembers room =>
    some { s with g_local := (s.g_local.visitLocalMembers s.objects s.closed room).2 }
  | .emitLocalRoomsView rooms =>
    some { s with g_local := (s.g_local.emitLocalRoomsView s.objects rooms).2 }
  | .pruneAllDeadConnections =>
    some { s with g_local := s.g_local.pruneAllDeadConnections s.objects }

/-- An event that meets a condition on the loop before it. -/
def Step (ok : Loop → Event → Prop) (s : Loop) (events : List Event) (s' : Loop) : Prop :=
  ∃ event, events = [event] ∧ ok s event ∧ s.act event = some s'

theorem Step.free {ok : Loop → Event → Prop} {s s' : Loop} {events : List Event}
    (hstep : Step ok s events s') : Step (fun _ _ => True) s events s' := by
  obtain ⟨event, hevent, -, hact⟩ := hstep
  exact ⟨event, hevent, trivial, hact⟩

end Loop

end Rooms

end Sync

end ArgusBackend
