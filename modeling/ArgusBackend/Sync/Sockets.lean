import ArgusBackend.Library.Runs
import Mathlib.Data.Finset.Basic
import Mathlib.Data.Finset.Image

/-!
# Sockets on one event loop

A socket joins rooms, and what is sent to it goes to its rooms.  It is found through its rooms, too:
when the session or the user is disconnected, the sockets in the user's room are.

* `Socket`, `SyncLoop` : the sockets of one loop with their rooms;
* `Event`, `SyncLoop.handle` : the runs of code between two awaits, each one step;
* `SyncLoop.Step` : a step whose event meets a condition.
-/

namespace ArgusBackend

namespace Sync

/-! ### Rooms -/

/-- The number of a room. -/
abbrev RoomId := ℕ

/-- The roles of a user. -/
inductive UserRole where
  | owner | resident | guard | guest | unknown
  deriving DecidableEq, Repr

/-- The number of a role. -/
def UserRole.toNat : UserRole → ℕ
  | .owner => 0
  | .resident => 1
  | .guard => 2
  | .guest => 3
  | .unknown => 255

/-- The number of a table. -/
abbrev TableName := Fin 256

/-- The room of all sockets. -/
def kConnectedRoom : RoomId := 450

/-- The room of a table. -/
def moduleRoom (table : TableName) : RoomId := 1 + table.val

/-- The room of a table for those who may not see all of it. -/
def reducedModuleRoom (table : TableName) : RoomId := 500 + table.val

/-- The room of a role. -/
def roleRoom (role : UserRole) : RoomId := 400 + role.toNat

/-- The users of sockets have positive ids. -/
def userRoom (userId : ℕ) : RoomId := 1000 + userId

/-- A room that a socket is in by its role. -/
def isRoleScopedRoom (room : RoomId) : Bool :=
  (1 ≤ room && room < kConnectedRoom) || (500 ≤ room && room < 1000)

/-- The roles that see how a camera is connected. -/
def readsCameraConnection (role : UserRole) : Bool := role = .owner || role = .resident

/-- The tables of the modules that a role reads, and the one of the cameras. -/
structure RoleAccess (Modules : Type) where
  moduleTables : UserRole → Modules → List TableName
  camera : TableName

variable {Modules : Type} (access : RoleAccess Modules)

/-- The room of a table for a role. -/
def moduleRoomFor (table : TableName) (role : UserRole) : RoomId :=
  if table = access.camera ∧ readsCameraConnection role = false then reducedModuleRoom table
  else moduleRoom table

/-- The rooms of a role with the modules that are enabled. -/
def roleRoomsOf (role : UserRole) (modules : Modules) : Finset RoomId :=
  insert (roleRoom role)
    ((access.moduleTables role modules).map fun table => moduleRoomFor access table role).toFinset

/-! ### Sockets -/

/-- What the token of a socket says. -/
structure JwtContext where
  sub : ℕ
  sessionId : String
  role : UserRole
  deriving DecidableEq, Repr

/-- A socket with its rooms, and what is still going on with it. -/
structure Socket where
  id : ℕ
  context : JwtContext
  connected : Bool := true
  rooms : Finset RoomId := ∅
  /-- `handleConnect` awaits the owner catalog -/
  connecting : Bool := false
  /-- the shutdown of `closeAfterFarewell` is due -/
  farewell : Bool := false
  /-- the socket was there when its session or its user was disconnected -/
  revoked : Bool := false

namespace Socket

variable (x : Socket)

/-- The socket leaves its rooms. -/
def leaveAll : Socket := { x with rooms := ∅ }

/-- `shutdown`, after which the socket is not connected any more. -/
def shutdown : Socket := { x with connected := false }

/-- The second half of `handleConnect`. -/
def settle (modules : Modules) : Socket :=
  if x.connected then
    { x with
      connecting := false
      rooms := x.rooms ∪ roleRoomsOf access x.context.role modules ∪
        {userRoom x.context.sub, kConnectedRoom} }
  else { x with connecting := false }

/-- The socket leaves the rooms that its role has not, and joins those that it has. -/
def reconcileRoleRooms (role : UserRole) (modules : Modules) : Socket :=
  { x with
    rooms := (x.rooms.filter fun room =>
        ¬(isRoleScopedRoom room = true ∧ room ∉ roleRoomsOf access role modules)) ∪
      roleRoomsOf access role modules }

/-- `visitLocalMembers`: the members of a room are visited, or dropped when they are not connected
any more. -/
def visit (room : RoomId) (f : Socket → Socket) : Socket :=
  if room ∈ x.rooms then
    if x.connected then f x else x.leaveAll
  else x

/-- The end of `closeAfterFarewell`. -/
def finish : Socket := if x.connected then x.shutdown else x

/-- The socket is closed, at once or after its farewell. -/
def closeAfterFarewell (delayed : Bool) : Socket :=
  if delayed then { x with farewell := true } else x.finish

/-- What `disconnectLocalSession` and `disconnectLocalUserRoom` do with a socket they have found. -/
def disconnect (delayed : Bool) : Socket :=
  if x.connected then x.leaveAll.closeAfterFarewell delayed else x.leaveAll

/-- `closeDisabled`. -/
def closeDisabled : Socket := x.leaveAll.finish

/-- The socket is of a session. -/
def ofSession (userId : ℕ) (sessionId : String) : Bool :=
  x.context.sub = userId && x.context.sessionId = sessionId

end Socket

/-- What the user directory says about the user of a socket. -/
inductive DirectoryUser where
  | unavailable
  | disabled
  | active (role : UserRole)
  deriving DecidableEq, Repr

/-- The runs of code between two awaits, on any sockets. -/
inductive Event (Modules : Type) where
  /-- `handleConnect` up to the catalog, and on to its end where it need not wait -/
  | handleConnect (context : JwtContext) (waits : Bool) (modules : Modules)
  /-- the catalog has been read -/
  | settled (id : ℕ) (modules : Modules)
  /-- the directory has answered `refreshContext`, for a frame or a revalidation -/
  | refreshContext (id : ℕ) (found : DirectoryUser) (modules : Modules)
  | replaceLocalRoleRooms (userId : ℕ) (role : UserRole) (modules : Modules)
  /-- a context is delivered to all sockets, or to a user's -/
  | modulesChanged (modules : Modules)
  | userChanged (userId : ℕ) (modules : Modules)
  | handleDisconnect (id : ℕ)
  /-- the timer of a farewell -/
  | farewell (id : ℕ)
  /-- which farewells are delayed differs from socket to socket -/
  | disconnectLocalSession (userId : ℕ) (sessionId : String) (delayed : ℕ → Bool)
  | disconnectLocalUserRoom (userId : ℕ) (delayed : ℕ → Bool)
  | emitMany (rooms : List RoomId)

/-- A room message has come to a socket; had it been revoked? -/
structure Received where
  id : ℕ
  revoked : Bool
  deriving DecidableEq, Repr

/-- The sockets of one event loop. -/
structure SyncLoop where
  sockets : List Socket := []

namespace SyncLoop

variable (s : SyncLoop)

/-- Every socket is changed. -/
def each (f : Socket → Socket) : SyncLoop := { s with sockets := s.sockets.map f }

/-- One socket is changed. -/
def on (id : ℕ) (f : Socket → Socket) : SyncLoop := s.each fun x => if x.id = id then f x else x

/-- The visit of `replaceLocalRoleRooms`. -/
def replaceRoleRooms (userId : ℕ) (role : UserRole) (modules : Modules) : SyncLoop :=
  s.each fun x => x.visit (userRoom userId) fun x =>
    { x.reconcileRoleRooms access role modules with context := { x.context with role } }

/-- `deliverLocal` to the members of a room. -/
def deliver (room : RoomId) (modules : Modules) : SyncLoop :=
  s.each fun x => x.visit room fun x => x.reconcileRoleRooms access x.context.role modules

/-- A socket has another role. -/
def setRole (id : ℕ) (role : UserRole) : SyncLoop :=
  s.on id fun x => { x with context := { x.context with role } }

/-- What the directory says of the user of a socket. -/
def refreshContext (id : ℕ) (found : DirectoryUser) (modules : Modules) : SyncLoop :=
  match s.sockets.find? fun x => x.id = id with
  | none => s
  | some x =>
    match found with
    | .unavailable => s
    | .disabled => s.on id Socket.closeDisabled
    | .active role =>
      if role ≠ x.context.role then
        (s.replaceRoleRooms access x.context.sub role modules).setRole id role
      else s.setRole id role

/-- Who gets a message to some rooms. -/
def received (rooms : List RoomId) : List Received :=
  (s.sockets.filter fun x => rooms.any fun room => room ∈ x.rooms).map fun x => ⟨x.id, x.revoked⟩

/-- What an event does, and who gets a message by it. -/
def handle : Event Modules → SyncLoop × List Received
  | .handleConnect context waits modules =>
    let x : Socket := { id := s.sockets.length, context }
    let x := if context.role = .owner ∧ waits then { x with connecting := true }
      else x.settle access modules
    ({ s with sockets := s.sockets ++ [x] }, [])
  | .settled id modules =>
    (s.on id fun x => if x.connecting then x.settle access modules else x, [])
  | .refreshContext id found modules => (s.refreshContext access id found modules, [])
  | .replaceLocalRoleRooms userId role modules =>
    (s.replaceRoleRooms access userId role modules, [])
  | .modulesChanged modules => (s.deliver access kConnectedRoom modules, [])
  | .userChanged userId modules => (s.deliver access (userRoom userId) modules, [])
  | .handleDisconnect id => (s.on id fun x => { x.leaveAll with connected := false }, [])
  | .farewell id =>
    (s.on id fun x => if x.farewell then { x.finish with farewell := false } else x, [])
  | .disconnectLocalSession userId sessionId delayed =>
    (s.each fun x =>
      let x := { x with revoked := x.revoked || x.ofSession userId sessionId }
      if userRoom userId ∈ x.rooms ∧ x.context.sessionId = sessionId then x.disconnect (delayed x.id)
      else x, [])
  | .disconnectLocalUserRoom userId delayed =>
    (s.each fun x =>
      let x := { x with revoked := x.revoked || x.context.sub = userId }
      if userRoom userId ∈ x.rooms then x.disconnect (delayed x.id) else x, [])
  | .emitMany rooms => (s, s.received rooms)

/-- A step whose event meets a condition on the state before it. -/
def Step (ok : SyncLoop → Event Modules → Prop) (s : SyncLoop) (notes : List Received)
    (s' : SyncLoop) : Prop :=
  ∃ e : Event Modules, ok s e ∧ s.handle access e = (s', notes)

end SyncLoop

end Sync

end ArgusBackend
