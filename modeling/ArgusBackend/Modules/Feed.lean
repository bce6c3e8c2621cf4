import ArgusBackend.Library.Crews
import ArgusBackend.Library.Table
import Mathlib.Data.List.Induction
import Mathlib.Data.Prod.Lex

/-!
# The module feed of a service

Settings keeps which modules are enabled.  Every change makes a new version within an epoch, every
restore a new epoch.  A service follows by messages, which may come late and again, and by reads.

* `Settings` : the states of settings, the newest first;
* `Feed.apply` : what the feed does with a state, atomic under its mutex;
* `ModuleFeed.handle`, `refresh` : a message, and a read; `workshop` : any number of them.
-/

namespace ArgusBackend

namespace Modules

/-- A module and whether it is enabled. -/
structure ModuleFlag where
  id : String
  enabled : Bool
  deriving DecidableEq, Repr

/-- The flags of all modules. -/
abbrev ModuleFlags := List ModuleFlag

/-- A state of settings. -/
structure State where
  /-- how many restores came before -/
  era : ℕ
  version : ℤ
  flags : ModuleFlags
  deriving DecidableEq, Repr

/-- A state is newer in a later epoch, or with a later version of its epoch. -/
def State.age (st : State) : ℕ ×ₗ ℤ := toLex (st.era, st.version)

/-- The names of the epochs. -/
structure Epochs where
  name : ℕ → String
  injective : Function.Injective name
  nonempty : ∀ era, name era ≠ ""

/-- What a message or a read carries of a state. -/
structure Snapshot where
  flags : ModuleFlags
  version : ℤ
  epoch : String
  deriving DecidableEq, Repr

/-- A state as it is sent. -/
def Epochs.snapshot (epochs : Epochs) (st : State) : Snapshot where
  flags := st.flags
  version := st.version
  epoch := epochs.name st.era

/-! ### The feed and its gate -/

/-- `ModuleGate::states_` -/
abbrev Gate := Table String ModuleFlag

/-- `ModuleGate::store` -/
def Gate.store (gate : Gate) (flags : ModuleFlags) : Gate :=
  flags.foldl (fun gate flag => gate.insert flag.id flag) gate

/-- The gate has the flags of the list, the last one of each module. -/
def Gate.Has (gate : Gate) (flags : ModuleFlags) : Prop :=
  ∀ id flag, flags.reverse.find? (fun flag => flag.id = id) = some flag → gate.lookup id = some flag

theorem Gate.lookup_store {gate : Gate} {flags : ModuleFlags} {id : String} :
    (gate.store flags).lookup id =
      (flags.reverse.find? fun flag => flag.id = id).or (gate.lookup id) := by
  induction flags using List.reverseRecOn with
  | nil => rfl
  | append_singleton flags flag ih =>
    rw [store, List.foldl_append, List.reverse_append]
    simp only [List.foldl_cons, List.foldl_nil, List.reverse_singleton, List.singleton_append]
    by_cases hid : flag.id = id
    · rw [hid, AList.lookup_insert, List.find?_cons_of_pos (by simpa using hid)]
      rfl
    · rw [AList.lookup_insert_ne (Ne.symm hid), List.find?_cons_of_neg (by simpa using hid)]
      exact ih

theorem Gate.has_store {gate : Gate} {flags : ModuleFlags} : (gate.store flags).Has flags := by
  intro id flag hflag
  rw [lookup_store, hflag]
  rfl

/-- What the feed has applied. -/
structure Feed where
  epoch : String := ""
  version : ℤ := 0
  gate : Gate := ∅

/-- What came of a state. -/
structure Application where
  applied : Bool := false
  epochChanged : Bool := false
  deriving DecidableEq, Repr

namespace Feed

variable (feed : Feed) (snapshot : Snapshot)

/-- The part of `apply` that compares the epochs: whether the epoch changed, and the feed after. -/
def enterEpoch : Bool × Feed :=
  if snapshot.epoch ≠ "" ∧ snapshot.epoch ≠ feed.epoch then
    (feed.epoch ≠ "", { feed with epoch := snapshot.epoch, version := 0 })
  else (false, feed)

/-- `apply`: a snapshot is taken unless it is older than what was applied. -/
def apply : Application × Feed :=
  let (epochChanged, feed) := feed.enterEpoch snapshot
  if 0 < snapshot.version ∧ snapshot.version < feed.version then ({}, feed)
  else ({ applied := true, epochChanged },
    { feed with
      version := max feed.version snapshot.version, gate := feed.gate.store snapshot.flags })

end Feed

/-! ### Settings and the calls of a service -/

/-- The states of settings, and the feed. -/
structure World where
  newest : State
  past : List State := []
  feed : Feed := {}
  /-- the states that messages and reads have carried to the feed -/
  carried : List State := []

namespace World

variable (s : World)

/-- The states of settings, the newest first. -/
def history : List State := s.newest :: s.past

/-- Settings has other flags. -/
def publish (flags : ModuleFlags) : World :=
  { s with newest := { s.newest with version := s.newest.version + 1, flags }, past := s.history }

/-- A restore begins a new epoch, at a version of its own. -/
def restore (version : ℤ) (flags : ModuleFlags) : World :=
  { s with newest := { era := s.newest.era + 1, version := max 1 version, flags }, past := s.history }

/-- The feed applies a state. -/
def take (epochs : Epochs) (st : State) : World :=
  { s with feed := (s.feed.apply (epochs.snapshot st)).2, carried := st :: s.carried }

end World

/-- What the requests await, and what settings does. -/
inductive Op where
  | publish (flags : ModuleFlags)
  | restore (version : ℤ) (flags : ModuleFlags)
  /-- the broker delivers a state of settings: the newest, or one before it -/
  | deliver (i : ℕ)
  | bootRead
  | apply (st : State)
  | applyAuthoritative (st : State)
  deriving DecidableEq

/-- What each of them answers. -/
@[reducible] def Op.Ans : Op → Type
  | .deliver _ => Option State
  | .bootRead => State
  | .apply _ => Application
  | .applyAuthoritative _ => Bool
  | _ => Unit

/-- The answer of an operation and the state after it. -/
def exec (epochs : Epochs) (_ : Unit) (op : Op) (s : World) : op.Ans × List Unit × World :=
  match op with
  | .publish flags => ((), [], s.publish flags)
  | .restore version flags => ((), [], s.restore version flags)
  | .deliver i => (s.history[i]?, [], s)
  | .bootRead => (s.newest, [], s)
  | .apply st => ((s.feed.apply (epochs.snapshot st)).1, [], s.take epochs st)
  | .applyAuthoritative st =>
    ((s.feed.apply (epochs.snapshot st)).1.applied, [], s.take epochs st)

/-- A task of the feed. -/
abbrev FeedTask := Task Op Op.Ans

/-- Await an operation. -/
def ask (op : Op) : FeedTask op.Ans := Task.call op

namespace ModuleFeed

/-- A read and what is done with it; `run` makes one at its start and one after it has subscribed
late. -/
def refresh : FeedTask Unit := do
  let st ← ask .bootRead
  let _ ← ask (.applyAuthoritative st)

/-- The state is read again. -/
def repull : FeedTask Unit := refresh

/-- A state that the broker delivers is applied; a new epoch is read again. -/
def handle (st : State) : FeedTask Unit := do
  let result ← ask (.apply st)
  if result.epochChanged then
    repull

/-- A message is delivered. -/
def deliver (i : ℕ) : FeedTask Unit := do
  let delivered ← ask (.deliver i)
  match delivered with
  | none => pure ()
  | some st => handle st

end ModuleFeed

/-- What happens to settings and to the feed. -/
inductive Request where
  | publish (flags : ModuleFlags)
  | restore (version : ℤ) (flags : ModuleFlags)
  | message (i : ℕ)
  | refresh
  deriving DecidableEq, Repr

/-- Where a call stands: it has a message, it has still to read, or it has read. -/
inductive Call where
  | idle
  | delivered (st : State)
  | owes
  | holds (st : State)
  deriving DecidableEq, Repr

/-- How far a request has come once an operation is answered. -/
def Call.after (k : Call) : (op : Op) → Option op.Ans → Call
  | .deliver _, some (some st) => .delivered st
  | .bootRead, some st => .holds st
  | .apply _, some result => if result.epochChanged then .owes else .idle
  | .applyAuthoritative _, some _ => .idle
  | _, _ => k

/-- A service at work while settings changes. -/
def workshop (epochs : Epochs) : Workshop World Unit Call Unit Request Op Op.Ans where
  exec := exec epochs
  program
    | .publish flags => ask (.publish flags)
    | .restore version flags => ask (.restore version flags)
    | .message i => ModuleFeed.deliver i
    | .refresh => ModuleFeed.refresh
  first _ := .idle
  after := Call.after

/-- Settings has had one state; the gate has what the state file remembers. -/
def start (first : State) (gate : Gate) : Crew World Call Request Op Op.Ans :=
  ⟨{ newest := first, feed := { gate } }, []⟩

end Modules

end ArgusBackend
