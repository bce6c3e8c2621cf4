import ArgusBackend.Library.Chronicles
import ArgusBackend.Library.Runs
import ArgusBackend.Safety.Service

/-!
# Attempts at a PIN, side by side

The runs of `verifyPin` cut at their awaits: a `Point` is where a run stands, and one event takes
one run over one await.  The clock, the purge and the explicit clears of `setPin`, `removePin` and
`forgetUser` are events of their own.

* `Attempt.step` : one await of a run; `Attempt.rest` is what is left of `verifyPin` there, and
  `rest_step` says that the two agree;
* `failures` : the failures recorded since the user's last acceptance or clear, a history variable.
-/

namespace ArgusBackend

namespace Safety

namespace Lockout

/-- Where a run of `verifyPin` stands. -/
inductive Point where
  | clock
  | occupy (now : ℤ)
  | prune (now : ℤ)
  | count (now : ℤ)
  | record (now : ℤ)
  | compare (isLocked : Bool)
  | abandon
  | settle (isLocked : Bool) (found : PinMatch)
  | clear (found : PinMatch)
  | alarm
  | refuse (error : SafetyError)
  | finished (verdict : Option DisarmVerdict)
  deriving DecidableEq, Repr

/-- A run of `verifyPin` with an entered PIN. -/
structure Attempt where
  request : DisarmRequest
  pin : UserPinRow
  /-- runs are numbered when they read the clock -/
  serial : ℕ := 0
  point : Point := .clock
  deriving DecidableEq, Repr

/-- What the history remembers. -/
inductive Note where
  | recorded (serial : ℕ) (userId now : ℤ)
  | accepted (serial : ℕ) (userId clock : ℤ)
  | cleared (serial : ℕ) (userId : ℤ)
  /-- `setPin`, `removePin` or `forgetUser` cleared the user's failures -/
  | wiped (userId : ℤ)
  /-- an answer `PinInvalid` -/
  | invalid (serial : ℕ) (userId : ℤ)
  deriving DecidableEq, Repr

/-- The tables, the clock and the tries. -/
structure World where
  db : Db := {}
  clock : ℤ := 0
  nextSerial : ℕ := 0
  attempts : List Attempt := []

namespace Attempt

variable (limits : Limits) (a : Attempt)

/-- The user of a try. -/
abbrev userId : ℤ := a.request.userId

/-- A try goes on to a point. -/
def goto (point : Point) : Attempt := { a with point }

/-- The verdict that is left when the settlement is done. -/
def after (isLocked : Bool) (found : PinMatch) : Point :=
  if isLocked then if found.duress then .alarm else .refuse .pinLocked
  else if found.duress then .finished (some .duress)
  else if found.disarm then .finished (some .allowed)
  else .refuse .pinInvalid

/-- The PIN opens: it is right, and the user is not locked out. -/
def accepts (isLocked : Bool) (found : PinMatch) : Bool :=
  !isLocked && (found.duress || found.disarm)

/-- One await: the attempt after it, the tables after it, and what is remembered. -/
def step (w : World) (found : PinMatch) : Option (Attempt × Db × Option Note) :=
  let since := fun now : ℤ => now - limits.windowSeconds
  match a.point with
  | .clock => some ({ a with serial := w.nextSerial, point := .occupy w.clock }, w.db, none)
  | .occupy now =>
    if a.userId ∈ w.db.inFlight then some (a.goto (.refuse .pinLocked), w.db, none)
    else some (a.goto (.prune now), { w.db with inFlight := insert a.userId w.db.inFlight }, none)
  | .prune now => some (a.goto (.count now), w.db.pruneUser a.userId (since now), none)
  | .count now =>
    if limits.maxFailures ≤ w.db.countSince a.userId (since now) then
      some (a.goto (.compare true), w.db, none)
    else some (a.goto (.record now), w.db, none)
  | .record now =>
    some (a.goto (.compare false), w.db.insertFailure ⟨a.userId, now⟩,
      some (.recorded a.serial a.userId now))
  | .compare isLocked =>
    some (a.goto (.settle isLocked found), w.db,
      if accepts isLocked found then some (.accepted a.serial a.userId w.clock) else none)
  | .abandon =>
    some (a.goto (.finished none), { w.db with inFlight := w.db.inFlight.erase a.userId }, none)
  | .settle isLocked found =>
    -- the user is released before the failures are cleared
    some (a.goto (if accepts isLocked found then .clear found else after isLocked found),
      { w.db with inFlight := w.db.inFlight.erase a.userId }, none)
  | .clear found =>
    some (a.goto (after false found), w.db.clearUser a.userId,
      some (.cleared a.serial a.userId))
  | .alarm => some (a.goto (.refuse .pinLocked), w.db, none)
  | .refuse error =>
    some (a.goto (.finished none), w.db,
      if error = .pinInvalid then some (.invalid a.serial a.userId) else none)
  | .finished _ => none

/-- A statement or the comparison throws. -/
def throw : Option Attempt :=
  match a.point with
  | .prune _ | .count _ | .record _ | .compare _ => some (a.goto .abandon)
  | .clear _ => some (a.goto (.finished none))
  | _ => none

/-- The run is between its reservation and its release. -/
def inProgress : Bool :=
  match a.point with
  | .prune _ | .count _ | .record _ | .compare _ | .abandon | .settle _ _ => true
  | _ => false

/-! ### What is left of `verifyPin` -/

section Rest

variable (limits : Limits) (request : DisarmRequest) (pin : UserPinRow)

/-- After the settlement. -/
def answered (isLocked : Bool) (found : PinMatch) : SafetyTask DisarmVerdict := do
  if isLocked then
    if found.duress then
      ask (.duress request)
    refuse request.userId .pinLocked
  else if found.duress then
    pure .duress
  else if found.disarm then
    pure .allowed
  else
    refuse request.userId .pinInvalid

/-- After the reservation. -/
def reserved (reservation : PinReservation) : SafetyTask DisarmVerdict := do
  if reservation.admitted = false then
    refuse request.userId .pinLocked
  else
    let found ← (ask (.verify (request.pin.getD "") pin.disarmHash pin.duressHash)).attempt
    match found with
    | none =>
      ask (.release request.userId)
      Task.throw
    | some found =>
      PinAttempts.settle request.userId (accepts reservation.isLocked found)
      answered request reservation.isLocked found

/-- The reservation gives the user back when a statement of it throws. -/
def guarded (admission : SafetyTask PinReservation) : SafetyTask PinReservation := do
  let reservation ← admission.attempt
  match reservation with
  | some reservation => pure reservation
  | none =>
    ask (.release request.userId)
    Task.throw

/-- The rest of `reserve`, when the failures are counted. -/
def recording (now : ℤ) (lockedOut : Bool) : SafetyTask PinReservation := do
  if lockedOut then
    pure { admitted := true, isLocked := true }
  else
    ask (.recordFailure ⟨request.userId, now⟩)
    pure { admitted := true, isLocked := false }

/-- Whether the user is locked out. -/
def counting (now : ℤ) : SafetyTask Bool := do
  let failures ← ask (.countSince request.userId (now - limits.windowSeconds))
  pure (decide (limits.maxFailures ≤ failures))

/-- What is left of a run at each point. -/
def restAt : Point → SafetyTask DisarmVerdict
  | .clock => do
    let now ← ask .now
    let reservation ← PinAttempts.reserve limits ⟨request.userId, now⟩
    reserved request pin reservation
  | .occupy now => do
    let reservation ← PinAttempts.reserve limits ⟨request.userId, now⟩
    reserved request pin reservation
  | .prune now => do
    let reservation ← guarded request (PinAttempts.admitAttempt limits ⟨request.userId, now⟩)
    reserved request pin reservation
  | .count now => do
    let reservation ← guarded request (counting limits request now >>= recording request now)
    reserved request pin reservation
  | .record now => do
    let reservation ← guarded request (recording request now false)
    reserved request pin reservation
  | .compare isLocked => reserved request pin { admitted := true, isLocked }
  | .abandon => do
    ask (.release request.userId)
    Task.throw
  | .settle isLocked found => do
    PinAttempts.settle request.userId (accepts isLocked found)
    answered request isLocked found
  | .clear found => do
    ask (.clear request.userId)
    answered request false found
  | .alarm => do
    ask (.duress request)
    refuse request.userId .pinLocked
  | .refuse error => refuse request.userId error
  | .finished (some verdict) => pure verdict
  | .finished none => Task.throw

end Rest

/-- What is left of the run. -/
def rest : SafetyTask DisarmVerdict := restAt limits a.request a.pin a.point

/-- A run begins as `verifyPin`. -/
theorem rest_start {request : DisarmRequest} {pin : UserPinRow}
    (h : request.pin.getD "" ≠ "") :
    rest limits { request, pin } = SafetyService.verifyPin limits request pin := by
  obtain ⟨userId, userName, entered, environmentId⟩ := request
  cases entered with
  | none => exact absurd rfl h
  | some entered =>
    have hentered : entered ≠ "" := h
    simp only [SafetyService.verifyPin, if_neg hentered, rest, restAt, reserved, answered, accepts,
      Option.getD_some]
    congr 1
    funext now
    congr 1
    funext reservation
    split
    next => rfl
    next =>
      congr 1
      funext found
      cases found <;> rfl

variable {limits a}

theorem rest_answered {request : DisarmRequest} {pin : UserPinRow} (isLocked : Bool) (found : PinMatch) :
    restAt limits request pin (after isLocked found) = answered request isLocked found := by
  unfold after answered
  cases isLocked <;> cases found.duress <;> cases found.disarm <;> rfl

/-- A step of the run is what the program awaits there. -/
theorem rest_step {w : World} {env : Outside} {a' : Attempt} {db : Db} {note : Option Note}
    (hnow : env.now = w.clock) (h : a.step limits w env.entered = some (a', db, note)) :
    ∃ op next, a.rest limits = .await op next ∧
      next (some (answer env w.db op)) = a'.rest limits ∧ effect w.db op = db := by
  unfold step at h
  cases hpoint : a.point with
  | clock =>
    simp only [hpoint, Option.some.injEq, Prod.mk.injEq] at h
    obtain ⟨rfl, rfl, -⟩ := h
    refine ⟨_, _, by rw [rest, hpoint]; rfl, ?_, rfl⟩
    rw [rest, ← hnow]
    rfl
  | occupy now =>
    simp only [hpoint] at h
    split at h
    next hin =>
      obtain ⟨rfl, rfl, -⟩ : _ = a' ∧ _ = db ∧ _ = note := by simpa using h
      refine ⟨_, _, by rw [rest, hpoint]; rfl, ?_, ?_⟩
      · simp [answer, hin]
        rfl
      · simp [effect, hin]
    next hin =>
      obtain ⟨rfl, rfl, -⟩ : _ = a' ∧ _ = db ∧ _ = note := by simpa using h
      refine ⟨_, _, by rw [rest, hpoint]; rfl, ?_, rfl⟩
      simp [answer, hin]
      rfl
  | prune now =>
    simp only [hpoint, Option.some.injEq, Prod.mk.injEq] at h
    obtain ⟨rfl, rfl, -⟩ := h
    exact ⟨_, _, by rw [rest, hpoint]; rfl, rfl, rfl⟩
  | count now =>
    simp only [hpoint] at h
    split at h
    next hmax =>
      obtain ⟨rfl, rfl, -⟩ : _ = a' ∧ _ = db ∧ _ = note := by simpa using h
      refine ⟨_, _, by rw [rest, hpoint]; rfl, ?_, rfl⟩
      change (guarded a.request (recording a.request now (decide (limits.maxFailures ≤
        w.db.countSince a.userId (now - limits.windowSeconds)))) >>= reserved a.request a.pin) = _
      rw [decide_eq_true hmax]
      rfl
    next hmax =>
      obtain ⟨rfl, rfl, -⟩ : _ = a' ∧ _ = db ∧ _ = note := by simpa using h
      refine ⟨_, _, by rw [rest, hpoint]; rfl, ?_, rfl⟩
      change (guarded a.request (recording a.request now (decide (limits.maxFailures ≤
        w.db.countSince a.userId (now - limits.windowSeconds)))) >>= reserved a.request a.pin) = _
      rw [decide_eq_false hmax]
      rfl
  | record now =>
    simp only [hpoint, Option.some.injEq, Prod.mk.injEq] at h
    obtain ⟨rfl, rfl, -⟩ := h
    exact ⟨_, _, by rw [rest, hpoint]; rfl, rfl, rfl⟩
  | compare isLocked =>
    simp only [hpoint, Option.some.injEq, Prod.mk.injEq] at h
    obtain ⟨rfl, rfl, -⟩ := h
    exact ⟨_, _, by rw [rest, hpoint]; rfl, rfl, rfl⟩
  | abandon =>
    simp only [hpoint, Option.some.injEq, Prod.mk.injEq] at h
    obtain ⟨rfl, rfl, -⟩ := h
    exact ⟨_, _, by rw [rest, hpoint]; rfl, rfl, rfl⟩
  | settle isLocked found =>
    simp only [hpoint, Option.some.injEq, Prod.mk.injEq] at h
    obtain ⟨rfl, rfl, -⟩ := h
    refine ⟨_, _, by rw [rest, hpoint]; rfl, ?_, rfl⟩
    cases haccepts : accepts isLocked found with
    | false =>
      simp only [Bool.false_eq_true, if_false]
      exact (rest_answered isLocked found).symm
    | true =>
      -- only a run that is not locked accepts
      have hunlocked : isLocked = false := by
        simp only [accepts, Bool.and_eq_true, Bool.not_eq_true'] at haccepts
        exact haccepts.1
      subst hunlocked
      rfl
  | clear found =>
    simp only [hpoint, Option.some.injEq, Prod.mk.injEq] at h
    obtain ⟨rfl, rfl, -⟩ := h
    exact ⟨_, _, by rw [rest, hpoint]; rfl, (rest_answered false found).symm, rfl⟩
  | alarm =>
    simp only [hpoint, Option.some.injEq, Prod.mk.injEq] at h
    obtain ⟨rfl, rfl, -⟩ := h
    exact ⟨_, _, by rw [rest, hpoint]; rfl, rfl, rfl⟩
  | refuse error =>
    simp only [hpoint, Option.some.injEq, Prod.mk.injEq] at h
    obtain ⟨rfl, rfl, -⟩ := h
    exact ⟨_, _, by rw [rest, hpoint]; rfl, rfl, rfl⟩
  | finished verdict => simp [hpoint] at h

/-- A throw leaves what the program does after it. -/
theorem rest_throw {a' : Attempt} (h : a.throw = some a') :
    ∃ op next, a.rest limits = .await op next ∧ next none = a'.rest limits := by
  -- the reservation gives the user back and throws on
  have habandon : ∀ f : PinReservation → SafetyTask DisarmVerdict,
      ((do ask (.release a.userId); Task.throw : SafetyTask PinReservation) >>= f) =
        (do ask (.release a.userId); Task.throw) := fun f =>
    congrArg (Task.await _) (funext fun r => by cases r <;> rfl)
  unfold Attempt.throw at h
  cases hpoint : a.point with
  | prune now =>
    simp only [hpoint, Option.some.injEq] at h
    subst h
    exact ⟨_, _, by rw [rest, hpoint]; rfl, habandon _⟩
  | count now =>
    simp only [hpoint, Option.some.injEq] at h
    subst h
    exact ⟨_, _, by rw [rest, hpoint]; rfl, habandon _⟩
  | record now =>
    simp only [hpoint, Option.some.injEq] at h
    subst h
    exact ⟨_, _, by rw [rest, hpoint]; rfl, habandon _⟩
  | compare isLocked =>
    simp only [hpoint, Option.some.injEq] at h
    subst h
    exact ⟨_, _, by rw [rest, hpoint]; rfl, rfl⟩
  | clear found =>
    simp only [hpoint, Option.some.injEq] at h
    subst h
    exact ⟨_, _, by rw [rest, hpoint]; rfl, rfl⟩
  | _ => simp [hpoint] at h

end Attempt

/-- What happens to the tries. -/
inductive Event where
  | verifyPin (request : DisarmRequest) (pin : UserPinRow)
  | run (attempt : ℕ) (found : PinMatch)
  | throw (attempt : ℕ)
  | purgeExpired (now : ℤ)
  | wipe (userId : ℤ)
  | tick (now : ℤ)
  deriving DecidableEq, Repr

/-- What an event does. -/
def act (limits : Limits) (w : World) : Event → Option (World × Option Note)
  | .verifyPin request pin =>
    -- without a PIN it is answered at once
    if request.pin.getD "" = "" then none
    else some ({ w with attempts := w.attempts ++ [{ request, pin }] }, none)
  | .run i found =>
    match w.attempts[i]? with
    | none => none
    | some a =>
      match a.step limits w found with
      | none => none
      | some (a', db, note) =>
        some ({ w with db, attempts := w.attempts.set i a'
                       nextSerial := if a.point = .clock then w.nextSerial + 1 else w.nextSerial },
          note)
  | .throw i =>
    match w.attempts[i]? with
    | none => none
    | some a =>
      match a.throw with
      | none => none
      | some a' => some ({ w with attempts := w.attempts.set i a' }, none)
  | .purgeExpired now =>
    -- the purge read its clock before
    if w.clock < now then none
    else some ({ w with db := w.db.purgeBefore (now - limits.windowSeconds) }, none)
  | .wipe userId => some ({ w with db := w.db.clearUser userId }, some (.wiped userId))
  | .tick now => if now < w.clock then none else some ({ w with clock := now }, none)

/-- What each event does, and when it can happen. -/
inductive Acted (limits : Limits) (w : World) : Event → World → Option Note → Prop
  | verifyPin {request : DisarmRequest} {pin : UserPinRow} : request.pin.getD "" ≠ "" →
      Acted limits w (.verifyPin request pin)
        { w with attempts := w.attempts ++ [{ request, pin }] } none
  | run {i : ℕ} {found : PinMatch} {a a' : Attempt} {db : Db} {note : Option Note} :
      w.attempts[i]? = some a → a.step limits w found = some (a', db, note) →
      Acted limits w (.run i found)
        { w with db, attempts := w.attempts.set i a'
                 nextSerial := if a.point = .clock then w.nextSerial + 1 else w.nextSerial } note
  | throw {i : ℕ} {a a' : Attempt} : w.attempts[i]? = some a → a.throw = some a' →
      Acted limits w (.throw i) { w with attempts := w.attempts.set i a' } none
  | purgeExpired {now : ℤ} : now ≤ w.clock →
      Acted limits w (.purgeExpired now)
        { w with db := w.db.purgeBefore (now - limits.windowSeconds) } none
  | wipe {userId : ℤ} :
      Acted limits w (.wipe userId) { w with db := w.db.clearUser userId } (some (.wiped userId))
  | tick {now : ℤ} : w.clock ≤ now → Acted limits w (.tick now) { w with clock := now } none

theorem acted {limits : Limits} {w w' : World} {ev : Event} {note : Option Note}
    (hact : act limits w ev = some (w', note)) : Acted limits w ev w' note := by
  cases ev with
  | verifyPin request pin =>
    simp only [act] at hact
    split at hact
    next => cases hact
    next hpin =>
      obtain ⟨rfl, rfl⟩ : _ = w' ∧ _ = note := by simpa using hact
      exact .verifyPin hpin
  | run i found =>
    simp only [act] at hact
    split at hact
    next => cases hact
    next a hi =>
      split at hact
      next => cases hact
      next a' db note' hstep =>
        obtain ⟨rfl, rfl⟩ : _ = w' ∧ _ = note := by simpa using hact
        exact .run hi hstep
  | throw i =>
    simp only [act] at hact
    split at hact
    next => cases hact
    next a hi =>
      split at hact
      next => cases hact
      next a' hthrow =>
        obtain ⟨rfl, rfl⟩ : _ = w' ∧ _ = note := by simpa using hact
        exact .throw hi hthrow
  | purgeExpired now =>
    simp only [act] at hact
    split at hact
    next => cases hact
    next hle =>
      obtain ⟨rfl, rfl⟩ : _ = w' ∧ _ = note := by simpa using hact
      exact .purgeExpired (not_lt.1 hle)
  | wipe userId =>
    obtain ⟨rfl, rfl⟩ : _ = w' ∧ _ = note := by simpa [act] using hact
    exact .wipe
  | tick now =>
    simp only [act] at hact
    split at hact
    next => cases hact
    next hle =>
      obtain ⟨rfl, rfl⟩ : _ = w' ∧ _ = note := by simpa using hact
      exact .tick (not_lt.1 hle)

/-- One event at a time. -/
def Step (limits : Limits) (w : World) (notes : List Note) (w' : World) : Prop :=
  ∃ ev note, act limits w ev = some (w', note) ∧ notes = note.toList

/-- The failures of a user recorded since the last acceptance or clear, with their runs. -/
def failures (h : List Note) (userId : ℤ) : List (ℕ × ℤ) :=
  h.foldl (fun found note =>
    match note with
    | .recorded serial user now => if user = userId then found ++ [(serial, now)] else found
    | .accepted _ user _ | .wiped user => if user = userId then [] else found
    | _ => found) []

/-- How many of them are inside the window that starts after `since`. -/
def failuresSince (h : List Note) (userId since : ℤ) : ℕ :=
  (failures h userId).countP fun failure => since < failure.2

/-- Those of other runs. -/
def othersSince (h : List Note) (userId since : ℤ) (serial : ℕ) : ℕ :=
  (failures h userId).countP fun failure => since < failure.2 ∧ failure.1 ≠ serial

/-- The clear of an accepted attempt finds no failure recorded after the acceptance. -/
def ClearsInTime (before : List Note) : Note → Prop
  | .cleared _ userId => failures before userId = []
  | _ => True

instance (before : List Note) : DecidablePred (ClearsInTime before)
  | .cleared _ userId => inferInstanceAs (Decidable (failures before userId = []))
  | .recorded .. | .accepted .. | .invalid .. | .wiped .. => instDecidableTrue

/-- No attempt is accepted while as many failures as the limit lie inside the window before it. -/
def AcceptsBelow (limits : Limits) (before : List Note) : Note → Prop
  | .accepted serial userId clock =>
    othersSince before userId (clock - limits.windowSeconds) serial < limits.maxFailures
  | _ => True

end Lockout

end Safety

end ArgusBackend
