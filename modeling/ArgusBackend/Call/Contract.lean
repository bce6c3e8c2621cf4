import ArgusBackend.Call.Engine
import ArgusBackend.Call.ResponseStatements
import ArgusBackend.Call.Statements
import Mathlib.Algebra.BigOperators.Group.Multiset.Basic

/-!
# What the requests of the engine rely on

`contract` is what every request keeps to, whatever the others do: what it knows from the
statements it has awaited, and what it owes to the statements it awaits next.  A request that marks
a member reached owes handing it over (`Credit.hand`), and it marks members only while it is
serving the response (`Credit.serve`).  `may` is a parameter: the dedupe keys for which a request
may open a call.

* `Settled` is the invariant behind the facts;
* `settled_exec`, `fact_exec`, `later_exec` : every operation keeps it, brings the facts, and
  leads on.
-/

namespace ArgusBackend

namespace Call

/-- What was noted so far, and the tables. -/
abbrev World := List Note × Db

/-! ### Credits -/

/-- What is still to be done for a member that was marked. -/
inductive Credit where
  /-- a member that was marked is to be handed to `consider` -/
  | hand (response : ℕ) (userId : ℤ)
  /-- members of the response are to be reached -/
  | serve (response : ℕ)
  deriving DecidableEq

/-- The credit that a note gives. -/
def Note.gain : Note → Multiset Credit
  | .reached response userId => {.hand response userId}
  | .entered response _ | .serving response => {.serve response}
  | _ => 0

/-- The credit that a note takes. -/
def Note.cost : Note → Multiset Credit
  | .handed response userId | .called response userId => {.hand response userId}
  | .escalated response _ | .responded response _ | .served response => {.serve response}
  | _ => 0

/-- The credits gained and spent in a history. -/
def gained (h : List Note) : Multiset Credit := (h.map Note.gain).sum

/-- The credit that a history has taken. -/
def spent (h : List Note) : Multiset Credit := (h.map Note.cost).sum

@[simp] theorem gained_nil : gained [] = 0 := rfl
@[simp] theorem spent_nil : spent [] = 0 := rfl

@[simp] theorem gained_append (h h' : List Note) : gained (h ++ h') = gained h + gained h' := by
  simp [gained]

@[simp] theorem spent_append (h h' : List Note) : spent (h ++ h') = spent h + spent h' := by
  simp [spent]

@[simp] theorem gained_singleton (n : Note) : gained [n] = n.gain := by simp [gained]

@[simp] theorem spent_singleton (n : Note) : spent [n] = n.cost := by simp [spent]

/-- The notes from which on a request is to reach members of a response. -/
def Note.begins (response : ℕ) : Note → Bool
  | .entered r _ | .serving r => response = r
  | _ => false

/-- The notes of a request that has reached the members of a response. -/
def Note.finishes (response : ℕ) : Note → Bool
  | .escalated r _ | .responded r _ | .served r => response = r
  | _ => false

section Counts

variable {h : List Note} {response : ℕ} {userId : ℤ}

theorem count_gained_hand :
    (gained h).count (.hand response userId) = h.count (.reached response userId) := by
  induction h with
  | nil => rfl
  | cons n h ih =>
    have hcons : gained (n :: h) = n.gain + gained h := by simp [gained]
    rw [hcons, Multiset.count_add, ih, List.count_cons, add_comm]
    congr 1
    cases n <;> (simp [Note.gain, Multiset.count_singleton]; try grind)

theorem count_spent_hand : (spent h).count (.hand response userId) =
    h.count (.handed response userId) + h.count (.called response userId) := by
  induction h with
  | nil => rfl
  | cons n h ih =>
    have hcons : spent (n :: h) = n.cost + spent h := by simp [spent]
    rw [hcons, Multiset.count_add, ih, List.count_cons, List.count_cons]
    cases n <;> simp [Note.cost, Multiset.count_singleton] <;> grind

theorem count_gained_serve :
    (gained h).count (.serve response) = h.countP (Note.begins response) := by
  induction h with
  | nil => rfl
  | cons n h ih =>
    have hcons : gained (n :: h) = n.gain + gained h := by simp [gained]
    rw [hcons, Multiset.count_add, ih, List.countP_cons, add_comm]
    congr 1
    cases n <;> simp [Note.gain, Note.begins, Multiset.count_singleton]

theorem count_spent_serve :
    (spent h).count (.serve response) = h.countP (Note.finishes response) := by
  induction h with
  | nil => rfl
  | cons n h ih =>
    have hcons : spent (n :: h) = n.cost + spent h := by simp [spent]
    rw [hcons, Multiset.count_add, ih, List.countP_cons, add_comm]
    congr 1
    cases n <;> simp [Note.cost, Note.finishes, Multiset.count_singleton]

end Counts

/-- A member is owed only while its response is served. -/
def Held (m : Multiset Credit) : Prop :=
  ∀ response userId, .hand response userId ∈ m → .serve response ∈ m

theorem held_zero : Held 0 := fun _ _ hmem => absurd hmem (Multiset.notMem_zero _)

/-! ### What lasts -/

/-- The data of a response make a candidate of its key. -/
def Coherent (data : CallData) (dedupeKey : String) : Prop :=
  ∃ candidate, fromNotification data = some candidate ∧ candidate.dedupeKey = dedupeKey

/-- What stays of the responses and their members. -/
structure Lasting (db db' : Db) : Prop where
  nextId : db.responses.nextId ≤ db'.responses.nextId
  same : ∀ r' ∈ db'.responses, r'.id < db.responses.nextId → ∃ r ∈ db.responses, r.id = r'.id ∧
    r.stepCount = r'.stepCount ∧ r.dedupeKey = r'.dedupeKey ∧ r.step ≤ r'.step
  members : ∀ m' ∈ db'.members, m'.responseId < db.responses.nextId → ∃ m ∈ db.members,
    m.responseId = m'.responseId ∧ m.userId = m'.userId ∧ m.step = m'.step ∧
      (m.reachedAt ≠ 0 → m'.reachedAt ≠ 0)

theorem Lasting.refl (db : Db) : Lasting db db :=
  ⟨Nat.le_refl _, fun r hr _ => ⟨r, hr, rfl, rfl, rfl, Nat.le_refl _⟩,
    fun m hm _ => ⟨m, hm, rfl, rfl, rfl, fun h => h⟩⟩

theorem Lasting.trans {db db' db'' : Db} (h : Lasting db db') (h' : Lasting db' db'') :
    Lasting db db'' := by
  refine ⟨Nat.le_trans h.nextId h'.nextId, fun r'' hr'' hid => ?_, fun m'' hm'' hid => ?_⟩
  · obtain ⟨r', hr', hid', hcount, hkey, hstep⟩ := h'.same r'' hr'' (hid.trans_le h.nextId)
    obtain ⟨r, hr, hid'', hcount', hkey', hstep'⟩ := h.same r' hr' (hid' ▸ hid)
    exact ⟨r, hr, hid''.trans hid', hcount'.trans hcount, hkey'.trans hkey, hstep'.trans hstep⟩
  · obtain ⟨m', hm', hid', huser, hstep, hreached⟩ := h'.members m'' hm'' (hid.trans_le h.nextId)
    obtain ⟨m, hm, hid'', huser', hstep', hreached'⟩ := h.members m' hm' (hid' ▸ hid)
    exact ⟨m, hm, hid''.trans hid', huser'.trans huser, hstep'.trans hstep,
      fun hm => hreached (hreached' hm)⟩

/-- Later: notes are added, time passes, and the responses last. -/
structure Later (w w' : World) : Prop where
  notes : w.1 <+: w'.1
  clock : w.2.clock ≤ w'.2.clock
  calls : w.2.calls.nextId ≤ w'.2.calls.nextId
  lasting : Lasting w.2 w'.2

theorem Later.refl (w : World) : Later w w :=
  ⟨List.prefix_refl _, le_refl _, Nat.le_refl _, Lasting.refl _⟩

theorem Later.trans {w w' w'' : World} (h : Later w w') (h' : Later w' w'') : Later w w'' :=
  ⟨h.notes.trans h'.notes, h.clock.trans h'.clock, h.calls.trans h'.calls,
    h.lasting.trans h'.lasting⟩

/-- A copy of a response that was read: what never changes of it is still right. -/
structure Copy (w : World) (r : ResponseRow) : Prop where
  coherent : Coherent r.data r.dedupeKey
  known : r.id < w.2.responses.nextId
  same : ∀ r' ∈ w.2.responses, r'.id = r.id →
    r'.stepCount = r.stepCount ∧ r'.dedupeKey = r.dedupeKey ∧ r.step ≤ r'.step

theorem Copy.later {w w' : World} {r : ResponseRow} (h : Copy w r) (hw : Later w w') :
    Copy w' r := by
  refine ⟨h.coherent, h.known.trans_le hw.lasting.nextId, fun r' hr' hid => ?_⟩
  obtain ⟨r₀, hr₀, hid', hcount, hkey, hstep⟩ := hw.lasting.same r' hr' (hid ▸ h.known)
  obtain ⟨hcount', hkey', hstep'⟩ := h.same r₀ hr₀ (hid'.trans hid)
  exact ⟨hcount.symm.trans hcount', hkey.symm.trans hkey', hstep'.trans hstep⟩

/-- The rows of a member are marked reached. -/
def Marked (w : World) (response : ℕ) (userId : ℤ) : Prop :=
  response < w.2.responses.nextId ∧
    ∀ m ∈ w.2.members, m.responseId = response → m.userId = userId → m.reachedAt ≠ 0

theorem Marked.later {w w' : World} {response : ℕ} {userId : ℤ} (h : Marked w response userId)
    (hw : Later w w') : Marked w' response userId := by
  refine ⟨h.1.trans_le hw.lasting.nextId, fun m' hm' hid huser => ?_⟩
  obtain ⟨m, hm, hid', huser', -, hreached⟩ := hw.lasting.members m' hm' (hid ▸ h.1)
  exact hreached (h.2 m hm (hid'.trans hid) (huser'.trans huser))

/-- The members of a step are reached. -/
def StepReached (w : World) (response step : ℕ) : Prop :=
  response < w.2.responses.nextId ∧
    ∀ m ∈ w.2.members, m.responseId = response → m.step = step → m.reachedAt ≠ 0

theorem StepReached.later {w w' : World} {response step : ℕ} (h : StepReached w response step)
    (hw : Later w w') : StepReached w' response step := by
  refine ⟨h.1.trans_le hw.lasting.nextId, fun m' hm' hid hstep => ?_⟩
  obtain ⟨m, hm, hid', -, hstep', hreached⟩ := hw.lasting.members m' hm' (hid ▸ h.1)
  exact hreached (h.2 m hm (hid'.trans hid) (hstep'.trans hstep))

/-! ### The contract -/

/-- For which dedupe keys a request may open a call; once it may, it may for good. -/
structure Permit where
  may : World → String → Prop
  later : ∀ {w w' key}, Later w w' → may w key → may w' key

/-- Calls may be opened for every key. -/
def Permit.all : Permit := ⟨fun _ _ => True, fun _ _ => trivial⟩

variable (permit : Permit)

/-- Calls may be opened for the key of a response. -/
def Free (w : World) (id : ℕ) : Prop :=
  id < w.2.responses.nextId ∧ ∀ r ∈ w.2.responses, r.id = id → permit.may w r.dedupeKey

/-- What an operation needs. -/
def need (w : World) : Op → Prop
  | .write (.openRinging row _) => row.createdAt ≤ w.2.clock ∧ permit.may w row.dedupeKey ∧
    0 < row.userId
  | .write (.create row) => (row.state = .injected ∨ row.state = .queued) ∧
    (row.state = .queued → row.parentCallId < w.2.calls.nextId)
  | .write (.claim _ userId _ _) => 0 < userId
  | .write (.end_ _ _ state _) => state = .completed
  | .write (.openResponse input members) => Coherent input.data input.dedupeKey ∧
    ∀ m ∈ members, m.step < input.stepCount
  | .write (.markReached _ _ now) => 0 < now
  | .write (.advance id fromStep toStep _ _) => toStep = fromStep + 1 ∧
    ∃ r, Copy w r ∧ r.id = id ∧ toStep < r.stepCount
  | .write (.markUnanswered id _) => ∃ r, Copy w r ∧ r.id = id ∧ r.stepCount ≤ r.step + 1
  | .note (.claimed id session) => .took id session ∈ w.1
  | .note (.escalated id step) => StepReached w id step
  | .note (.responded id userIds) => ∀ userId ∈ userIds, Marked w id userId
  | .note (.handed _ _) | .note (.called _ _) | .note (.serving _) | .note (.served _)
  | .note (.judged _ _) => True
  | .note _ => False
  | _ => True

/-- What the answer of an operation tells. -/
def fact (w : World) : (op : Op) → op.Ans → Prop
  | .read .clock, now => 0 < (now : ℤ) ∧ (now : ℤ) ≤ w.2.clock
  | .read (.findById id), found => ∀ r, (found : Option CallRow) = some r →
    r.id = id ∧ (r.state = .answered → .took id r.answeredSession ∈ w.1)
  | .read (.findRingingFor _ _), found => ∀ r, (found : Option CallRow) = some r →
    r.id < w.2.calls.nextId
  | .read (.due _ _), due => ∀ r ∈ (due : List ResponseRow), Copy w r
  | .read (.responseById id), found => ∀ r, (found : Option ResponseRow) = some r →
    Copy w r ∧ r.id = id ∧ (Free permit w id → permit.may w r.dedupeKey)
  | .read (.responseByKey key), found => ∀ r, (found : Option ResponseRow) = some r →
    Copy w r ∧ r.dedupeKey = key ∧ (responseOpen r.state = true → permit.may w key)
  | .read (.members id), members => ∀ m ∈ w.2.members, m.responseId = id →
    m ∈ (members : List CallResponseMember)
  | .write (.claim id _ session _), taken =>
    (taken : Option (List CallRow)).isSome → .took id session ∈ w.1
  | .write (.markReached id userId _), _ =>
    ∀ m ∈ w.2.members, m.responseId = id → m.userId = userId → m.reachedAt ≠ 0
  | .write (.advance id _ _ _ _), advanced => (advanced : Bool) = true →
    ∃ r ∈ w.2.responses, r.id = id ∧ permit.may w r.dedupeKey
  | .write (.verdict id given _ _ _), recorded =>
    (recorded : Bool) = true → given = .real → Free permit w id
  | _, _ => True

/-- The credit that an operation gives. -/
def gain : (op : Op) → op.Ans → Multiset Credit
  | .write (.markReached responseId userId _), marked =>
    if (marked : Bool) then {.hand responseId userId} else 0
  | .write (.advance id _ _ _ _), advanced => if (advanced : Bool) then {.serve id} else 0
  | .note n, _ => n.gain
  | _, _ => 0

/-- The credit that an operation takes. -/
def cost : Op → Multiset Credit
  | .note n => n.cost
  | _ => 0

theorem Free.later {permit : Permit} {w w' : World} {id : ℕ} (h : Free permit w id)
    (hw : Later w w') : Free permit w' id := by
  refine ⟨h.1.trans_le hw.lasting.nextId, fun r' hr' hid => ?_⟩
  obtain ⟨r, hr, hid', -, hkey, -⟩ := hw.lasting.same r' hr' (hid ▸ h.1)
  exact permit.later hw (hkey ▸ h.2 r hr (hid'.trans hid))

theorem need_later {permit : Permit} {w w' : World} {op : Op} (hw : Later w w')
    (h : need permit w op) : need permit w' op := by
  cases op with
  | write write =>
    cases write with
    | openRinging row now => exact ⟨h.1.trans hw.clock, permit.later hw h.2.1, h.2.2⟩
    | create row => exact ⟨h.1, fun hqueued => (h.2 hqueued).trans_le hw.calls⟩
    | advance id fromStep toStep deadline now =>
      obtain ⟨hstep, r, hcopy, hid, hlt⟩ := h
      exact ⟨hstep, r, hcopy.later hw, hid, hlt⟩
    | markUnanswered id now =>
      obtain ⟨r, hcopy, hid, hle⟩ := h
      exact ⟨r, hcopy.later hw, hid, hle⟩
    | _ => exact h
  | note n =>
    cases n with
    | claimed id session => exact hw.notes.subset h
    | escalated id step => exact StepReached.later h hw
    | responded id userIds => exact fun userId huser => (h userId huser).later hw
    | _ => exact h
  | _ => exact h

/-- What every operation of the engine is held to. -/
def contract : Contract World Op Op.Ans (Multiset Credit) where
  future := Later
  refl := Later.refl
  trans := Later.trans
  need := need permit
  need_mono := need_later
  fact := fact permit
  cost := cost
  gain := gain
  held := Held
  held_zero := held_zero
  held_add := fun hm hm' response userId hmem => by
    rcases Multiset.mem_add.1 hmem with hmem | hmem
    · exact Multiset.mem_add.2 (.inl (hm response userId hmem))
    · exact Multiset.mem_add.2 (.inr (hm' response userId hmem))

/-! ### The invariant behind the facts -/

/-- What holds of the tables between two requests, with what is still to be done. -/
structure Settled (h : List Note) (db : Db) (m : Multiset Credit) : Prop where
  clock : 0 < db.clock
  took : ∀ r ∈ db.calls, r.state = .answered → .took r.id r.answeredSession ∈ h
  owned : ∀ r ∈ db.calls, r.state = .ringing → 0 < r.userId
  parents : ∀ r ∈ db.calls, r.state = .queued → r.parentCallId < db.calls.nextId
  coherent : ∀ r ∈ db.responses, Coherent r.data r.dedupeKey
  balance : spent h + m = gained h

section Exec

variable {permit} {h : List Note} {db : Db} {m : Multiset Credit} {w : Write}

theorem allowed_of_need {w : World} {write : Write} (h : need permit w (.write write)) :
    Allowed write := by
  cases write <;> first | exact h | exact h.1 | trivial

theorem climbs_of_need (hneed : need permit (h, db) (.write w)) : w.Climbs db := by
  cases w with
  | advance id fromStep toStep deadline now =>
    obtain ⟨hstep, r, hcopy, hid, hlt⟩ := hneed
    refine ⟨hstep, fun r' hr' hid' => ?_⟩
    rw [(hcopy.same r' hr' (hid'.trans hid.symm)).1]
    exact hlt
  | _ => trivial

theorem clock_run (w : Write) : db.clock ≤ (w.run db).2.2.clock := by
  cases w with
  | tick seconds =>
    have : (0 : ℤ) ≤ seconds := Int.natCast_nonneg _
    simp only [Write.run]
    omega
  | cancelRingingForKey dedupeKey exceptUserId onlyUserId reason now =>
    simp only [Write.run, foldl_settle]
    exact le_refl _
  | create row =>
    simp only [Write.run]
    split <;> exact le_refl _
  | openRinging row now =>
    simp only [Write.run]
    split
    · exact le_refl _
    · split
      · exact le_refl _
      · split <;> exact le_refl _
  | declineRingingAndCancel call now =>
    simp only [Write.run]
    split <;> exact le_refl _
  | missRingingAndCancel call now =>
    simp only [Write.run]
    split <;> exact le_refl _
  | claim id userId sessionId now =>
    simp only [Write.run]
    split <;> exact le_refl _
  | openResponse input members =>
    simp only [Write.run]
    split <;> exact le_refl _
  | _ => exact le_refl _

theorem lasting_run (hclimbs : w.Climbs db) : Lasting db (w.run db).2.2 := by
  refine ⟨nextId_run w, fun r' hr' hid => ?_, fun m' hm' hid => ?_⟩
  · rcases evolved_run hclimbs hr' with ⟨r, hr, hevolved⟩ | ⟨hnew, -⟩
    · exact ⟨r, hr, hevolved.id.symm, hevolved.stepCount.symm, hevolved.dedupeKey.symm,
        hevolved.le_step⟩
    · omega
  · rcases member_run w hm' with ⟨m, hm, hkept⟩ | ⟨hnew, -, -⟩
    · exact ⟨m, hm, hkept.responseId, hkept.userId, hkept.step, hkept.reached⟩
    · omega

theorem later_exec {op : Op} (hneed : need permit (h, db) op) (env : Env) :
    Later (h, db) (h ++ (exec env op db).2.1, (exec env op db).2.2) := by
  refine ⟨List.prefix_append _ _, ?_, ?_, ?_⟩
  · cases op with
    | write w => exact clock_run w
    | _ => exact le_refl _
  · cases op with
    | write w => exact (effect_run db (allowed_of_need hneed)).nextId_le
    | _ => exact Nat.le_refl _
  · cases op with
    | write w => exact lasting_run (climbs_of_need hneed)
    | _ => exact Lasting.refl db

/-- The notes of a write spend nothing, and gain what its answer says. -/
theorem spent_run (w : Write) : spent (w.run db).2.1 = 0 := by
  refine List.sum_eq_zero fun c hc => ?_
  obtain ⟨n, hn, rfl⟩ := List.mem_map.1 hc
  cases noteOf_run hn <;> rfl

theorem gained_run (w : Write) : gained (w.run db).2.1 = gain (.write w) (w.run db).1 := by
  cases w with
  | markReached responseId userId now =>
    cases hany : db.members.any (fun m => decide (m.responseId = responseId ∧
      m.userId = userId ∧ m.reachedAt = 0)) with
    | false =>
      simp only [gain, Write.run, hany]
      rfl
    | true =>
      simp only [gain, Write.run, hany]
      exact gained_singleton (.reached responseId userId)
  | advance id fromStep toStep deadline now =>
    cases hany : db.responses.rows.any (fun r => decide (r.id = id ∧ r.state = .active ∧
      r.step = fromStep)) with
    | false =>
      simp only [gain, Write.run, hany]
      rfl
    | true =>
      simp only [gain, Write.run, hany]
      exact gained_singleton (.entered id toStep)
  | _ =>
    refine List.sum_eq_zero fun c hc => ?_
    obtain ⟨n, hn, rfl⟩ := List.mem_map.1 hc
    cases noteOf_run hn <;> rfl

/-- Every operation keeps the invariant. -/
theorem settled_exec {op : Op} (hsettled : Settled h db (m + cost op))
    (hneed : need permit (h, db) op) (env : Env) :
    Settled (h ++ (exec env op db).2.1) (exec env op db).2.2 (m + gain op (exec env op db).1) := by
  cases op with
  | ask q => simpa [exec, gain, cost] using hsettled
  | read r =>
    have hgain : gain (.read r) (exec env (.read r) db).1 = 0 := by cases r <;> rfl
    rw [hgain]
    simpa [exec, cost] using hsettled
  | note n =>
    refine ⟨hsettled.clock, fun r hr hanswered => ?_, hsettled.owned, hsettled.parents,
      hsettled.coherent, ?_⟩
    · exact List.mem_append_left _ (hsettled.took r hr hanswered)
    · have hbalance : spent h + (m + n.cost) = gained h := hsettled.balance
      calc spent (h ++ [n]) + (m + n.gain) = spent h + (m + n.cost) + n.gain := by
            rw [spent_append, spent_singleton]
            abel
        _ = gained (h ++ [n]) := by rw [hbalance, gained_append, gained_singleton]
  | write w =>
    have heffect := effect_run db (allowed_of_need hneed)
    refine ⟨hsettled.clock.trans_le (clock_run w), fun r' hr' hanswered => ?_,
      fun r' hr' hringing => ?_, fun r' hr' hqueued => ?_, fun r' hr' => ?_, ?_⟩
    · -- an answered call has its note
      rcases heffect.of_mem hr' with ⟨r, hr, hsame, hbecame⟩ | hnew
      · cases hbecame with
        | kept hstate hsession =>
          have := hsettled.took r hr (hstate ▸ hanswered)
          rw [hsame.id, hsession]
          exact List.mem_append_left _ this
        | answered session _ _ hsession htook =>
          rw [hsame.id, hsession]
          exact List.mem_append_right _ htook
        | _ => simp_all
      · cases hnew.2 <;> simp_all
    · rcases heffect.of_mem hr' with ⟨r, hr, hsame, hbecame⟩ | ⟨-, hinserted⟩
      · exact hsame.userId ▸ hsettled.owned r hr (hbecame.of_ringing hringing)
      · cases hinserted with
        | ringing row now hw _ huser _ _ _ _ =>
          subst hw
          exact huser ▸ hneed.2.2
        | queued hqueued => simp [hqueued] at hringing
        | injected hinjected => simp [hinjected] at hringing
    · rcases heffect.of_mem hr' with ⟨r, hr, hsame, hbecame⟩ | ⟨-, hinserted⟩
      · rw [hsame.parentCallId]
        exact (hsettled.parents r hr (hbecame.of_queued hqueued)).trans_le heffect.nextId_le
      · cases hinserted with
        | queued _ _ hrow =>
          obtain ⟨row, rfl, hstate, hparent⟩ := hrow
          rw [hparent]
          exact (hneed.2 hstate).trans_le heffect.nextId_le
        | ringing _ _ _ hringing => simp [hringing] at hqueued
        | injected hinjected => simp [hinjected] at hqueued
    · -- a response that was just opened is coherent, by what the program owes
      rcases evolved_run (climbs_of_need hneed) hr' with ⟨r, hr, hevolved⟩ | ⟨-, hopened⟩
      · rw [hevolved.data, hevolved.dedupeKey]
        exact hsettled.coherent r hr
      · obtain ⟨input, members, rfl, hkey, hdata, -⟩ := hopened.write
        rw [hdata, hkey]
        exact hneed.1
    · have hbalance : spent h + (m + 0) = gained h := hsettled.balance
      calc spent (h ++ (w.run db).2.1) + (m + gain (.write w) (w.run db).1)
          = spent h + (m + 0) + gain (.write w) (w.run db).1 := by
            rw [spent_append, spent_run]
            abel
        _ = gained (h ++ (w.run db).2.1) := by rw [hbalance, gained_append, gained_run]

/-- A response that was just set to an open state is free. -/
theorem free_set {p : ResponseRow → Bool} {f : ResponseRow → ResponseRow} {id : ℕ}
    {hid : ∀ r, (f r).id = r.id} {hkey : ∀ r, (f r).dedupeKey = r.dedupeKey}
    (hany : db.responses.rows.any p = true) (hp : ∀ r, p r = true → r.id = id)
    (hstate : ∀ r, p r = true → responseOpen (f r).state = true)
    (hopen : ∀ r ∈ (db.setResponses p f hid hkey).responses, responseOpen r.state = true →
      permit.may (h, db.setResponses p f hid hkey) r.dedupeKey) :
    Free permit (h, db.setResponses p f hid hkey) id ∧
      ∃ r ∈ (db.setResponses p f hid hkey).responses, r.id = id ∧
        permit.may (h, db.setResponses p f hid hkey) r.dedupeKey := by
  obtain ⟨r, hr, hpr⟩ := List.any_eq_true.1 hany
  have hmem : f r ∈ (db.setResponses p f hid hkey).responses :=
    (Rows.mem_of_rows rfl).2 (.inl ⟨r, hr, hpr, rfl⟩)
  refine ⟨⟨hp r hpr ▸ Rows.id_lt (t := db.responses) hr, fun r' hr' hid' => ?_⟩,
    f r, hmem, (hid r).trans (hp r hpr), hopen _ hmem (hstate r hpr)⟩
  rcases (Rows.mem_of_rows rfl).1 hr' with ⟨r₀, _, hp₀, rfl⟩ | ⟨hold, hnot⟩
  · exact hopen _ hr' (hstate r₀ hp₀)
  · rw [Rows.eq_of_id hold hr (hid'.trans (hp r hpr).symm), hpr] at hnot
    cases hnot

/-- The facts are true. -/
theorem fact_exec {op : Op} (hsettled : Settled h db m) (hneed : need permit (h, db) op)
    (env : Env)
    (hopen : ∀ r ∈ (exec env op db).2.2.responses, responseOpen r.state = true →
      permit.may (h ++ (exec env op db).2.1, (exec env op db).2.2) r.dedupeKey) :
    fact permit (h ++ (exec env op db).2.1, (exec env op db).2.2) op (exec env op db).1 := by
  -- a row that is read is a copy of itself
  have hcopy : ∀ r ∈ db.responses, Copy (h ++ [], db) r := fun r hr =>
    ⟨hsettled.coherent r hr, Rows.id_lt hr, fun r' hr' hid => by
      rw [Rows.eq_of_id hr' hr hid]
      exact ⟨rfl, rfl, Nat.le_refl _⟩⟩
  cases op with
  | ask q => trivial
  | note n => trivial
  | read r =>
    cases r with
    | clock => exact ⟨hsettled.clock, le_refl _⟩
    | findById id =>
      intro r hr
      obtain ⟨hmem, hid⟩ := Rows.of_find? hr
      refine ⟨hid, fun hanswered => ?_⟩
      simpa [exec, hid] using hsettled.took r hmem hanswered
    | findRingingFor userId now =>
      intro r hr
      have hmem : r ∈ db.calls := List.mem_of_mem_filter (List.mem_of_getLast? hr)
      exact Rows.id_lt hmem
    | due now limit =>
      exact fun r hr => hcopy r (List.mem_of_mem_filter (List.mem_of_mem_take hr))
    | responseById id =>
      intro r hr
      obtain ⟨hmem, hid⟩ := Rows.of_find? hr
      exact ⟨hcopy r hmem, hid, fun hfree => hfree.2 r hmem hid⟩
    | responseByKey key =>
      intro r hr
      have hmem : r ∈ db.responses := List.mem_of_find?_eq_some hr
      have hkey : r.dedupeKey = key := by simpa using List.find?_some hr
      exact ⟨hcopy r hmem, hkey, fun hstate => hkey ▸ hopen r hmem hstate⟩
    | members id =>
      intro m hm hid
      simp only [exec, Read.answer, Db.membersOf]
      rw [List.mem_insertionSort]
      exact List.mem_filter.2 ⟨hm, decide_eq_true hid⟩
    | _ => trivial
  | write w =>
    cases w with
    | claim id userId sessionId now =>
      intro htaken
      simp only [exec, Write.run] at htaken ⊢
      split at htaken
      · rename_i hany
        rw [if_pos hany]
        simp
      · cases htaken
    | markReached responseId userId now =>
      intro m' hm' hid huser
      have hnow : 0 < now := hneed
      obtain ⟨m, hm, rfl⟩ := List.mem_map.1 hm'
      split_ifs at hid huser ⊢ with hp
      · exact hnow.ne'
      · intro hzero
        exact hp (by simp [hid, huser, hzero])
    | advance id fromStep toStep deadline now =>
      intro hadvanced
      refine (free_set hadvanced (fun r hp => ?_) (fun r hp => ?_) hopen).2
      · exact (of_decide_eq_true hp).1
      · have hp : r.id = id ∧ r.state = .active ∧ r.step = fromStep := of_decide_eq_true hp
        simp [hp.2.1, responseOpen]
    | verdict id given userId name now =>
      intro hrecorded hreal
      subst hreal
      refine (free_set hrecorded (fun r hp => ?_) (fun r hp => rfl) hopen).1
      exact (of_decide_eq_true hp).1
    | _ => trivial

end Exec

end Call

end ArgusBackend
