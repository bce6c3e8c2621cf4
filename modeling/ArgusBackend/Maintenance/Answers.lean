import ArgusBackend.Library.Crews
import ArgusBackend.Maintenance.Service

/-!
# Answers about maintenance

When the view of a camera is lost suddenly, the household is asked who did it (`TamperAsk`); the
answer `me` opens a maintenance window.  When a window has ended and a camera looks different, its
declarer is asked about the view (`ViewCheck`).

* `MaintenanceService.answerAsk`, `answerView` : the two requests, and `workshop`, which serves any
  number of them side by side;
* `Undisturbed` : no answer of another request falls between what a request read and what it writes;
* `answers_whole` : then an answer takes effect whole or not at all.
-/

namespace ArgusBackend

namespace Maintenance

/-- The answers to the question whether it was the user. -/
inductive TamperAskAnswer where
  | pending | me | no | timeout
  deriving DecidableEq, Repr

/-- The question that was asked about a camera. -/
structure TamperAsk where
  cameraId : ℤ
  environmentId : ℤ
  onsetAt : ℤ
  askedAt : ℤ
  askedUsers : List ℤ
  answer : TamperAskAnswer := .pending
  answeredBy : ℤ := 0
  answeredAt : ℤ := 0
  deriving DecidableEq, Repr

/-- A user's answer to a question. -/
structure TamperAskReply where
  actor : MaintenanceActor
  askId : ℤ
  answer : TamperAskAnswer
  deriving DecidableEq, Repr

/-- A user's word on the view of a camera. -/
structure MaintenanceViewInput where
  actor : MaintenanceActor
  id : ℕ
  cameraId : ℤ
  accept : Bool
  deriving DecidableEq, Repr

/-- The columns that an answer sets. -/
structure TamperAskAnswerInput where
  id : ℤ
  answer : TamperAskAnswer
  answeredBy : ℤ
  at_ : ℤ
  deriving DecidableEq, Repr

/-- What an answer may be refused with. -/
inductive AnswerError where
  | tamperAskNotFound | maintenanceForbidden | maintenanceNotYours | viewCheckNotPending
  deriving DecidableEq, Repr

/-- The windows and the questions. -/
structure AnswerDb where
  db : Db := {}
  asks : Table ℤ TamperAsk := ∅

/-- `ANSWER_ASK` -/
def AnswerDb.answerAsk (s : AnswerDb) (input : TamperAskAnswerInput) : AnswerDb :=
  { s with asks := s.asks.adjust input.id fun ask =>
      if ask.answer = .pending then
        { ask with
          answer := input.answer, answeredBy := input.answeredBy, answeredAt := input.at_ }
      else ask }

/-- Whether an ask still waits for its answer. -/
def AnswerDb.waits (s : AnswerDb) (id : ℤ) : Bool :=
  (s.asks.lookup id).any fun ask => ask.answer = .pending

/-! ### What the two requests await -/

/-- What the answers await, beside what windows do. -/
inductive AnswerOp where
  | base (op : Op)
  | findAsk (id : ℤ)
  | answerAsk (input : TamperAskAnswerInput)
  | relearn (cameraId : ℤ)
  /-- the place of the check that was answered comes along for the record -/
  | setViewChecks (id : ℕ) (checks : List ViewCheck) (place : ℕ)
  | refuse (actor : MaintenanceActor) (error : AnswerError)
  deriving DecidableEq

/-- What each of them answers. -/
@[reducible] def AnswerOp.Ans : AnswerOp → Type
  | .base op => op.Ans
  | .findAsk _ => Option TamperAsk
  | .answerAsk _ | .relearn _ => Bool
  | .setViewChecks _ _ _ | .refuse _ _ => Unit

/-- The outside, with the cameras that learn their view again. -/
structure AnswerOutside extends Outside where
  relearned : Bool := true

/-- The answer of an operation, what is noted of it, and the tables after it. -/
def answerExec (places : Places) (env : AnswerOutside) (op : AnswerOp) (s : AnswerDb) :
    op.Ans × List Note × AnswerDb :=
  match op with
  | .base op =>
    (answer places env.toOutside s.db op, notes env.toOutside s.db op,
      { s with db := effect s.db op })
  | .findAsk id => (s.asks.lookup id, [], s)
  | .answerAsk input => (s.waits input.id, [], s.answerAsk input)
  | .relearn _ => (env.relearned, [], s)
  | .setViewChecks id checks _ => ((), [], { s with db := s.db.setViewChecks id checks })
  | .refuse _ _ => ((), [], s)

/-- A task of the answers. -/
abbrev AnswerTask := Task AnswerOp AnswerOp.Ans

/-- Await an operation of an answer. -/
def put (op : AnswerOp) : AnswerTask op.Ans := Task.call op

namespace MaintenanceService

/-- What windows do, among the answers. -/
def lifted {α : Type} (t : MaintenanceTask α) : AnswerTask α := t.lift .base fun _ => id

/-- A refusal ends the request. -/
def refuseAnswer {α : Type} (actor : MaintenanceActor) (error : AnswerError) : AnswerTask α := do
  put (.refuse actor error)
  Task.throw

/-- `answerAsk` -/
def answerAsk (input : TamperAskReply) : AnswerTask Unit := do
  let ask ← put (.findAsk input.askId)
  match ask with
  | none => refuseAnswer input.actor .tamperAskNotFound
  | some ask =>
    if ask.answer ≠ .pending then
      refuseAnswer input.actor .tamperAskNotFound
    else if !household input.actor.role then
      refuseAnswer input.actor .maintenanceForbidden
    else
      if input.answer = .me then
        let _ ← lifted (open_ { actor := input.actor, cameraIds := [ask.cameraId], source := .reply })
      let now ← put (.base .now)
      let answered ← put (.answerAsk
        { id := input.askId, answer := input.answer, answeredBy := input.actor.userId, at_ := now })
      if answered = false then
        refuseAnswer input.actor .tamperAskNotFound

/-- The state that an answer gives the check. -/
def viewState (accept : Bool) : ViewCheckState := if accept then .accepted else .refused

/-- The camera takes its new view as the reference. -/
def relearn (actions accept : Bool) (cameraId : ℤ) : AnswerTask Unit := do
  if accept && actions then
    let _ ← put (.relearn cameraId)

/-- `actions` : whether the service has a camera action client. -/
def answerView (actions : Bool) (input : MaintenanceViewInput) : AnswerTask Unit := do
  let window ← lifted (require input.actor input.id)
  if input.actor.role ≠ .owner ∧ window.declaredBy ≠ input.actor.userId then
    refuseAnswer input.actor .maintenanceNotYours
  else
    match window.viewChecks.findIdx? fun check =>
        check.cameraId = input.cameraId && check.state = .pending with
    | none => refuseAnswer input.actor .viewCheckNotPending
    | some place =>
      let checks := window.viewChecks.modify place fun check =>
        { check with state := viewState input.accept }
      relearn actions input.accept input.cameraId
      put (.setViewChecks window.id checks place)
      put (.base (.announce { window with viewChecks := checks } input.actor.userId))

end MaintenanceService

/-! ### Any number of them side by side -/

/-- An answer to a question, or a word on a view. -/
inductive AnswerRequest where
  | answerAsk (input : TamperAskReply)
  | answerView (input : MaintenanceViewInput)
  deriving DecidableEq, Repr

/-- What a request has done so far. -/
structure Progress where
  /-- it has opened a window -/
  opened : Bool := false
  /-- its own answer `me` is the one that was recorded for the ask -/
  recorded : Bool := false
  /-- the view check it has stored: the window, the place in its list, the check -/
  stored : Option (ℕ × ℕ × ViewCheck) := none
  deriving DecidableEq, Repr

/-- What a request has done once an operation is answered. -/
def Progress.after (k : Progress) : (op : AnswerOp) → Option op.Ans → Progress
  | .base (.create _ _), some _ => { k with opened := true }
  | .answerAsk input, some true => { k with recorded := input.answer = .me }
  | .setViewChecks id checks place, some _ =>
    { k with stored := checks[place]?.map fun check => (id, place, check) }
  | _, _ => k

open MaintenanceService in
/-- The service at work on answers. -/
def workshop (places : Places) (actions : Bool) :
    Workshop AnswerDb Note Progress AnswerOutside AnswerRequest AnswerOp AnswerOp.Ans where
  exec := answerExec places
  program
    | .answerAsk input => answerAsk input
    | .answerView input => answerView actions input
  first _ := {}
  after := Progress.after

/-- Nothing falls between what a request read and what it writes: the ask still waits for its
answer `me`, the view check is still pending and the other checks of the window are stored as the
request writes them back. -/
def Undisturbed (s : AnswerDb) (_ : List (AnswerRequest × Progress)) (_ : Progress) :
    AnswerOp → Prop
  | .answerAsk input => input.answer = .me → s.waits input.id = true
  | .setViewChecks id checks place => ∃ window ∈ s.db.windows, window.id = id ∧
      (∀ i, i ≠ place → checks[i]? = window.viewChecks[i]?) ∧
        ∀ check, window.viewChecks[place]? = some check → check.state = .pending
  | _ => True

/-- The write of a list of view checks is undisturbed if the list agrees with the stored one up to
their lengths. -/
theorem undisturbed_setViewChecks {s : AnswerDb} {ks : List (AnswerRequest × Progress)}
    {k : Progress} {id place : ℕ} {checks : List ViewCheck} :
    (∃ window ∈ s.db.windows.rows, window.id = id ∧
      (∀ i < max checks.length window.viewChecks.length,
        i ≠ place → checks[i]? = window.viewChecks[i]?) ∧
      ∀ check ∈ window.viewChecks[place]?, check.state = .pending) ↔
    Undisturbed s ks k (.setViewChecks id checks place) := by
  refine exists_congr fun window => and_congr_right fun _ => and_congr_right fun _ =>
    and_congr_left fun _ => ⟨fun hbelow i hi => ?_, fun hall i _ => hall i⟩
  by_cases hlt : i < max checks.length window.viewChecks.length
  · exact hbelow i hlt hi
  · have hle := Nat.max_le.1 (Nat.not_lt.1 hlt)
    rw [List.getElem?_eq_none hle.1, List.getElem?_eq_none hle.2]

instance (s : AnswerDb) (ks : List (AnswerRequest × Progress)) (k : Progress) :
    (op : AnswerOp) → Decidable (Undisturbed s ks k op)
  | .answerAsk input => inferInstanceAs (Decidable (input.answer = .me → s.waits input.id = true))
  | .setViewChecks _ _ _ => decidable_of_iff _ undisturbed_setViewChecks
  | .base _ | .findAsk _ | .relearn _ | .refuse _ _ => instDecidableTrue

/-! ### What a request keeps to -/

/-- What a request awaits, and the answers that are possible while nothing disturbs. -/
def protocol (req : AnswerRequest) : Protocol Progress.after where
  allowed _ op :=
    match op with
    | .base (.setViewChecks _ _) => False
    | .answerAsk input => ∃ reply, req = .answerAsk reply ∧ input.id = reply.askId ∧
        input.answeredBy = reply.actor.userId
    | .setViewChecks _ checks place =>
      ∀ check, checks[place]? = some check → check.state ≠ .pending
    | _ => True
  answers _ op r :=
    match op, r with
    | .answerAsk input, some answered => input.answer = .me → answered = true
    | .base (.findById id), some window => ∀ w, window = some w → w.id = id
    | _, none => False
    | _, _ => True

/-- What is said of a request that is done. -/
def Settled : AnswerRequest → Option Unit → Progress → Prop
  | .answerAsk _, _, k => k.opened = k.recorded
  | .answerView input, r, k => k.opened = k.recorded ∧ (r = some () → ∃ place check,
      k.stored = some (input.id, place, check) ∧ check.cameraId = input.cameraId ∧
        check.state = MaintenanceService.viewState input.accept)

section Protocol

variable {req : AnswerRequest} {k : Progress}

theorem obeys_refuse {α : Type} {actor : MaintenanceActor} {error : AnswerError}
    {post : Option α → Progress → Prop} (h : post none k) :
    (MaintenanceService.refuseAnswer actor error : AnswerTask α).Obeys (protocol req) post k :=
  Task.obeys_call trivial (fun hr => hr.elim) fun _ _ => Task.obeys_throw h

/-- One operation of the service, and what it does with the answer. -/
theorem obeys_lifted_call {α : Type} {op : Op} {f : op.Ans → MaintenanceTask α}
    {post : Option α → Progress → Prop}
    (hf : ∀ ans, (MaintenanceService.lifted (f ans)).Obeys (protocol req) post
      (k.after (.base op) (some ans)))
    (hop : (protocol req).allowed k (.base op) := by trivial) :
    (MaintenanceService.lifted (ask op >>= f)).Obeys (protocol req) post k := by
  refine Task.obeys_lift_call hop (fun hr => ?_) fun ans _ => hf ans
  cases op <;> exact hr.elim

/-- The last operation. -/
theorem obeys_lifted_last {op : Op} {post : Option op.Ans → Progress → Prop}
    (hpost : ∀ ans, post (some ans) (k.after (.base op) (some ans)))
    (hop : (protocol req).allowed k (.base op) := by trivial) :
    (MaintenanceService.lifted (ask op)).Obeys (protocol req) post k := by
  refine ⟨hop, fun r hr => ?_⟩
  cases r with
  | none => cases op <;> exact hr.elim
  | some ans => exact hpost ans

theorem obeys_lifted_refuse {α : Type} {actor : MaintenanceActor} {error : GuardError}
    {post : Option α → Progress → Prop} (h : post none k) :
    (MaintenanceService.lifted (refuse actor error : MaintenanceTask α)).Obeys (protocol req) post k :=
  obeys_lifted_call fun _ => h

/-- The check of the scope creates nothing. -/
theorem obeys_checkScope {actor : MaintenanceActor} {environments : List ℤ} :
    (MaintenanceService.lifted (MaintenanceService.checkScope actor environments)).Obeys (protocol req)
      (fun _ k' => k' = k) k := by
  unfold MaintenanceService.checkScope
  split
  next =>
    refine obeys_lifted_call fun duty => ?_
    split
    next => exact obeys_lifted_refuse rfl
    next => exact (rfl : k = k)
  next => exact (rfl : k = k)

theorem obeys_notifyDuress {window : MaintenanceWindow} :
    (MaintenanceService.lifted (MaintenanceService.notifyDuress window)).Obeys (protocol req)
      (fun r k' => r.isSome = true ∧ k' = k) k :=
  obeys_lifted_call fun _ => obeys_lifted_last fun _ => ⟨rfl, rfl⟩

/-- `open` creates its window, or it throws before. -/
theorem obeys_open {input : MaintenanceDeclareInput} :
    (MaintenanceService.lifted (MaintenanceService.open_ input)).Obeys (protocol req)
      (fun r k' => k' = if r.isSome then { k with opened := true } else k) k := by
  unfold MaintenanceService.open_
  dsimp only
  split
  next => exact obeys_lifted_refuse rfl
  next =>
    refine obeys_lifted_call fun assignments => obeys_lifted_call fun fallbackEnvironment => ?_
    split
    next => exact obeys_lifted_refuse rfl
    next front rest hcameras =>
      rw [MaintenanceService.lifted, Task.lift_bind]
      refine Task.obeys_bind obeys_checkScope (fun k' hk => hk) fun _ k' hk => ?_
      subst hk
      refine obeys_lifted_call fun limits => obeys_lifted_call fun now =>
        obeys_lifted_call fun duress => obeys_lifted_call fun users =>
          obeys_lifted_call fun window => obeys_lifted_call fun _ => ?_
      by_cases hduress : duress = true
      · rw [if_pos hduress, MaintenanceService.lifted, Task.lift_bind]
        exact Task.obeys_bind obeys_notifyDuress (fun _ hr => Bool.noConfusion hr.1)
          fun _ _ hk => hk.2
      · rw [if_neg hduress]
        exact (rfl : ({ k' with opened := true } : Progress) = _)

/-- What the answer of an ask comes to. -/
theorem obeys_record {input : TamperAskReply} (hrecorded : k.recorded = false)
    (hopened : k.opened = decide (input.answer = .me)) :
    (do
      let now ← put (.base .now)
      let answered ← put (.answerAsk
        { id := input.askId, answer := input.answer, answeredBy := input.actor.userId, at_ := now })
      if answered = false then
        MaintenanceService.refuseAnswer input.actor .tamperAskNotFound : AnswerTask Unit).Obeys
      (protocol (.answerAsk input)) (fun _ k' => k'.opened = k'.recorded) k := by
  refine Task.obeys_call trivial (fun hr => hr.elim) fun now _ => ?_
  refine Task.obeys_call ⟨input, rfl, rfl, rfl⟩ (fun hr => hr.elim) fun answered hanswered => ?_
  cases answered with
  | true => exact hopened
  | false =>
    have hno : input.answer ≠ .me := fun hme => Bool.noConfusion (hanswered hme)
    refine obeys_refuse ?_
    change k.opened = k.recorded
    rw [hopened, hrecorded, decide_eq_false hno]

theorem obeys_answerAsk (input : TamperAskReply) :
    (MaintenanceService.answerAsk input).Obeys (protocol (.answerAsk input)) (Settled (.answerAsk input)) {} := by
  unfold MaintenanceService.answerAsk
  refine Task.obeys_call trivial (fun hr => hr.elim) fun ask _ => ?_
  cases ask with
  | none => exact obeys_refuse rfl
  | some ask =>
    simp only
    split_ifs with hpending hhousehold hme
    · exact obeys_refuse rfl
    · exact obeys_refuse rfl
    · refine Task.obeys_bind obeys_open (fun k' hk => ?_) fun _ k' hk => ?_
      · rw [hk]
        rfl
      · rw [hk]
        exact obeys_record rfl (decide_eq_true hme).symm
    · exact obeys_record rfl (decide_eq_false hme).symm

theorem obeys_require {actor : MaintenanceActor} {id : ℕ} :
    (MaintenanceService.lifted (MaintenanceService.require actor id)).Obeys (protocol req)
      (fun r k' => k' = k ∧ ∀ w, r = some w → w.id = id) k := by
  refine Task.obeys_lift_call trivial (fun hr => hr.elim) fun window hwindow => ?_
  cases window with
  | none => exact obeys_lifted_refuse ⟨rfl, fun _ hr => nomatch hr⟩
  | some window => exact ⟨rfl, fun w hw => hwindow w hw⟩

theorem obeys_relearn {actions accept : Bool} {cameraId : ℤ} :
    (MaintenanceService.relearn actions accept cameraId).Obeys (protocol req)
      (fun r k' => r.isSome = true ∧ k' = k) k := by
  unfold MaintenanceService.relearn
  split
  next => exact Task.obeys_call trivial (fun hr => hr.elim) fun _ _ => ⟨rfl, rfl⟩
  next => exact ⟨rfl, rfl⟩

theorem obeys_answerView (actions : Bool) (input : MaintenanceViewInput) :
    (MaintenanceService.answerView actions input).Obeys (protocol (.answerView input))
      (Settled (.answerView input)) {} := by
  unfold MaintenanceService.answerView
  refine Task.obeys_bind obeys_require (fun k hk => ⟨by rw [hk.1], fun hr => nomatch hr⟩)
    fun window k hk => ?_
  obtain ⟨rfl, hwindow⟩ := hk
  split
  next => exact obeys_refuse ⟨rfl, fun hr => nomatch hr⟩
  next =>
    split
    next => exact obeys_refuse ⟨rfl, fun hr => nomatch hr⟩
    next place hplace =>
      obtain ⟨hlt, hcheck, -⟩ := List.findIdx?_eq_some_iff_getElem.1 hplace
      simp only [Bool.and_eq_true, decide_eq_true_eq] at hcheck
      refine Task.obeys_bind obeys_relearn (fun _ hr => Bool.noConfusion hr.1) fun _ k hk => ?_
      rw [hk.2]
      refine Task.obeys_call (fun check hcheck' => ?_) (fun hr => hr.elim) fun _ _ => ?_
      · rw [List.getElem?_modify_eq, List.getElem?_eq_getElem hlt] at hcheck'
        obtain rfl := Option.some.inj hcheck'
        unfold MaintenanceService.viewState
        split <;> simp
      refine Task.obeys_last trivial fun r _ => ⟨rfl, fun _ => ⟨place,
        { window.viewChecks[place] with state := MaintenanceService.viewState input.accept },
        ?_, ?_, ?_⟩⟩
      · simp [Progress.after, hwindow window rfl, hlt]
      · exact hcheck.1
      · rfl

end Protocol

/-! ### Every run -/

/-- The check stands at the place in the list of the window. -/
def AnswerDb.Stores (s : AnswerDb) (id place : ℕ) (check : ViewCheck) : Prop :=
  ∃ window ∈ s.db.windows, window.id = id ∧ window.viewChecks[place]? = some check

/-- The ask has the answer `me`, from this user. -/
def AnswerDb.AnsweredBy (s : AnswerDb) (input : TamperAskReply) : Prop :=
  ∃ ask, s.asks.lookup input.askId = some ask ∧ ask.answer = .me ∧
    ask.answeredBy = input.actor.userId

/-- What a request has done is in the tables. -/
structure Backed (s : AnswerDb) (req : AnswerRequest) (k : Progress) : Prop where
  recorded : k.recorded = true → ∃ input, req = .answerAsk input ∧ s.AnsweredBy input
  stored : ∀ id place check, k.stored = some (id, place, check) →
    check.state ≠ .pending ∧ s.Stores id place check

section Backed

variable {s s' : AnswerDb} {req : AnswerRequest} {k : Progress} {db : Db}

/-- Answers and view checks that stay where they are. -/
theorem Backed.mono (hB : Backed s req k)
    (hasks : ∀ input, s.AnsweredBy input → s'.AnsweredBy input)
    (hviews : ∀ id place check, check.state ≠ .pending → s.Stores id place check →
      s'.Stores id place check) : Backed s' req k where
  recorded h := by
    obtain ⟨input, hreq, hanswered⟩ := hB.recorded h
    exact ⟨input, hreq, hasks input hanswered⟩
  stored id place check h := by
    obtain ⟨hstate, hstores⟩ := hB.stored id place check h
    exact ⟨hstate, hviews id place check hstate hstores⟩

/-- The service changes view checks by `SET_VIEW_CHECKS` alone. -/
theorem stores_effect {op : Op} (hop : ∀ id checks, op ≠ .setViewChecks id checks)
    {id place : ℕ} {check : ViewCheck} (h : s.Stores id place check) :
    AnswerDb.Stores { s with db := effect s.db op } id place check := by
  obtain ⟨window, hwindow, hid, hcheck⟩ := h
  cases op with
  | setViewChecks id checks => exact absurd rfl (hop id checks)
  | create input row => exact ⟨window, (Serial.mem_insert fun _ => rfl).2 (.inl hwindow), hid, hcheck⟩
  | endWindow id reason at_ =>
    refine ⟨_, (Serial.mem_update fun w => by split_ifs <;> rfl).2 ⟨window, hwindow, rfl⟩, ?_, ?_⟩
    · split_ifs <;> exact hid
    · split_ifs <;> exact hcheck
  | _ => exact ⟨window, hwindow, hid, hcheck⟩

theorem mem_setViewChecks {id : ℕ} {checks : List ViewCheck} {w : MaintenanceWindow} :
    w ∈ (db.setViewChecks id checks).windows ↔
      ∃ w₀ ∈ db.windows, w = if w₀.id = id then { w₀ with viewChecks := checks } else w₀ := by
  unfold Db.setViewChecks
  exact Serial.mem_update (f := fun w : MaintenanceWindow => { w with viewChecks := checks })
    fun _ => rfl

theorem stores_setViewChecks {id place id' place' : ℕ} {checks : List ViewCheck} {check : ViewCheck}
    (hok : Undisturbed s [] {} (.setViewChecks id checks place)) (hstate : check.state ≠ .pending)
    (h : s.Stores id' place' check) :
    AnswerDb.Stores { s with db := s.db.setViewChecks id checks } id' place' check := by
  obtain ⟨window, hwindow, hid, hcheck⟩ := h
  obtain ⟨read, hread, hreadId, hothers, hpending⟩ := hok
  by_cases hsame : window.id = id
  · obtain rfl := Serial.eq_of_id hwindow hread (hsame.trans hreadId.symm)
    -- the place that is written was pending, so it is another one
    have hplace : place' ≠ place := fun heq => hstate (hpending check (heq ▸ hcheck))
    refine ⟨{ window with viewChecks := checks }, mem_setViewChecks.2 ⟨window, hwindow, ?_⟩,
      hid, ?_⟩
    · rw [if_pos hsame]
    · exact (hothers place' hplace).trans hcheck
  · exact ⟨window, mem_setViewChecks.2 ⟨window, hwindow, (if_neg hsame).symm⟩, hid, hcheck⟩

theorem answeredBy_answerAsk {input : TamperAskAnswerInput} {reply : TamperAskReply}
    (h : s.AnsweredBy reply) : (s.answerAsk input).AnsweredBy reply := by
  obtain ⟨ask, hask, hme, hby⟩ := h
  by_cases hid : reply.askId = input.id
  · refine ⟨ask, ?_, hme, hby⟩
    rw [AnswerDb.answerAsk, ← hid, Table.lookup_adjust_self, hask]
    simp [hme]
  · exact ⟨ask, by rw [AnswerDb.answerAsk, Table.lookup_adjust_ne _ hid, hask], hme, hby⟩

/-- The answer that was recorded. -/
theorem answeredBy_own {input : TamperAskAnswerInput} {reply : TamperAskReply}
    (hid : input.id = reply.askId) (hby : input.answeredBy = reply.actor.userId)
    (hme : input.answer = .me) (hwaits : s.waits input.id = true) :
    (s.answerAsk input).AnsweredBy reply := by
  unfold AnswerDb.waits at hwaits
  cases hask : s.asks.lookup input.id with
  | none => simp [hask] at hwaits
  | some ask =>
    have hpending : ask.answer = .pending := by simpa [hask] using hwaits
    refine ⟨{ ask with
      answer := input.answer, answeredBy := input.answeredBy, answeredAt := input.at_ }, ?_, hme, hby⟩
    rw [AnswerDb.answerAsk, ← hid, Table.lookup_adjust_self, hask]
    simp [hpending]

/-- What an operation of a request does is in the tables. -/
theorem backed_own {places : Places} {env : AnswerOutside} {ks : List (AnswerRequest × Progress)}
    {op : AnswerOp} (hallowed : (protocol req).allowed k op) (hok : Undisturbed s ks k op)
    (hB : Backed (answerExec places env op s).2.2 req k) :
    Backed (answerExec places env op s).2.2 req (k.after op (some (answerExec places env op s).1)) := by
  cases op with
  | base op => cases op <;> exact ⟨hB.recorded, hB.stored⟩
  | answerAsk input =>
    obtain ⟨reply, hreq, hid, hby⟩ := hallowed
    cases hwaits : s.waits input.id with
    | false =>
      simp only [answerExec, hwaits, Progress.after]
      exact hB
    | true =>
      simp only [answerExec, hwaits, Progress.after]
      refine ⟨fun hrecorded => ⟨reply, hreq, ?_⟩, hB.stored⟩
      simp only [decide_eq_true_eq] at hrecorded
      exact answeredBy_own hid hby hrecorded hwaits
  | setViewChecks id checks place =>
    refine ⟨hB.recorded, fun id' place' check hstored => ?_⟩
    obtain ⟨check', hcheck', heq⟩ := Option.map_eq_some_iff.1 hstored
    obtain ⟨rfl, rfl, rfl⟩ : id = id' ∧ place = place' ∧ check' = check := by simpa using heq
    obtain ⟨read, hread, hreadId, -, -⟩ := hok
    exact ⟨hallowed check' hcheck', { read with viewChecks := checks },
      mem_setViewChecks.2 ⟨read, hread, (if_pos hreadId).symm⟩, hreadId, hcheck'⟩
  | _ => exact ⟨hB.recorded, hB.stored⟩

/-- What the requests have done stays in the tables. -/
theorem backed_exec {places : Places} {env : AnswerOutside} {ks : List (AnswerRequest × Progress)}
    {k' : Progress} {req' : AnswerRequest} {op : AnswerOp} (hallowed : (protocol req').allowed k' op)
    (hok : Undisturbed s ks k' op) (hB : Backed s req k) :
    Backed (answerExec places env op s).2.2 req k := by
  cases op with
  | base op =>
    refine hB.mono (fun _ h => h) fun id place check _ => stores_effect fun id' checks heq => ?_
    subst heq
    exact hallowed
  | answerAsk input => exact hB.mono (fun _ => answeredBy_answerAsk) fun _ _ _ _ h => h
  | setViewChecks id checks place =>
    exact hB.mono (fun _ h => h) fun _ _ _ => stores_setViewChecks hok
  | _ => exact hB

/-- The answers a request gets are those of its protocol. -/
theorem answers_exec {places : Places} {env : AnswerOutside} {ks : List (AnswerRequest × Progress)}
    {op : AnswerOp} (hok : Undisturbed s ks k op) :
    (protocol req).answers k op (some (answerExec places env op s).1) := by
  cases op with
  | base op =>
    cases op with
    | findById id => exact fun w hw => (Serial.mem_of_find hw).2
    | _ => trivial
  | answerAsk input => exact hok
  | _ => trivial

end Backed

section Whole

variable (places : Places) (actions : Bool)

theorem obeys_program (req : AnswerRequest) :
    ((workshop places actions).program req).Obeys (protocol req) (Settled req) {} := by
  cases req with
  | answerAsk input => exact obeys_answerAsk input
  | answerView input => exact obeys_answerView actions input

/-- While nothing falls between what a request reads and what it writes, an answer takes effect
whole or not at all: `answerAsk` has opened a window exactly when its own answer `me` is the one
that was recorded, and what `answerView` has stored stays stored. -/
theorem answers_whole {s₀ : AnswerDb} {h : List Note}
    {c : Crew AnswerDb Progress AnswerRequest AnswerOp AnswerOp.Ans}
    (hrun : Run (Crew.Step (workshop places actions) Undisturbed) ⟨s₀, []⟩ h c) :
    ∀ m ∈ c.members,
      (m.task.isDone = true → m.phase.opened = m.phase.recorded) ∧
      (m.phase.recorded = true → ∃ input, m.request = .answerAsk input ∧
        c.shared.AnsweredBy input) ∧
      (∀ input, m.request = .answerView input → m.task = .done (some ()) → ∃ place check,
        c.shared.Stores input.id place check ∧ check.cameraId = input.cameraId ∧
          check.state = MaintenanceService.viewState input.accept) := by
  have hinvariant := Crew.invariant protocol
    (J := fun _ s ks => ∀ r ∈ ks, Backed s r.1 r.2) hrun (fun _ hr => absurd hr List.not_mem_nil)
    (obeys_program places actions) (fun h s ks req hJ r hr => ?spawn)
    (fun h s ks i req k env op hJ hi hallowed hok => ⟨answers_exec hok, fun r hr => ?exec⟩)
    (fun h s ks i req k op _ _ _ hfallible => Bool.noConfusion hfallible)
  · -- what a call that is over has done
    obtain ⟨hbacked, hobeys⟩ := hinvariant
    intro m hm
    have hrole := hbacked (m.request, m.phase) (List.mem_map.2 ⟨m, hm, rfl⟩)
    have hobey := hobeys m hm
    refine ⟨fun hdone => ?_, hrole.recorded, fun input hreq hdone => ?_⟩
    · cases htask : m.task with
      | await op next => simp [htask, Task.isDone] at hdone
      | done result =>
        rw [htask] at hobey
        cases hreq : m.request with
        | answerAsk input =>
          rw [hreq] at hobey
          exact hobey
        | answerView input =>
          rw [hreq] at hobey
          exact hobey.1
    · rw [hdone, hreq] at hobey
      obtain ⟨place, check, hstored, hcheck⟩ := hobey.2 rfl
      exact ⟨place, check, (hrole.stored _ _ _ hstored).2, hcheck⟩
  · -- a call that comes has done nothing
    rcases List.mem_append.1 hr with hold | hnew
    · exact hJ r hold
    · rw [List.mem_singleton.1 hnew]
      exact ⟨fun hrecorded => Bool.noConfusion hrecorded, fun _ _ _ hstored => nomatch hstored⟩
  · -- a step keeps what the others have done, and the own call records its own
    rcases List.mem_or_eq_of_mem_set hr with hold | rfl
    · exact backed_exec hallowed hok (hJ r hold)
    · exact backed_own hallowed hok
        (backed_exec hallowed hok (hJ (req, k) (List.mem_of_getElem? hi)))

end Whole

/-! ### Two phones at once -/

section Phones

/-- One environment, without assignments. -/
def oneHome : Places where
  assignments := []
  sorted := .nil
  defaultId := 1

/-- An owner of the house. -/
def owner : MaintenanceActor := { userId := 7, role := .owner }

/-- An ask about camera 1 that waits, and a window of user 7 that has ended; its cameras 1 and 2
look different. -/
def askedDb : AnswerDb where
  db := {
    windows := Serial.empty.insert (fun id =>
      { id, environmentId := 1, cameraIds := [1, 2], declaredBy := 7, declaredRole := .owner,
        declaredName := "u", source := .app, duress := false, startedAt := 1, endsAt := 2,
        endedAt := 2, endReason := .expired, viewChecks := [⟨1, "a", .pending⟩, ⟨2, "b", .pending⟩] })
      fun _ => rfl }
  asks := (∅ : Table ℤ TamperAsk).insert 5
    { cameraId := 1, environmentId := 1, onsetAt := 1, askedAt := 1, askedUsers := [7] }

/-- The requests, what they have done and whether they are done; the view checks of the first
window. -/
def outcome (c : Crew AnswerDb Progress AnswerRequest AnswerOp AnswerOp.Ans) :
    List (AnswerRequest × Progress × Bool) × List ViewCheck :=
  (c.members.map fun m => (m.request, m.phase, m.task.isDone),
    (c.shared.db.windows.rows.take 1).flatMap fun w => w.viewChecks)

/-- One request takes some steps. -/
def taken (i n : ℕ) : List (Turn AnswerOutside AnswerRequest) := List.replicate n (.run i {})

/-- Two answers `me`, one after the other: the second opens nothing.  Then the two views of the window
are answered. -/
theorem answers_whole_two :
    ∃ h c, Run (Crew.Step (workshop oneHome false) Undisturbed) ⟨askedDb, []⟩ h c ∧
      outcome c = ([(.answerAsk ⟨owner, 5, .me⟩, ⟨true, true, none⟩, true),
          (.answerAsk ⟨owner, 5, .me⟩, {}, true),
          (.answerView ⟨owner, 1, 1, true⟩, { stored := some (1, 0, ⟨1, "a", .accepted⟩) }, true),
          (.answerView ⟨owner, 1, 2, false⟩, { stored := some (1, 1, ⟨2, "b", .refused⟩) }, true)],
        [⟨1, "a", .accepted⟩, ⟨2, "b", .refused⟩]) ∧
      (∀ m ∈ c.members, m.task.isDone = true → m.phase.opened = m.phase.recorded) ∧
      ∀ m ∈ c.members, ∀ input, m.request = .answerView input → m.task = .done (some ()) →
        ∃ place check, c.shared.Stores input.id place check ∧ check.cameraId = input.cameraId ∧
          check.state = MaintenanceService.viewState input.accept := by
  have hplay : (Crew.playIf (workshop oneHome false) Undisturbed ⟨askedDb, []⟩
      (.spawn (.answerAsk ⟨owner, 5, .me⟩) :: taken 0 11 ++
        .spawn (.answerAsk ⟨owner, 5, .me⟩) :: taken 1 2 ++
        .spawn (.answerView ⟨owner, 1, 1, true⟩) :: .spawn (.answerView ⟨owner, 1, 2, false⟩) ::
        taken 2 3 ++ taken 3 3)).map (fun r => outcome r.1) =
      some ([(.answerAsk ⟨owner, 5, .me⟩, ⟨true, true, none⟩, true),
          (.answerAsk ⟨owner, 5, .me⟩, {}, true),
          (.answerView ⟨owner, 1, 1, true⟩, { stored := some (1, 0, ⟨1, "a", .accepted⟩) }, true),
          (.answerView ⟨owner, 1, 2, false⟩, { stored := some (1, 1, ⟨2, "b", .refused⟩) }, true)],
        [⟨1, "a", .accepted⟩, ⟨2, "b", .refused⟩]) := by
    decide +kernel
  obtain ⟨⟨c, h⟩, hplayed, hends⟩ := Option.map_eq_some_iff.1 hplay
  have hrun : Run (Crew.Step (workshop oneHome false) Undisturbed) ⟨askedDb, []⟩ h c :=
    Crew.run_of_playIf hplayed .start
  have hwhole := answers_whole oneHome false hrun
  exact ⟨h, c, hrun, hends, fun m hm => (hwhole m hm).1, fun m hm => (hwhole m hm).2.2⟩

/-- Two answers `me`: both find the ask pending and open their windows, one is recorded. -/
theorem refused_leaves_window :
    ∃ h c, Run (Crew.Step (workshop oneHome false) Crew.Free) ⟨askedDb, []⟩ h c ∧
      ∃ m ∈ c.members, m.request = .answerAsk ⟨owner, 5, .me⟩ ∧ m.task.isDone = true ∧
        m.phase.opened = true ∧ m.phase.recorded = false := by
  have hplay : (Crew.play (workshop oneHome false) ⟨askedDb, []⟩
      (.spawn (.answerAsk ⟨owner, 5, .me⟩) :: .spawn (.answerAsk ⟨owner, 5, .me⟩) ::
        taken 0 1 ++ taken 1 1 ++ taken 0 10 ++ taken 1 11)).map (fun r => (outcome r.1).1) =
      some [(.answerAsk ⟨owner, 5, .me⟩, ⟨true, true, none⟩, true),
        (.answerAsk ⟨owner, 5, .me⟩, ⟨true, false, none⟩, true)] := by
    decide +kernel
  obtain ⟨⟨c, h⟩, hrun, hends⟩ := Option.map_eq_some_iff.1 hplay
  refine ⟨h, c, Crew.run_of_play hrun .start, ?_⟩
  have hmem : ((.answerAsk ⟨owner, 5, .me⟩, ⟨true, false, none⟩, true) :
      AnswerRequest × Progress × Bool) ∈ (outcome c).1 := by
    rw [hends]
    simp
  obtain ⟨m, hm, heq⟩ := List.mem_map.1 hmem
  simp only [Prod.mk.injEq] at heq
  exact ⟨m, hm, heq.1, heq.2.2, by rw [heq.2.1], by rw [heq.2.1]⟩

/-- Two answers about the view of one window: the second puts the first back. -/
theorem view_check_lost :
    ∃ h c, Run (Crew.Step (workshop oneHome false) Crew.Free) ⟨askedDb, []⟩ h c ∧
      (∀ m ∈ c.members, m.task.isDone = true) ∧
      (outcome c).2 = [⟨1, "a", .pending⟩, ⟨2, "b", .accepted⟩] := by
  have hplay : (Crew.play (workshop oneHome false) ⟨askedDb, []⟩
      (.spawn (.answerView ⟨owner, 1, 1, true⟩) :: .spawn (.answerView ⟨owner, 1, 2, true⟩) ::
        taken 0 1 ++ taken 1 1 ++ taken 0 2 ++ taken 1 2)).map
          (fun r => (r.1.members.all fun m => m.task.isDone, (outcome r.1).2)) =
      some (true, [⟨1, "a", .pending⟩, ⟨2, "b", .accepted⟩]) := by
    decide +kernel
  obtain ⟨⟨c, h⟩, hrun, hends⟩ := Option.map_eq_some_iff.1 hplay
  simp only [Prod.mk.injEq, List.all_eq_true] at hends
  exact ⟨h, c, Crew.run_of_play hrun .start, hends⟩

end Phones

end Maintenance

end ArgusBackend
