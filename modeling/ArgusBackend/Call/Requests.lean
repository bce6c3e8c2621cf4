import ArgusBackend.Call.Responding

/-!
# Every request keeps to the contract

* `meets_program` : every request keeps to the contract;
* `invariant_of_run` : the rule of invariants of the engine at work;
* `exists_run` : events that can be played make a run.
-/

namespace ArgusBackend

namespace Call

namespace CallEngine

variable {permit : Permit} {lost : Multiset Credit → Prop} {m : Multiset Credit} {w : World}
  (e : CallEngine)

/-! ### Claiming, ending and sweeping -/

theorem meets_answerClaim (request : CallClaimRequest) (outcome : CallClaimOutcome)
    (h : outcome.status = .claimed → .took request.callId request.sessionId ∈ w.1) :
    Meets permit lost any (answerClaim request outcome) m w := by
  simp only [answerClaim]
  split
  · rename_i hclaimed
    exact meets_then (meets_note (h hclaimed) rfl rfl) fun _ _ _ => meets_done
  · exact meets_done

/-- A claim repeats one the row was answered with. -/
structure Repeats (request : CallClaimRequest) (existing : CallRow) : Prop where
  answered : existing.state = .answered
  session : existing.answeredSession = request.sessionId

/-- From the row alone only a repeat is answered with `Claimed`. -/
theorem of_claimAnswer {request : CallClaimRequest} {existing : CallRow} {now : ℤ}
    {outcome : CallClaimOutcome} (h : claimAnswer request existing now = some outcome)
    (hclaimed : outcome.status = .claimed) : Repeats request existing := by
  simp only [claimAnswer] at h
  split at h
  · rename_i hrepeat
    exact ⟨hrepeat.1, hrepeat.2.2⟩
  split at h
  · obtain rfl := Option.some.inj h
    split_ifs at hclaimed
  split at h
  · obtain rfl := Option.some.inj h
    cases hclaimed
  · cases h

theorem meets_claim (request : CallClaimRequest) :
    Meets permit lost any (e.claim request) m w := by
  simp only [claim]
  split
  · exact meets_answerClaim _ _ (fun h => by cases h)
  rename_i hrequest
  have huser : 0 < request.userId := by omega
  refine meets_read fun found w₁ _ hfound => ?_
  split
  · exact meets_answerClaim _ _ (fun h => by cases h)
  split
  · exact meets_answerClaim _ _ (fun h => by cases h)
  rename_i existing _
  refine meets_read fun now w₂ hw₂ _ => ?_
  split
  · rename_i outcome hanswer
    refine meets_answerClaim _ _ fun hclaimed => ?_
    obtain ⟨hanswered, hsession⟩ := of_claimAnswer hanswer hclaimed
    exact hw₂.notes.subset (hsession ▸ (hfound existing rfl).2 hanswered)
  refine meets_write huser fun taken w₃ _ htaken => ?_
  split
  · refine meets_read fun raced _ _ _ => ?_
    refine meets_answerClaim _ _ fun hclaimed => ?_
    split_ifs at hclaimed
  · refine meets_ask fun _ _ hw₄ => meets_then (meets_attendAnswered _) fun _ _ hw₅ => ?_
    exact meets_answerClaim _ _ fun _ => (hw₄.trans hw₅).notes.subset (htaken rfl)

theorem meets_end (request : CallEndRequest) : Meets permit lost any (end_ request) m w := by
  simp only [end_]
  split
  · exact meets_done
  refine meets_read fun found _ _ _ => ?_
  split
  · exact meets_done
  split
  · exact meets_done
  refine meets_read fun now _ _ _ => ?_
  split
  · split
    · exact meets_done
    split
    · exact meets_done
    refine meets_write trivial fun ended _ _ _ => ?_
    split
    · exact meets_ask fun _ _ _ => meets_done
    · exact meets_done
  · split
    · exact meets_done
    refine meets_write rfl fun ended _ _ _ => ?_
    split
    · refine meets_then (meets_ask fun _ _ _ => meets_done) fun _ _ _ => ?_
      exact meets_ask fun _ _ _ => meets_done
    · exact meets_done
  all_goals exact meets_done

theorem meets_closeStaleCalls (now : ℤ) : Meets permit lost any (e.closeStaleCalls now) m w := by
  refine meets_read fun stale _ _ _ => ?_
  refine turns_bind (meets_collect any (fun _ _ _ _ _ => trivial)
    fun call _ _ _ => meets_ask fun _ _ _ => meets_done) fun closable _ _ _ => ?_
  dsimp only
  split
  · exact meets_done
  · refine meets_write trivial fun updated _ _ _ => meets_each fun call _ _ _ => ?_
    split
    · exact meets_ask fun _ _ _ => meets_done
    · exact meets_done

theorem meets_sweepCall (now : ℤ) (call : CallRow) :
    Meets permit lost any (e.sweepCall now call) m w := by
  simp only [sweepCall]
  split
  · exact e.meets_settleMissed _
  split
  · exact turns_bind (meets_attempt (meets_last trivial rfl fun _ => rfl)) fun _ _ _ _ => meets_done
  · exact meets_done

/-- The dedupe key of a scheduled call. -/
def scheduledKey (id : ℕ) : String := "assistant:scheduled:" ++ toString id

theorem meets_fireScheduled (now : ℤ) (due : ScheduledCall)
    (hmay : permit.may w (scheduledKey due.id)) :
    Meets permit lost any (e.fireScheduled now due) m w := by
  refine meets_ask fun fired w₁ hw₁ => ?_
  split
  · dsimp only
    split
    · split
      · exact meets_ask fun _ _ _ => meets_done
      · exact meets_done
    · refine meets_then (e.meets_consider _ ?_) fun _ _ _ => meets_done
      exact permit.later hw₁ hmay
  · exact meets_done

theorem meets_purgeHistory (now : ℤ) : Meets permit lost any (e.purgeHistory now) m w := by
  refine meets_ask fun due _ _ => ?_
  split
  · refine meets_write trivial fun _ _ _ _ => ?_
    exact meets_write trivial fun _ _ _ _ => meets_done
  · exact meets_done

theorem meets_sweep (hmay : ∀ id, permit.may w (scheduledKey id)) (hheld : Held m) :
    Meets permit anyLoss any e.sweep m w := by
  refine meets_read fun now w₁ hw₁ hnow => meets_read fun ringing w₂ hw₂ _ => ?_
  refine meets_then (meets_each fun call _ _ _ => e.meets_sweepCall _ _) fun _ w₃ hw₃ => ?_
  refine meets_ask fun due w₄ hw₄ => ?_
  refine meets_then (meets_each fun call _ w₅ hw₅ => e.meets_fireScheduled _ _ ?_)
    fun _ _ _ => ?_
  · exact permit.later (hw₁.trans (hw₂.trans (hw₃.trans (hw₄.trans hw₅)))) (hmay call.id)
  refine meets_then (e.meets_closeStaleCalls _) fun _ _ _ => ?_
  refine meets_then (e.meets_advanceResponses hnow.1 hheld) fun _ _ _ => ?_
  exact meets_write trivial fun _ _ _ _ => e.meets_purgeHistory _

theorem meets_cancelForModule (moduleId : String) :
    Meets permit lost any (e.cancelForModule moduleId) m w := by
  refine meets_read fun now _ _ _ => meets_read fun ringing _ _ _ => ?_
  refine meets_then (meets_each fun call _ _ _ => ?_) fun _ _ _ => ?_
  · split
    · exact e.meets_settleMissed _
    · exact meets_done
  dsimp only
  split
  · exact meets_then meets_done fun closed _ _ =>
      meets_each fun response _ _ _ => meets_emitResponse response
  · exact meets_write trivial fun closed _ _ _ =>
      meets_each fun response _ _ _ => meets_emitResponse response

end CallEngine

/-- The dedupe keys a request brings along itself, without a response. -/
def Request.Brings (request : Request) (dedupeKey : String) : Prop :=
  match request with
  | .consider request => request.candidate.dedupeKey = dedupeKey
  | .considerNotification data _ =>
    ∃ candidate, fromNotification data = some candidate ∧ candidate.dedupeKey = dedupeKey
  | .respond request => request.plan = none ∧
    ∃ candidate, fromNotification request.data = some candidate ∧ candidate.dedupeKey = dedupeKey
  | .sweep => ∃ id, CallEngine.scheduledKey id = dedupeKey
  | _ => False

/-- Every request keeps to the contract, if calls may be opened for the keys it brings. -/
theorem meets_program (e : CallEngine) (request : Request)
    (hmay : ∀ dedupeKey, request.Brings dedupeKey → permit.may w dedupeKey) (hheld : Held m) :
    Meets permit anyLoss any (program e request) m w := by
  cases request with
  | tick seconds => exact meets_last trivial rfl fun _ => rfl
  | consider request => exact meets_then (e.meets_consider request (hmay _ rfl)) fun _ _ _ => meets_done
  | considerNotification data userIds =>
    exact meets_then (e.meets_considerNotification data userIds
      fun candidate hcandidate => hmay _ ⟨candidate, hcandidate, rfl⟩) fun _ _ _ => meets_done
  | respond request =>
    exact e.meets_respond request
      (fun hnone candidate hcandidate => hmay _ ⟨hnone, candidate, hcandidate, rfl⟩) hheld
  | verdict request => exact e.meets_verdict request hheld
  | claim request => exact meets_then (e.meets_claim request) fun _ _ _ => meets_done
  | end_ request => exact meets_then (CallEngine.meets_end request) fun _ _ _ => meets_done
  | sweep => exact e.meets_sweep (fun id => hmay _ ⟨id, rfl⟩) hheld
  | cancelForModule moduleId => exact e.meets_cancelForModule moduleId

theorem safe_program (e : CallEngine) (request : Request)
    (hmay : ∀ dedupeKey, request.Brings dedupeKey → permit.may w dedupeKey) :
    (program e request).Safe (contract permit) (fun _ _ _ => True) 0 w :=
  Task.Safe.mono (meets_program e request hmay held_zero held_zero trivial)
    fun _ _ _ _ _ _ => trivial

/-! ### The rule of invariants -/

section Invariants

variable {e : CallEngine} {clock : ℤ} {ok : Note → Prop} {J : List Note → Db → Prop}
  {h : List Note} {p : Pool Db Op Op.Ans}

theorem settled_start (hclock : 0 < clock) : Settled [] { clock := clock } 0 :=
  ⟨hclock, fun _ hr _ => absurd hr List.not_mem_nil, fun _ hr _ => absurd hr List.not_mem_nil,
    fun _ hr _ => absurd hr List.not_mem_nil, fun _ hr => absurd hr List.not_mem_nil, rfl⟩

/-- What every write keeps, and every note of a request, holds of every run; and the requests that
are at work keep to the contract. -/
theorem tended_of_run (hclock : 0 < clock) (hrun : Run (Step e) (start clock) h p)
    (hok : ∀ n ∈ h, ok n) (hstart : J [] { clock := clock })
    (hwrite : ∀ h db m w, Settled h db m → need .all (h, db) (.write w) →
      (∀ n ∈ (w.run db).2.1, ok n) → J h db → J (h ++ (w.run db).2.1) (w.run db).2.2)
    (hnote : ∀ h db m n, Settled h db (m + n.cost) → need .all (h, db) (.note n) → ok n →
      J h db → J (h ++ [n]) db) :
    ∃ ms lost, Pool.Tended (contract .all) (h, p.shared) ms p.tasks ∧ Held lost ∧
      Settled h p.shared (ms.sum + lost) ∧ J h p.shared := by
  have htended₀ : Pool.Tended (contract .all) ([], (start clock).shared) [] (start clock).tasks :=
    .nil
  have hstart₀ : Settled [] (start clock).shared (([] : List (Multiset Credit)).sum + 0) ∧
      J [] (start clock).shared := ⟨settled_start hclock, hstart⟩
  refine Pool.invariant (I := fun h db m => Settled h db m ∧ J h db) hrun hok htended₀ held_zero
    hstart₀ ?_ fun request w => ?_
  · intro h db m env op ⟨hsettled, hJ⟩ hneed hnotes
    have hsettled' := settled_exec hsettled hneed env
    refine ⟨⟨hsettled', ?_⟩, fact_exec hsettled hneed env fun _ _ _ => trivial,
      later_exec hneed env⟩
    cases op with
    | ask q => simpa [exec] using hJ
    | read r => simpa [exec] using hJ
    | write w => exact hwrite h db _ w hsettled hneed hnotes hJ
    | note n => exact hnote h db m n hsettled hneed (hnotes n (List.mem_singleton_self n)) hJ
  · exact safe_program e request fun _ _ => trivial

/-- **The rule of invariants** of the engine at work. -/
theorem invariant_of_run (hclock : 0 < clock) (hrun : Run (Step e) (start clock) h p)
    (hok : ∀ n ∈ h, ok n) (hstart : J [] { clock := clock })
    (hwrite : ∀ h db m w, Settled h db m → need .all (h, db) (.write w) →
      (∀ n ∈ (w.run db).2.1, ok n) → J h db → J (h ++ (w.run db).2.1) (w.run db).2.2)
    (hnote : ∀ h db m n, Settled h db (m + n.cost) → need .all (h, db) (.note n) → ok n →
      J h db → J (h ++ [n]) db) :
    J h p.shared ∧ ∃ m, Held m ∧ Settled h p.shared m := by
  obtain ⟨ms, lost, htended, hlost, hsettled, hJ⟩ :=
    tended_of_run hclock hrun hok hstart hwrite hnote
  exact ⟨hJ, _, (contract .all).held_add htended.held hlost, hsettled⟩

/-- What the facts of a run rest on. -/
theorem settled_of_run (hclock : 0 < clock) (hrun : Run (Step e) (start clock) h p) :
    ∃ m, Held m ∧ Settled h p.shared m :=
  (invariant_of_run (J := fun _ _ => True) hclock hrun (fun _ _ => trivial) trivial
    (fun _ _ _ _ _ _ _ _ => trivial) fun _ _ _ _ _ _ _ _ => trivial).2

/-- A step of the engine leaves the tables as they are, or is a write whose needs are met. -/
theorem write_of_step (hclock : 0 < clock) (hrun : Run (Step e) (start clock) h p)
    {notes : List Note} {p' : Pool Db Op Op.Ans} (hstep : Step e p notes p') :
    (p'.shared = p.shared ∧ ∀ n ∈ notes, need .all (h, p.shared) (.note n)) ∨
      ∃ w, need .all (h, p.shared) (.write w) ∧ notes = (w.run p.shared).2.1 ∧
        p'.shared = (w.run p.shared).2.2 := by
  obtain ⟨ms, lost, htended, -⟩ := tended_of_run (J := fun _ _ => True) hclock hrun
    (fun _ _ => trivial) trivial (fun _ _ _ _ _ _ _ _ => trivial) fun _ _ _ _ _ _ _ _ => trivial
  rcases htended.of_step hstep with ⟨rfl, hshared⟩ | ⟨env, op, hneed, rfl, hshared⟩
  · exact .inl ⟨hshared, fun n hn => absurd hn List.not_mem_nil⟩
  · cases op with
    | write w => exact .inr ⟨w, hneed, rfl, hshared⟩
    | note n =>
      exact .inl ⟨hshared, fun n' hn' => (List.mem_singleton.1 hn') ▸ hneed⟩
    | _ => exact .inl ⟨hshared, fun n hn => absurd hn List.not_mem_nil⟩

end Invariants

/-! ### Runs of a small engine -/

/-- An engine whose texts show the thread of a call. -/
def plainEngine : CallEngine where
  render input :=
    { title := input.data.kind
      openingLine := input.data.threadKey
      missedLine := input.data.threadKey
      followupLine := input.data.threadKey }

/-- A notification of the guard. -/
def guardData (threadKey urgency : String) : CallData :=
  { kind := "guard_episode", urgency := urgency, threadKey := threadKey }

/-- A plan that calls one user after the other. -/
def ladder (userIds : List ℤ) : CallEngine.ParsedResponsePlan where
  strategy := "ladder"
  stepSeconds := 30
  environmentId := 0
  entries := userIds.mapIdx fun step userId => { userId := userId, step := step }

/-- A request whose task takes its steps at once. -/
def requested (request : Request) (task steps : ℕ) : List (Event Env Request) :=
  .spawn request :: List.replicate steps (.run task {})

/-- Events that lead to something make a run that does. -/
theorem exists_run (e : CallEngine) (clock : ℤ) (events : List (Event Env Request))
    (f : Pool Db Op Op.Ans → List Note → Bool)
    (h : ((Pool.replay exec (program e) (start clock) [] events).any fun r => f r.1 r.2) = true) :
    ∃ h p, Run (Step e) (start clock) h p ∧ f p h = true := by
  obtain ⟨⟨p, h⟩, hreplay, hf⟩ := (Option.any_eq_true _ _).1 h
  exact ⟨h, p, Pool.run_of_replay .start hreplay, hf⟩

end Call

end ArgusBackend
