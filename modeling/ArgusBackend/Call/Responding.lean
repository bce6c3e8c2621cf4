import ArgusBackend.Call.Rules

/-!
# Considering and responding keep to the contract

One lemma for each function of the engine that considers a candidate or works on a response.

* `meets_consider` : calls are opened for the candidate's own key only;
* `meets_reach` : every member it is given is marked, and it hands over those it marked itself;
* `meets_respond`, `meets_advanceResponses`, `meets_verdict` : what they start serving they end
  serving, unless they die on the way.
-/

namespace ArgusBackend

namespace Call

variable {α β : Type} {permit : Permit} {lost : Multiset Credit → Prop} {m : Multiset Credit}
  {w w' : World}

/-! ### The functions of the engine -/

namespace CallEngine

variable (e : CallEngine)

theorem meets_settleMissed (input : MissedInput) :
    Meets permit lost any (e.settleMissed input) m w := by
  refine meets_read fun followups _ _ _ => meets_write trivial fun missed _ _ _ => ?_
  split
  · refine meets_ask fun _ _ _ => ?_
    split
    · exact meets_ask fun _ _ _ => meets_done
    · exact meets_done
  · exact meets_done

theorem meets_supersedeRinging (parent : CallRow) (now : ℤ) :
    Meets permit lost any (e.supersedeRinging parent now) m w :=
  meets_read fun _ _ _ _ =>
    meets_then (e.meets_settleMissed _) fun _ _ _ => meets_done

theorem meets_cancelRinging (input : CancelInput) :
    Meets permit lost any (cancelRinging input) m w := by
  refine meets_write trivial fun cancelled _ _ _ => ?_
  exact meets_each fun call _ _ _ => meets_ask fun _ _ _ => meets_done

/-- The row was made for the candidate at the moment, for some user. -/
def MadeFor (now : ℤ) (dedupeKey : String) (row : CallCreateInput) (_ : World) : Prop :=
  row.createdAt = now ∧ row.dedupeKey = dedupeKey ∧ 0 < row.userId

/-- What is prepared for a user: a row for the candidate, and the call that rings. -/
structure PreparedFor (now : ℤ) (dedupeKey : String) (prepared : PreparedCall) (w : World) :
    Prop where
  row : ∀ row, prepared.row = some row → MadeFor now dedupeKey row w
  ringing : ∀ r, prepared.ringing = some r → r.id < w.2.calls.nextId

theorem PreparedFor.later {now : ℤ} {dedupeKey : String} {prepared : PreparedCall}
    (h : PreparedFor now dedupeKey prepared w) (hw : Later w w') :
    PreparedFor now dedupeKey prepared w' :=
  ⟨h.row, fun r hr => (h.ringing r hr).trans_le hw.calls⟩

theorem meets_prepareUser (input : ConsiderUserInput) (huser : 0 < input.userId) :
    Meets permit lost (PreparedFor input.now input.request.candidate.dedupeKey)
      (e.prepareUser input) m w := by
  simp only [prepareUser]
  split
  · exact meets_pure fun _ _ => ⟨fun _ hrow => (by cases hrow), fun _ hr => (by cases hr)⟩
  · refine meets_read fun alreadyCalled _ _ _ => meets_read fun ringing _ _ hringing => ?_
    refine meets_read fun stats _ hw _ => meets_pure fun _ hw' => ⟨fun row hrow => ?_, ?_⟩
    · obtain rfl := Option.some.inj hrow
      exact ⟨rfl, rfl, huser⟩
    · exact fun r hr => (hringing r hr).trans_le (hw.trans hw').calls

theorem meets_queueUser (input : FinishUserInput) (row : CallCreateInput)
    (hringing : ∀ r, input.prepared.ringing = some r → r.id < w.2.calls.nextId) :
    Meets permit lost any (queueUser input row) m w := by
  simp only [queueUser]
  split
  · rename_i ringing hsome
    refine meets_write ⟨.inr rfl, fun _ => hringing ringing hsome⟩ fun id _ _ _ => ?_
    split <;> exact meets_done
  · refine meets_read fun parent _ _ hparent => ?_
    split
    · exact meets_done
    · refine meets_write ⟨.inr rfl, fun _ => hparent _ rfl⟩ fun id _ _ _ => ?_
      split <;> exact meets_done

theorem meets_openUser (input : FinishUserInput) (row : CallCreateInput)
    (hrow : MadeFor input.now input.request.candidate.dedupeKey row w)
    (hringing : ∀ r, input.prepared.ringing = some r → r.id < w.2.calls.nextId)
    (hnow : input.now ≤ w.2.clock) (hmay : permit.may w input.request.candidate.dedupeKey) :
    Meets permit lost any (do
      match ← write (.openRinging row input.now) with
      | some call =>
        let _ ← ask (.emit input.prepared.outcome.userId "call_incoming" call.title call.id)
        pure { input.prepared.outcome with resolution := .rang, callId := call.id }
      | none =>
        if ← read (.exists_ input.request.candidate.dedupeKey input.prepared.outcome.userId) then
          pure { input.prepared.outcome with reason := "already_called" }
        else queueUser input row) m w := by
  refine meets_write ⟨hrow.1.trans_le hnow, hrow.2.1 ▸ hmay, hrow.2.2⟩ fun call _ hw _ => ?_
  split
  · exact meets_ask fun _ _ _ => meets_done
  · refine meets_read fun exists_ _ hw' _ => ?_
    split
    · exact meets_done
    · exact meets_queueUser _ _ fun r hr => (hringing r hr).trans_le (hw.trans hw').calls

theorem meets_finishUser (input : FinishUserInput)
    (hprepared : PreparedFor input.now input.request.candidate.dedupeKey input.prepared w)
    (hnow : input.now ≤ w.2.clock) (hmay : permit.may w input.request.candidate.dedupeKey) :
    Meets permit lost any (e.finishUser input) m w := by
  simp only [finishUser]
  split
  · exact meets_done
  rename_i row hrow
  have hmade := hprepared.row row hrow
  split
  · refine meets_write ⟨.inl rfl, fun hqueued => ?_⟩ fun _ _ _ _ => meets_done
    cases hqueued
  split
  · split
    · exact meets_ask fun _ _ _ => meets_done
    · exact meets_done
  split
  · -- what a superseded call leaves is in the data of the row only
    split
    · refine meets_then (e.meets_supersedeRinging _ _) fun lines w' hw => ?_
      have hrow : Meets permit lost (MadeFor input.now input.request.candidate.dedupeKey) (pure
          { row with data := { input.prepared.stored with laterLines := some lines } }) m w' :=
        meets_pure fun _ _ => hmade
      exact turns_bind hrow fun row' w'' hw' hrow' =>
        meets_openUser input row' hrow' (hprepared.later (hw.trans hw')).ringing
          (hnow.trans (hw.trans hw').clock) (permit.later (hw.trans hw') hmay)
    · have hrow : Meets permit lost (MadeFor input.now input.request.candidate.dedupeKey)
          (pure row) m w := meets_pure fun _ _ => hmade
      exact turns_bind hrow fun row' w' hw hrow' =>
        meets_openUser input row' hrow' (hprepared.later hw).ringing (hnow.trans hw.clock)
          (permit.later hw hmay)
  · exact meets_queueUser _ _ hprepared.ringing

theorem pos_of_mem_distinctIds {userIds : List ℤ} {userId : ℤ}
    (h : userId ∈ distinctIds userIds) : 0 < userId := by
  induction userIds with
  | nil => cases h
  | cons id rest ih =>
    simp only [distinctIds] at h
    split at h
    · rename_i hpos
      rcases List.mem_cons.1 h with rfl | h
      · exact hpos
      · exact ih (List.mem_of_mem_filter h)
    · exact ih h

theorem meets_consider (request : CallRequest) (hmay : permit.may w request.candidate.dedupeKey) :
    Meets permit lost any (e.consider request) m w := by
  simp only [consider]
  split
  · exact meets_done
  refine meets_read fun now w₁ hw₁ hclock => ?_
  refine meets_ask fun preferences _ hw₂ => ?_
  refine meets_ask fun recipients _ hw₃ => ?_
  refine turns_bind (meets_collect (PreparedFor now request.candidate.dedupeKey)
    (fun _ _ _ hw h => h.later hw) ?_) fun prepared _ hw₄ hprepared => ?_
  · intro userId huser _ _
    refine turns_bind (meets_attempt (e.meets_prepareUser _ (pos_of_mem_distinctIds huser)))
      fun call _ _ hcall => ?_
    refine meets_pure fun _ hw => ?_
    cases call with
    | none => exact ⟨fun _ hrow => (by cases hrow), fun _ hr => (by cases hr)⟩
    | some call => exact (hcall call rfl).later hw
  refine meets_ask fun answers _ hw₅ => ?_
  refine (meets_collect any (fun _ _ _ _ _ => trivial) ?_).mono fun _ _ _ _ => trivial
  intro call hcall w' hw₆
  split
  · exact meets_done
  · have hlater : Later w₁ w' := hw₂.trans (hw₃.trans (hw₄.trans (hw₅.trans hw₆)))
    refine turns_bind (meets_attempt (e.meets_finishUser _
      ((hprepared call hcall).later (hw₅.trans hw₆)) ?_ ?_)) fun _ _ _ _ => meets_done
    · exact hclock.2.trans hlater.clock
    · exact permit.later (hw₁.trans hlater) hmay

theorem meets_considerNotification (data : CallData) (userIds : List ℤ)
    (hmay : ∀ candidate, fromNotification data = some candidate →
      permit.may w candidate.dedupeKey) :
    Meets permit lost any (e.considerNotification data userIds) m w := by
  simp only [considerNotification]
  split
  · exact meets_done
  · rename_i candidate hcandidate
    exact e.meets_consider _ (hmay candidate hcandidate)

end CallEngine

/-! ### Responses -/

/-- Credits may be lost in a throw. -/
abbrev anyLoss (_ : Multiset Credit) : Prop := True

/-- The credits to hand over members of a response. -/
def credits (responseId : ℕ) (userIds : List ℤ) : Multiset Credit :=
  (userIds.map (Credit.hand responseId) : List Credit)

theorem credits_cons (responseId : ℕ) (userId : ℤ) (userIds : List ℤ) :
    credits responseId (userId :: userIds) =
      credits responseId userIds + {.hand responseId userId} := by
  simp [credits, ← Multiset.cons_coe, ← Multiset.singleton_add, add_comm]

theorem Held.add_credits {responseId : ℕ} {userIds : List ℤ} (hheld : Held m)
    (hserve : .serve responseId ∈ m) : Held (m + credits responseId userIds) := by
  intro response userId hmem
  rcases Multiset.mem_add.1 hmem with hmem | hmem
  · exact Multiset.mem_add.2 (.inl (hheld response userId hmem))
  · obtain ⟨_, _, heq⟩ := List.mem_map.1 (Multiset.mem_coe.1 hmem)
    cases heq
    exact Multiset.mem_add.2 (.inl hserve)

theorem Held.add_serve {responseId : ℕ} (hheld : Held m) : Held (m + {.serve responseId}) := by
  intro response userId hmem
  rcases Multiset.mem_add.1 hmem with hmem | hmem
  · exact Multiset.mem_add.2 (.inl (hheld response userId hmem))
  · cases Multiset.mem_singleton.1 hmem

/-- A task that holds `m` serves a response. -/
structure Serving (responseId : ℕ) (m : Multiset Credit) : Prop where
  serve : .serve responseId ∈ m
  held : Held m

theorem Held.serving {responseId : ℕ} (hheld : Held m) :
    Serving responseId (m + {.serve responseId}) :=
  ⟨Multiset.mem_add.2 (.inr (Multiset.mem_singleton_self _)), hheld.add_serve⟩

namespace CallEngine

variable (e : CallEngine)

/-- Marking members brings the credits for those it marked. -/
theorem turns_markMembers {responseId : ℕ} {now : ℤ} (hnow : 0 < now)
    (hserve : .serve responseId ∈ m) (userIds : List ℤ)
    (hknown : responseId < w.2.responses.nextId) :
    Turns permit anyLoss (fun _ w' => ∀ userId ∈ userIds, Marked w' responseId userId)
      (markMembers responseId now userIds) m (fun reached => m + credits responseId reached) w := by
  induction userIds generalizing m w with
  | nil => exact turns_pure (add_zero m) fun _ _ userId h => absurd h List.not_mem_nil
  | cons userId rest ih =>
    have hgain : ∀ marked, gain (.write (.markReached responseId userId now)) marked =
        credits responseId (if (marked : Bool) then [userId] else []) := by
      intro marked
      cases marked <;> rfl
    refine turns_op hnow (add_zero m).symm (fun marked w' hw hfact => ?_) (fun marked hm => ?_)
      fun _ _ => trivial
    · rw [hgain marked]
      refine turns_bind (ih (Multiset.mem_add.2 (.inl hserve)) (hknown.trans_le hw.lasting.nextId))
        fun reached w'' hw' hrest => ?_
      refine turns_pure ?_ fun w₃ hw'' userId' huser' => ?_
      · cases marked with
        | true => 
          simp only [if_true, credits_cons, add_assoc]
          rw [add_comm (credits responseId reached)]
          rfl
        | false => exact (congrArg (· + _) (add_zero m)).symm
      · rcases List.mem_cons.1 huser' with rfl | huser'
        · have hmarked : Marked w' responseId userId' :=
            ⟨hknown.trans_le hw.lasting.nextId, hfact⟩
          exact hmarked.later (hw'.trans hw'')
        · exact (hrest userId' huser').later hw''
    · rw [hgain marked]
      exact hm.add_credits hserve

/-- Handing members over spends their credits. -/
theorem turns_hand {responseId : ℕ} (leave : ℤ → Note)
    (hcost : ∀ userId, (leave userId).cost = {.hand responseId userId})
    (hgain : ∀ userId, (leave userId).gain = 0)
    (hneed : ∀ userId w, need permit w (.note (leave userId)))
    (hserving : Serving responseId m) (userIds : List ℤ) :
    Turns permit anyLoss any (Task.each (fun userId => note (leave userId)) userIds)
      (m + credits responseId userIds) (fun _ => m) w := by
  induction userIds generalizing w with
  | nil => exact turns_pure (add_zero m).symm fun _ _ => trivial
  | cons userId rest ih =>
    have hsplit : m + credits responseId (userId :: rest) =
        m + credits responseId rest + cost (.note (leave userId)) := by
      rw [credits_cons, ← add_assoc]
      exact congrArg _ (hcost userId).symm
    refine turns_op (hneed userId w) hsplit (fun _ w' _ _ => ?_) (fun _ _ => ?_) fun _ _ => trivial
    · have hsame : m + credits responseId rest + gain (.note (leave userId)) () =
          m + credits responseId rest := by
        rw [show gain (.note (leave userId)) () = 0 from hgain userId, add_zero]
      rw [hsame]
      exact ih
    · rw [show gain (.note (leave userId)) () = 0 from hgain userId, add_zero]
      exact hserving.held.add_credits hserving.serve

/-- `reach` from the marked members on: they are handed to `consider`. -/
theorem turns_handOver {responseId : ℕ} (userIds : List ℤ)
    (request : List CallResponseMember → CallRequest)
    (hmay : ∀ members, permit.may w (request members).candidate.dedupeKey)
    (hserving : Serving responseId m) :
    Turns permit anyLoss any (if userIds = [] then pure () else do
      let members ← read (.members responseId)
      Task.each (fun userId => note (.handed responseId userId)) userIds
      let _ ← e.consider (request members)) (m + credits responseId userIds) (fun _ => m) w := by
  split
  · rename_i hnone
    exact turns_pure (by rw [hnone]; exact (add_zero m).symm) fun _ _ => trivial
  · refine meets_read fun members w' hw _ => ?_
    refine turns_bind (turns_hand (.handed responseId ·) (fun _ => rfl) (fun _ => rfl)
      (fun _ _ => trivial) hserving userIds) fun _ w'' hw' _ => ?_
    exact meets_then (e.meets_consider _ (permit.later (hw.trans hw') (hmay members)))
      fun _ _ _ => meets_done

theorem meets_reach (input : ReachInput) (hnow : 0 < input.now)
    (hserving : Serving input.response.id m) (hcopy : Copy w input.response)
    (hmay : permit.may w input.response.dedupeKey) :
    Meets permit anyLoss
      (fun _ w' => ∀ member ∈ input.members, Marked w' input.response.id member.userId)
      (e.reach input) m w := by
  obtain ⟨candidate, hcandidate, hkey⟩ := hcopy.coherent
  simp only [reach, hcandidate]
  split
  · rename_i hnone
    exact meets_pure fun _ _ member hmember => by simp [hnone] at hmember
  refine turns_bind (turns_markMembers hnow hserving.serve _ hcopy.known) fun reached w₁ hw₁ hmarked => ?_
  have hmarked : ∀ w', Later w₁ w' → ∀ member ∈ input.members,
      Marked w' input.response.id member.userId := fun w' hw' member hmember =>
    (hmarked member.userId (List.mem_map_of_mem hmember)).later hw'
  have hmay₁ : permit.may w₁ candidate.dedupeKey := permit.later hw₁ (hkey ▸ hmay)
  split
  · refine meets_ask fun recipients w₂ hw₂ => ?_
    refine meets_then (meets_each fun userId _ _ _ => meets_ask fun _ _ _ => meets_done)
      fun _ w₃ hw₃ => ?_
    have hlater : Later w₁ w₃ := hw₂.trans hw₃
    exact (e.turns_handOver reached _ (fun _ => permit.later hlater hmay₁) hserving).mono
      fun _ w' hw' _ => hmarked w' (hlater.trans hw')
  · exact (e.turns_handOver reached _ (fun _ => hmay₁) hserving).mono
      fun _ w' hw' _ => hmarked w' hw'

theorem meets_promptContacts (input : PromptInput) :
    Meets permit lost any (e.promptContacts input) m w := by
  simp only [promptContacts]
  split
  · refine meets_read fun members _ _ _ => meets_ask fun recipients _ _ => ?_
    exact meets_each fun userId _ _ _ => meets_ask fun _ _ _ => meets_done
  · exact meets_done

theorem meets_emitResponse (responseId : ℕ) :
    Meets permit lost any (emitResponse responseId) m w := by
  refine meets_read fun response _ _ _ => ?_
  split
  · exact meets_done
  · refine meets_read fun members _ _ _ => meets_each fun member _ _ _ => ?_
    split
    · exact meets_ask fun _ _ _ => meets_done
    · exact meets_done

/-- A note that starts serving a response, and what follows. -/
theorem turns_serving {responseId : ℕ} {f : Unit → Io β} {post' : β → World → Prop}
    {after' : β → Multiset Credit}
    (hf : ∀ w', Later w w' →
      Turns permit anyLoss post' (f ()) (m + {.serve responseId}) after' w') :
    Turns permit anyLoss post' (note (.serving responseId) >>= f) m after' w :=
  turns_op trivial (add_zero m).symm (fun _ w' hw _ => hf w' hw) (fun _ hm => hm.add_serve)
    fun _ _ => trivial

/-- A note that ends serving a response, and what follows. -/
theorem turns_served {responseId : ℕ} {n : Note} {f : Unit → Io β} {post' : β → World → Prop}
    {after' : β → Multiset Credit} (hcost : n.cost = {.serve responseId}) (hgain : n.gain = 0)
    (hneed : need permit w (.note n)) (hheld : Held m)
    (hf : ∀ w', Later w w' → Turns permit anyLoss post' (f ()) m after' w') :
    Turns permit anyLoss post' (note n >>= f) (m + {.serve responseId}) after' w := by
  have hsame : m + gain (.note n) () = m := by
    rw [show gain (.note n) () = 0 from hgain, add_zero]
  refine turns_op hneed (congrArg (m + ·) hcost.symm) (fun _ w' hw _ => ?_) (fun _ _ => ?_)
    fun _ _ => trivial
  · rw [hsame]
    exact hf w' hw
  · rwa [hsame]

/-- A candidate has the data of its notification, and the actor's name plays no part. -/
theorem coherent_of_candidate {data : CallData} {candidate : CallCandidate}
    (h : fromNotification data = some candidate) (name : String) :
    Coherent candidate.data candidate.dedupeKey ∧
      Coherent { candidate.data with actorName := name } candidate.dedupeKey := by
  have hdata : candidate.data = data := by
    simp only [fromNotification, guardCandidate, agendaCandidate] at h
    split_ifs at h <;> (obtain rfl := Option.some.inj h; rfl)
  have hname : fromNotification { data with actorName := name } =
      (fromNotification data).map fun c => { c with data := { c.data with actorName := name } } := by
    simp only [fromNotification, guardCandidate, agendaCandidate]
    split_ifs <;> rfl
  rw [hdata]
  refine ⟨⟨candidate, h, rfl⟩, { candidate with data := { candidate.data with actorName := name } },
    ?_, rfl⟩
  rw [hname, h]
  rfl

theorem step_lt_stepCount (plan : ParsedResponsePlan) (actor : ℤ) :
    ∀ m ∈ planMembers plan actor, m.step < plan.stepCount := by
  have hfold : ∀ (entries : List ResponsePlanEntry) (count : ℕ),
      count ≤ entries.foldl (fun count entry => max count (entry.step + 1)) count ∧
        ∀ entry ∈ entries,
          entry.step < entries.foldl (fun count entry => max count (entry.step + 1)) count := by
    intro entries
    induction entries with
    | nil => exact fun count => ⟨Nat.le_refl _, by simp⟩
    | cons first rest ih =>
      intro count
      obtain ⟨hle, hlt⟩ := ih (max count (first.step + 1))
      refine ⟨(Nat.le_max_left _ _).trans hle, fun entry hentry => ?_⟩
      rcases List.mem_cons.1 hentry with rfl | hentry
      · exact (Nat.le_max_right _ _).trans hle
      · exact hlt entry hentry
  intro m hm
  obtain ⟨entry, hentry, rfl⟩ := List.mem_map.1 hm
  exact (hfold plan.entries 0).2 entry (List.mem_of_mem_filter hentry)

theorem meets_respond (request : ResponseRequest)
    (hmay : request.plan = none → ∀ candidate, fromNotification request.data = some candidate →
      permit.may w candidate.dedupeKey) (hheld : Held m) :
    Meets permit anyLoss any (e.respond request) m w := by
  simp only [respond]
  split
  · rename_i hnone
    exact meets_then (e.meets_considerNotification _ _ (hmay hnone)) fun _ _ _ => meets_done
  split
  · exact meets_done
  rename_i plan _ _ candidate₀ hcandidate₀
  -- the candidate stays coherent with the name put in
  have hcoherent : ∀ (found : Bool) (name : String), Coherent
      (if found then { candidate₀ with data := { candidate₀.data with actorName := name } }
        else candidate₀).data
      (if found then { candidate₀ with data := { candidate₀.data with actorName := name } }
        else candidate₀).dedupeKey := by
    intro found name
    obtain ⟨hsame, hnamed⟩ := coherent_of_candidate hcandidate₀ name
    cases found
    · exact hsame
    · exact hnamed
  split
  -- both ways of naming the actor go on with one candidate
  case' isTrue =>
    refine meets_ask fun recipients _ _ => ?_
    refine turns_let (fun candidate => Coherent candidate.data candidate.dedupeKey)
      (hcoherent _ _) fun candidate hcandidate => ?_
  case' isFalse =>
    refine turns_let (fun candidate => Coherent candidate.data candidate.dedupeKey)
      (hcoherent false "") fun candidate hcandidate => ?_
  all_goals
    refine meets_read fun now _ _ hnow => ?_
    refine meets_write ⟨hcandidate, step_lt_stepCount plan _⟩ fun created _ _ _ => ?_
    refine meets_read fun response w₁ _ hresponse => ?_
    split
    · exact meets_done
    rename_i response
    split
    · exact meets_done
    rename_i hopen
    obtain ⟨hcopy, hkey, hfree⟩ := hresponse response rfl
    have hmay₁ := hfree (not_not.1 hopen)
    have hserving : Serving response.id (m + {.serve response.id}) := hheld.serving
    refine turns_serving fun w₂ hw₂ => meets_read fun stored w₃ hw₃ _ => ?_
    have hw₃ := hw₂.trans hw₃
    split
    case' isTrue =>
      refine meets_then ((e.meets_reach _ hnow.1 hserving (hcopy.later hw₃)
        (permit.later hw₃ (hkey ▸ hmay₁))).mono fun _ _ _ _ => trivial) fun _ w₄ hw₄ => ?_
      have hw₃ := hw₃.trans hw₄
    all_goals
      refine turns_bind (turns_markMembers hnow.1 hserving.serve _ (hcopy.later hw₃).known)
        fun reached w₅ hw₅ hmarked => ?_
      refine turns_bind (turns_hand (.called response.id ·) (fun _ => rfl) (fun _ => rfl)
        (fun _ _ => trivial) hserving reached) fun _ w₆ hw₆ _ => ?_
      refine meets_then (e.meets_consider _ (permit.later (hw₃.trans (hw₅.trans hw₆)) hmay₁))
        fun _ w₇ hw₇ => ?_
      exact turns_served rfl rfl
        (fun userId huser => (hmarked userId huser).later (hw₆.trans hw₇)) hheld
        fun _ _ => meets_emitResponse _

theorem meets_attendAnswered (call : CallRow) :
    Meets permit lost any (attendAnswered call) m w := by
  refine meets_read fun response _ _ _ => ?_
  split
  · exact meets_done
  split
  · exact meets_done
  refine meets_ask fun recipients _ _ => meets_read fun now _ _ _ => ?_
  refine meets_write trivial fun attended _ _ _ => ?_
  split
  · exact meets_then (meets_cancelRinging _) fun _ _ _ => meets_emitResponse _
  · exact meets_done

/-- The members of a step are reached when those are that were not before. -/
theorem stepReached_of_members {w₁ w₃ : World} {id step : ℕ} {members : List CallResponseMember}
    (hw : Later w₁ w₃) (hknown : id < w₁.2.responses.nextId)
    (hmembers : ∀ m ∈ w₁.2.members, m.responseId = id → m ∈ members)
    (hreached : ∀ m ∈ members.filter fun m => m.step = step ∧ m.reachedAt = 0,
      Marked w₃ id m.userId) : StepReached w₃ id step := by
  refine ⟨hknown.trans_le hw.lasting.nextId, fun m' hm' hid hstep => ?_⟩
  obtain ⟨m, hm, hid₀, huser, hstep₀, hkept⟩ := hw.lasting.members m' hm' (hid ▸ hknown)
  by_cases hzero : m.reachedAt = 0
  · have hmem : m ∈ members.filter fun m => m.step = step ∧ m.reachedAt = 0 :=
      List.mem_filter.2 ⟨hmembers m hm (hid₀.trans hid),
        decide_eq_true ⟨hstep₀.trans hstep, hzero⟩⟩
    exact (hreached m hmem).2 m' hm' hid huser.symm
  · exact hkept hzero

theorem meets_advanceResponse {now : ℤ} (hnow : 0 < now) {response : ResponseRow}
    (hcopy : Copy w response) (hheld : Held m) :
    Meets permit anyLoss any (e.advanceResponse now response) m w := by
  simp only [advanceResponse]
  split
  · rename_i hlt
    refine meets_read fun members w₁ hw₁ hmembers => ?_
    refine turns_op ⟨rfl, response, hcopy.later hw₁, rfl, hlt⟩ (add_zero m).symm
      (fun advanced w₂ hw₂ hfree => ?_) (fun advanced _ => ?_) fun _ _ => trivial
    · cases advanced with
      | false => exact turns_pure (add_zero m).symm fun _ _ => trivial
      | true =>
        have hcopy₂ := hcopy.later (hw₁.trans hw₂)
        refine turns_bind (e.meets_reach _ hnow hheld.serving hcopy₂ ?_)
          fun _ w₃ hw₃ hreached => ?_
        · obtain ⟨r, hr, hid, hmay⟩ := hfree rfl
          exact (hcopy₂.same r hr hid).2.1 ▸ hmay
        · refine turns_served rfl rfl ?_ hheld fun _ _ => meets_emitResponse _
          exact stepReached_of_members (hw₂.trans hw₃) (hcopy.later hw₁).known hmembers hreached
    · cases advanced with
      | false => exact (add_zero m).symm ▸ hheld
      | true => exact hheld.add_serve
  · rename_i hge
    refine meets_write ⟨response, hcopy, rfl, Nat.le_of_not_lt hge⟩ fun marked _ _ _ => ?_
    split
    · refine meets_read fun fresh _ _ _ => ?_
      split
      · exact meets_emitResponse _
      · exact meets_then (e.meets_promptContacts _) fun _ _ _ => meets_emitResponse _
    · exact meets_done

theorem meets_advanceResponses {now : ℤ} (hnow : 0 < now) (hheld : Held m) :
    Meets permit anyLoss any (e.advanceResponses now) m w := by
  refine meets_read fun due w₁ hw₁ hdue => ?_
  exact meets_each fun response hresponse w₂ hw₂ =>
    e.meets_advanceResponse hnow ((hdue response hresponse).later hw₂) hheld

theorem meets_verdict (request : ResponseVerdictRequest) (hheld : Held m) :
    Meets permit anyLoss any (e.verdict request) m w := by
  refine meets_read fun member _ _ _ => ?_
  split
  · exact meets_done
  split
  · exact meets_done
  refine meets_ask fun recipients _ _ => meets_read fun now _ _ hnow => ?_
  refine meets_write trivial fun recorded w₁ _ hrecorded => ?_
  refine meets_read fun found w₂ hw₂ hfound => ?_
  split
  · exact meets_done
  rename_i fresh
  split
  · exact meets_done
  rename_i hrun
  split
  · refine meets_then (meets_cancelRinging _) fun _ _ _ => ?_
    exact meets_then (meets_emitResponse _) fun _ _ _ => meets_note trivial rfl rfl
  · rename_i hreal
    obtain ⟨hcopy, hid, hfree⟩ := hfound fresh rfl
    have hmay : permit.may w₂ fresh.dedupeKey :=
      hfree ((hrecorded (not_not.1 hrun) hreal).later hw₂)
    refine meets_then (meets_cancelRinging _) fun _ w₃ hw₃ => ?_
    refine turns_serving fun w₄ hw₄ => meets_read fun members w₅ hw₅ _ => ?_
    have hlater := hw₃.trans (hw₄.trans hw₅)
    refine turns_bind (e.meets_reach _ hnow.1 hheld.serving (hcopy.later hlater)
      (permit.later hlater hmay)) fun _ _ _ _ => ?_
    refine turns_served rfl rfl trivial hheld fun _ _ => ?_
    refine meets_then (e.meets_promptContacts _) fun _ _ _ => ?_
    exact meets_then (meets_emitResponse _) fun _ _ _ => meets_note trivial rfl rfl

end CallEngine

end Call

end ArgusBackend
