import ArgusBackend.Call.Requests

/-!
# The state machine of a call

What every interleaving keeps of the rows of the call table.

* `calls_keep_machine` : a user has at most one ringing row that has not expired; rows move along
  `moves` only, and leave the table only when they are over; one session at most is answered with
  `Claimed`, again while the call is answered, and a call that was taken ends in no other way; a
  dedupe key and a user have at most one row;
* `claim_not_repeated` : once the call is over a repeat of the same session is not answered so.
-/

namespace ArgusBackend

namespace Call

/-- The changes of state of a row. -/
def moves : CallState → CallState → Bool
  | .ringing, .answered | .ringing, .missed | .ringing, .declined => true
  | .queued, .injected | .queued, .missed => true
  | .answered, .completed | .injected, .completed => true
  | _, _ => false

/-- The call a note takes out of the ringing state. -/
def Note.ends : Note → Option ℕ
  | .took id _ | .declined id _ | .missed id | .cancelled id => some id
  | _ => none

theorem Became.moves {notes : List Note} {r r' : CallRow} (h : Became notes r r') :
    r'.state = r.state ∨ moves r.state r'.state = true := by
  cases h with
  | kept hstate => exact .inl hstate
  | completed hwas hstate => rcases hwas with hwas | hwas <;> simp [hwas, hstate, Call.moves]
  | _ => simp_all [Call.moves]

theorem Db.of_ringingFor {id : ℕ} {userId now : ℤ} {r : CallRow}
    (h : Db.ringingFor id userId now r = true) :
    r.id = id ∧ r.userId = userId ∧ r.state = .ringing ∧ now < r.expiresAt := by
  simpa [Db.ringingFor] using h

theorem Db.of_ringing {id : ℕ} {r : CallRow} (h : Db.ringing id r = true) :
    r.id = id ∧ r.state = .ringing := by
  simpa [Db.ringing] using h

theorem NoteOf.took_claim {db : Db} {w : Write} {id : ℕ} {session : String}
    (h : NoteOf db w (.took id session)) : ∃ userId now, w = .claim id userId session now ∧
      ∃ r ∈ db.calls, Db.ringingFor id userId now r = true := by
  cases h with
  | took r hr hp => exact ⟨_, _, rfl, r, hr, hp⟩

/-- A write ends calls that ring. -/
theorem NoteOf.ringing {db : Db} {w : Write} {n : Note} {id : ℕ} (h : NoteOf db w n)
    (hends : n.ends = some id) : ∃ r ∈ db.calls, r.id = id ∧ r.state = .ringing := by
  cases h with
  | took r hr hp =>
    obtain rfl := Option.some.inj hends
    exact ⟨r, hr, (Db.of_ringingFor hp).1, (Db.of_ringingFor hp).2.2.1⟩
  | declined r hr hp =>
    obtain rfl := Option.some.inj hends
    exact ⟨r, hr, (Db.of_ringingFor hp).1, (Db.of_ringingFor hp).2.2.1⟩
  | missed r hr hp =>
    obtain rfl := Option.some.inj hends
    exact ⟨r, hr, Db.of_ringing hp⟩
  | cancelled r hr hp =>
    obtain rfl := Option.some.inj hends
    refine ⟨r, hr, rfl, ?_⟩
    simp only [Db.ringingForKey, decide_eq_true_eq] at hp
    exact hp.2.1
  | _ => cases hends

/-- A call that a write ends rings no more. -/
theorem not_ringing_of_ends {db : Db} {w : Write} {n : Note} {id : ℕ} (hn : n ∈ (w.run db).2.1)
    (hends : n.ends = some id) {r' : CallRow} (hr' : r' ∈ (w.run db).2.2.calls)
    (hid : r'.id = id) : r'.state ≠ .ringing := by
  intro hringing
  have hnote := noteOf_run hn
  -- what rings afterwards was there before and did not meet the guard
  cases hnote with
  | took r hr hp =>
    obtain rfl := Option.some.inj hends
    simp only [Write.run, if_pos (List.any_eq_true.2 ⟨r, hr, hp⟩)] at hr'
    have hkept := (ringing_of_setCalls (by decide) hr' hringing).1
    obtain ⟨hold, hnot⟩ := ringing_of_setCalls (by decide) hkept hringing
    rw [Rows.eq_of_id hold hr (hid.trans (Db.of_ringingFor hp).1.symm), hp] at hnot
    cases hnot
  | declined r hr hp =>
    obtain rfl := Option.some.inj hends
    simp only [Write.run, if_pos (List.any_eq_true.2 ⟨r, hr, hp⟩)] at hr'
    obtain ⟨hold, hnot⟩ := ringing_of_setCalls (by decide) hr' hringing
    rw [Rows.eq_of_id hold hr (hid.trans (Db.of_ringingFor hp).1.symm), hp] at hnot
    cases hnot
  | missed r hr hp =>
    obtain rfl := Option.some.inj hends
    simp only [Write.run, if_pos (List.any_eq_true.2 ⟨r, hr, hp⟩)] at hr'
    have hkept := (ringing_of_setCalls (by decide) hr' hringing).1
    obtain ⟨hold, hnot⟩ := ringing_of_setCalls (by decide) hkept hringing
    rw [Rows.eq_of_id hold hr (hid.trans (Db.of_ringing hp).1.symm), hp] at hnot
    cases hnot
  | cancelled r hr hp =>
    obtain rfl := Option.some.inj hends
    obtain ⟨hold, hnot⟩ := ringing_of_setCalls (by decide) (ringing_of_cancel hr' hringing) hringing
    rw [Rows.eq_of_id hold hr hid, hp] at hnot
    cases hnot
  | _ => cases hends

/-- The notes of one write end different calls. -/
theorem pairwise_ends (db : Db) (w : Write) :
    (w.run db).2.1.Pairwise fun n n' => ∀ id, n.ends = some id → n'.ends ≠ some id := by
  cases w with
  | cancelRingingForKey dedupeKey exceptUserId onlyUserId reason now =>
    refine List.pairwise_map.2 ((db.calls.sorted.filter _).imp fun {r r'} hlt id hid hid' => ?_)
    have hr : r.id = id := Option.some.inj hid
    have hr' : r'.id = id := Option.some.inj hid'
    omega
  | create row =>
    simp only [Write.run]
    split
    · exact List.Pairwise.nil
    · dsimp only
      split
      · exact List.pairwise_singleton _ _
      · exact List.Pairwise.nil
  | openRinging row now =>
    simp only [Write.run]
    split
    · exact List.Pairwise.nil
    · split
      · exact List.Pairwise.nil
      · split <;> exact List.pairwise_singleton _ _
  | openResponse input members =>
    simp only [Write.run]
    split <;> exact List.Pairwise.nil
  | _ =>
    simp only [Write.run]
    first
      | exact List.Pairwise.nil
      | split
        · exact List.pairwise_singleton _ _
        · exact List.Pairwise.nil

/-- Two rows of a user that ring and have not expired are one row. -/
def RingsAlone (db : Db) : Prop :=
  ∀ r ∈ db.calls, ∀ r' ∈ db.calls, r.userId = r'.userId → r.state = .ringing →
    r'.state = .ringing → db.clock < r.expiresAt → db.clock < r'.expiresAt → r = r'

/-- What every run keeps of the rows and of the notes about them. -/
structure Machine (h : List Note) (db : Db) : Prop where
  alone : RingsAlone db
  top : ∀ r ∈ db.calls, r.state = .ringing ∨ r.state = .answered → r.parentCallId = 0
  owner : ∀ r ∈ db.calls, r.state = .answered → 0 < r.userId
  positive : 0 < db.calls.nextId ∧ ∀ r ∈ db.calls, 0 < r.id
  ended : ∀ n ∈ h, ∀ id, n.ends = some id →
    id < db.calls.nextId ∧ ∀ r ∈ db.calls, r.id = id → r.state ≠ .ringing
  once : h.Pairwise fun n n' => ∀ id, n.ends = some id → n'.ends ≠ some id
  claimed : ∀ id session, .claimed id session ∈ h → .took id session ∈ h

section Step

variable {h : List Note} {db : Db} {m : Multiset Credit} {w : Write}

/-- A user's call rings alone after a write: the statement that opens it checks the others. -/
theorem RingsAlone.run (halone : RingsAlone db) (hneed : need .all (h, db) (.write w)) :
    RingsAlone (w.run db).2.2 := by
  intro r₁' hr₁' r₂' hr₂' huser hringing₁ hringing₂ hlive₁ hlive₂
  have heffect := effect_run db (allowed_of_need hneed)
  have hclock : db.clock ≤ (w.run db).2.2.clock := clock_run w
  have hopen : ∀ r' r : CallRow, Inserted w (w.run db).2.1 db.calls r' → r'.state = .ringing →
      r ∈ db.calls → r.userId = r'.userId → r.state = .ringing →
      ¬(w.run db).2.2.clock < r.expiresAt := by
    intro r' r hinserted hringing' hr huser hringing hlive
    cases hinserted with
    | ringing row now hw _ huser' _ _ _ hguard =>
      subst hw
      have hnow : row.createdAt ≤ db.clock := hneed.1
      have := hguard r hr (huser.trans huser') hringing
      omega
    | queued hqueued => simp [hqueued] at hringing'
    | injected hinjected => simp [hinjected] at hringing'
  rcases heffect.of_mem hr₁' with ⟨r₁, hr₁, hsame₁, hbecame₁⟩ | ⟨hid₁, hinserted₁⟩ <;>
    rcases heffect.of_mem hr₂' with ⟨r₂, hr₂, hsame₂, hbecame₂⟩ | ⟨hid₂, hinserted₂⟩
  · have heq : r₁ = r₂ := halone r₁ hr₁ r₂ hr₂
      (hsame₁.userId.symm.trans (huser.trans hsame₂.userId)) (hbecame₁.of_ringing hringing₁)
      (hbecame₂.of_ringing hringing₂) (by rw [← hsame₁.expiresAt]; omega)
      (by rw [← hsame₂.expiresAt]; omega)
    exact Rows.eq_of_id hr₁' hr₂' (hsame₁.id.trans (heq ▸ hsame₂.id.symm))
  · exact absurd (hsame₁.expiresAt ▸ hlive₁) (hopen r₂' r₁ hinserted₂ hringing₂ hr₁
      (hsame₁.userId.symm.trans huser) (hbecame₁.of_ringing hringing₁))
  · exact absurd (hsame₂.expiresAt ▸ hlive₂) (hopen r₁' r₂ hinserted₁ hringing₁ hr₂
      (hsame₂.userId.symm.trans huser.symm) (hbecame₂.of_ringing hringing₂))
  · exact Rows.eq_of_id hr₁' hr₂' (hid₁.trans hid₂.symm)

/-- The step lemma: every write keeps the machine. -/
theorem Machine.run (hmachine : Machine h db) (hneed : need .all (h, db) (.write w)) :
    Machine (h ++ (w.run db).2.1) (w.run db).2.2 := by
  have heffect := effect_run db (allowed_of_need hneed)
  refine ⟨hmachine.alone.run hneed, fun r' hr' hstate => ?_, fun r' hr' hanswered => ?_,
    ⟨hmachine.positive.1.trans_le heffect.nextId_le, fun r' hr' => ?_⟩, fun n hn id hends => ?_,
    ?_, fun id session hclaimed => ?_⟩
  · rcases heffect.of_mem hr' with ⟨r, hr, hsame, hbecame⟩ | ⟨-, hinserted⟩
    · rw [hsame.parentCallId]
      refine hmachine.top r hr ?_
      cases hbecame <;> simp_all
    · cases hinserted <;> simp_all
  · rcases heffect.of_mem hr' with ⟨r, hr, hsame, hbecame⟩ | ⟨-, hinserted⟩
    · rw [hsame.userId]
      cases hbecame with
      | kept hstate _ => exact hmachine.owner r hr (hstate.symm.trans hanswered)
      | answered session hringing _ _ htook =>
        obtain ⟨userId, now, rfl, r₀, hr₀, hp⟩ := (noteOf_run htook).took_claim
        obtain ⟨hid, huser, -⟩ := Db.of_ringingFor hp
        have huser₀ : 0 < userId := hneed
        rw [← Rows.eq_of_id hr₀ hr hid, huser]
        exact huser₀
      | _ => simp_all
    · cases hinserted <;> simp_all
  · rcases heffect.of_mem hr' with ⟨r, hr, hsame, -⟩ | ⟨hid, -⟩
    · exact hsame.id ▸ hmachine.positive.2 r hr
    · exact hid ▸ hmachine.positive.1
  · rcases List.mem_append.1 hn with hn | hn
    · obtain ⟨hlt, hover⟩ := hmachine.ended n hn id hends
      refine ⟨hlt.trans_le heffect.nextId_le, fun r' hr' hid hringing => ?_⟩
      rcases heffect.of_mem hr' with ⟨r, hr, hsame, hbecame⟩ | ⟨hid', -⟩
      · exact hover r hr (hsame.id.symm.trans hid) (hbecame.of_ringing hringing)
      · omega
    · obtain ⟨r, hr, hid, -⟩ := (noteOf_run hn).ringing hends
      refine ⟨?_, fun r' hr' hid' => not_ringing_of_ends hn hends hr' hid'⟩
      exact (hid ▸ Rows.id_lt hr).trans_le heffect.nextId_le
  · refine List.pairwise_append.2 ⟨hmachine.once, pairwise_ends db w, ?_⟩
    intro n hn n' hn' id hends hends'
    obtain ⟨r, hr, hid, hringing⟩ := (noteOf_run hn').ringing hends'
    exact (hmachine.ended n hn id hends).2 r hr hid hringing
  · rcases List.mem_append.1 hclaimed with hclaimed | hclaimed
    · exact List.mem_append_left _ (hmachine.claimed id session hclaimed)
    · cases noteOf_run hclaimed

/-- The notes of a request leave the machine as it is. -/
theorem Machine.note (hmachine : Machine h db) {n : Note} (hneed : need .all (h, db) (.note n)) :
    Machine (h ++ [n]) db := by
  have hends : ∀ id, n.ends ≠ some id := by
    intro id hends
    cases n <;> first | exact hneed.elim | cases hends
  refine ⟨hmachine.alone, hmachine.top, hmachine.owner, hmachine.positive, fun n' hn' id hid => ?_,
    ?_, fun id session hclaimed => ?_⟩
  · rcases List.mem_append.1 hn' with hn' | hn'
    · exact hmachine.ended n' hn' id hid
    · obtain rfl := List.mem_singleton.1 hn'
      exact absurd hid (hends id)
  · refine List.pairwise_append.2 ⟨hmachine.once, List.pairwise_singleton _ _, ?_⟩
    intro _ _ n' hn' id _ hid
    obtain rfl := List.mem_singleton.1 hn'
    exact hends id hid
  · rcases List.mem_append.1 hclaimed with hclaimed | hclaimed
    · exact List.mem_append_left _ (hmachine.claimed id session hclaimed)
    · obtain rfl := List.mem_singleton.1 hclaimed
      exact List.mem_append_left _ hneed

end Step

/-- Two notes that end one call are one note. -/
theorem Machine.eq_of_ends {h : List Note} {db : Db} (hmachine : Machine h db) {n n' : Note}
    (hn : n ∈ h) (hn' : n' ∈ h) {id : ℕ} (hends : n.ends = some id) (hends' : n'.ends = some id) :
    n = n' := by
  by_contra hne
  have : Std.Symm fun n n' : Note => ∀ id, n.ends = some id → n'.ends ≠ some id :=
    ⟨fun n n' hnot id hid' hid => hnot id hid hid'⟩
  exact hmachine.once.forall hn hn' hne id hends hends'

/-- What a claim does from the row it read when its session has the call: it writes nothing, and
answers with `Claimed` again. -/
theorem CallEngine.claim_repeated (e : CallEngine) {request : CallEngine.CallClaimRequest}
    {r : CallRow} (hid : 0 < request.callId) (huser : r.userId = request.userId)
    (hpositive : 0 < r.userId) (htop : r.parentCallId = 0) (hanswered : r.state = .answered)
    (hsession : r.answeredSession = request.sessionId) (hnonempty : request.sessionId ≠ "") :
    ∃ next, e.claim request = .await (.read (.findById request.callId)) next ∧
      next (some (some r)) = (do
        let _ ← read .clock
        CallEngine.answerClaim request { status := .claimed, openingLine := r.openingLine }) := by
  have hrequest : ¬(request.callId = 0 ∨ request.userId ≤ 0) := by omega
  have hmine : ¬(r.userId ≠ request.userId ∨ r.parentCallId ≠ 0 ∨ r.state = .injected ∨
      r.state = .queued) := by simp [huser, htop, hanswered]
  have hanswer : ∀ now, CallEngine.claimAnswer request r now =
      some { status := .claimed, openingLine := r.openingLine } := by
    intro now
    simp [CallEngine.claimAnswer, hanswered, hsession, hnonempty]
  simp only [CallEngine.claim, if_neg hrequest]
  refine ⟨_, rfl, ?_⟩
  change (if _ then _ else _) = _
  rw [if_neg hmine]
  change (Task.call _ >>= _) = (Task.call _ >>= _)
  congr 1
  funext now
  rw [hanswer now]

section Runs

variable {e : CallEngine} {clock : ℤ} {h : List Note} {p : Pool Db Op Op.Ans}

theorem machine_of_run (hclock : 0 < clock) (hrun : Run (Step e) (start clock) h p) :
    Machine h p.shared := by
  refine (invariant_of_run (J := Machine) hclock hrun (fun _ _ => trivial) ?_ ?_ ?_).1
  · have hnone : ∀ r : CallRow, r ∉ (Rows.empty : Calls) := fun r => List.not_mem_nil
    refine ⟨fun r hr => absurd hr (hnone r), fun r hr => absurd hr (hnone r),
      fun r hr => absurd hr (hnone r), ⟨Nat.one_pos, fun r hr => absurd hr (hnone r)⟩, ?_,
      List.Pairwise.nil, ?_⟩
    · exact fun n hn => absurd hn List.not_mem_nil
    · exact fun id session hn => absurd hn List.not_mem_nil
  · exact fun h db m w _ hneed _ hmachine => hmachine.run hneed
  · exact fun h db m n _ hneed _ hmachine => hmachine.note hneed

/-- **The row machine** of the call table. -/
theorem calls_keep_machine (hclock : 0 < clock) (hrun : Run (Step e) (start clock) h p) :
    RingsAlone p.shared ∧
      (∀ notes p', Step e p notes p' → ∀ r ∈ p.shared.calls,
        (∀ r' ∈ p'.shared.calls, r'.id = r.id →
          r'.state = r.state ∨ moves r.state r'.state = true) ∧
        ((∃ r' ∈ p'.shared.calls, r'.id = r.id) ∨ isOver r = true)) ∧
      (∀ id session session', .claimed id session ∈ h → .claimed id session' ∈ h →
        session = session') ∧
      (∀ id session, .claimed id session ∈ h → session ≠ "" →
        ∀ r ∈ p.shared.calls, r.id = id → r.state = .answered →
        ∃ next, e.claim { callId := id, userId := r.userId, sessionId := session } =
            .await (.read (.findById id)) next ∧
          next (some (some r)) = (do
            let _ ← read .clock
            CallEngine.answerClaim { callId := id, userId := r.userId, sessionId := session }
              { status := .claimed, openingLine := r.openingLine })) ∧
      (∀ id session, .claimed id session ∈ h → ∀ n ∈ h, n.ends = some id →
        n = .took id session) ∧
      ∀ r ∈ p.shared.calls, ∀ r' ∈ p.shared.calls, r.dedupeKey = r'.dedupeKey →
        r.userId = r'.userId → r = r' := by
  have hmachine := machine_of_run hclock hrun
  -- one note ends a call, and for a claimed one it is the claim
  have htook : ∀ id session, .claimed id session ∈ h → ∀ n ∈ h, n.ends = some id →
      n = .took id session := fun id session hclaimed n hn hends =>
    hmachine.eq_of_ends hn (hmachine.claimed id session hclaimed) hends rfl
  refine ⟨hmachine.alone, fun notes p' hstep r hr => ?_, fun id session session' hclaimed hclaimed' => ?_,
    fun id session hclaimed hnonempty r hr hid hanswered => ?_, htook,
    fun r hr r' hr' hkey huser => ?_⟩
  · rcases write_of_step hclock hrun hstep with ⟨hsame, -⟩ | ⟨w, hneed, -, hshared⟩
    · rw [hsame]
      exact ⟨fun r' hr' hid => .inl (by rw [Rows.eq_of_id hr' hr hid]), .inl ⟨r, hr, rfl⟩⟩
    · rw [hshared]
      have heffect := effect_run p.shared (allowed_of_need hneed)
      refine ⟨fun r' hr' hid => ?_, (heffect.mem hr).imp (fun ⟨r', hr', hsame, _⟩ =>
        ⟨r', hr', hsame.id⟩) id⟩
      rcases heffect.of_mem hr' with ⟨r₀, hr₀, hsame, hbecame⟩ | ⟨hid', -⟩
      · obtain rfl := Rows.eq_of_id hr₀ hr (hsame.id.symm.trans hid)
        exact hbecame.moves
      · exact absurd (hid.symm.trans hid') (Nat.ne_of_lt (Rows.id_lt hr))
  · have heq := htook id session hclaimed _ (hmachine.claimed id session' hclaimed') rfl
    cases heq
    rfl
  · -- the repeated claim reads the row that is answered
    obtain ⟨m, -, hsettled⟩ := settled_of_run hclock hrun
    have hsession := htook id session hclaimed _ (hid ▸ hsettled.took r hr hanswered) rfl
    exact e.claim_repeated (hid ▸ hmachine.positive.2 r hr) rfl (hmachine.owner r hr hanswered)
      (hmachine.top r hr (.inr hanswered)) hanswered (Note.took.inj hsession).2 hnonempty
  · exact Rows.eq_of_key hr hr' (by rw [CallRow.key, CallRow.key, hkey, huser])

/-- A call is claimed by one phone of two. -/
theorem calls_keep_machine_race : ∃ h p, Run (Step plainEngine) (start 100) h p ∧
    .claimed 1 "phone" ∈ h ∧ ∀ session, .claimed 1 session ∈ h → session = "phone" := by
  obtain ⟨h, p, hrun, hnotes⟩ := exists_run plainEngine 100
    (requested (.considerNotification (guardData "a" "time_sensitive") [7]) 0 9 ++
      [.spawn (.claim { callId := 1, userId := 7, sessionId := "tablet" })] ++
      List.replicate 2 (.run 1 {}) ++
      requested (.claim { callId := 1, userId := 7, sessionId := "phone" }) 2 6 ++
      List.replicate 2 (.run 1 {}))
    (fun _ h => decide (h = [.rang 1 7 "a", .took 1 "phone", .claimed 1 "phone"]))
    (by decide +kernel)
  obtain rfl := of_decide_eq_true hnotes
  refine ⟨_, p, hrun, by simp, fun session hsession => ?_⟩
  exact (calls_keep_machine (by decide) hrun).2.2.1 1 session "phone" hsession (by simp)

/-- Once a call is over, a repeat of the session that claimed it is answered with `Taken`. -/
theorem claim_not_repeated : ¬∀ (e : CallEngine) (clock : ℤ) (h : List Note)
    (p : Pool Db Op Op.Ans) (request : CallEngine.CallClaimRequest) (env : Env), 0 < clock →
    Run (Step e) (start clock) h p → p.quiet = true → .claimed request.callId request.sessionId ∈ h →
    (∃ r ∈ p.shared.calls, r.id = request.callId ∧ r.userId = request.userId) →
    ((e.claim request).alone exec env p.shared).1.any (fun outcome => outcome.status = .claimed) =
      true := by
  intro hall
  obtain ⟨h, p, hrun, hend⟩ := exists_run plainEngine 100
    (requested (.considerNotification (guardData "a" "time_sensitive") [7]) 0 9 ++
      requested (.claim { callId := 1, userId := 7, sessionId := "phone" }) 1 6 ++
      requested
        (.end_ { callId := 1, userId := 7, outcome := .completed, sessionId := "phone" }) 2 5)
    (fun p h => p.quiet && decide (.claimed 1 "phone" ∈ h) &&
      p.shared.calls.rows.any (fun r => r.id = 1 ∧ r.userId = 7) &&
      !((plainEngine.claim { callId := 1, userId := 7, sessionId := "phone" }).alone exec {}
        p.shared).1.any fun outcome => outcome.status = .claimed)
    (by decide +kernel)
  simp only [Bool.and_eq_true, Bool.not_eq_true', List.any_eq_true, decide_eq_true_eq] at hend
  obtain ⟨⟨⟨hquiet, hclaimed⟩, r, hr, hid⟩, hrefused⟩ := hend
  have := hall plainEngine 100 h p { callId := 1, userId := 7, sessionId := "phone" } {} (by decide)
    hrun hquiet hclaimed ⟨r, hr, hid⟩
  rw [hrefused] at this
  cases this

end Runs

end Call

end ArgusBackend
