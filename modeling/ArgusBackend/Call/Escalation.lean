import ArgusBackend.Call.ResponseMachine

/-!
# An escalation reaches everyone

A response becomes unanswered when a sweep finds its last step past its deadline.

* `escalation_reaches_everyone` : if every request that began to reach members came to its end, and
  a `respond` reached the members of step 0, then all members are marked reached and were handed to
  `consider` by then;
* `escalation_skips` : a sweep that dies after it entered a step leaves the members of the step out.
-/

namespace ArgusBackend

namespace Call

/-- What every run keeps of the members of a response and of the steps they are reached in. -/
structure Ladder (h : List Note) (db : Db) : Prop where
  owned : ∀ m ∈ db.members, m.responseId < db.responses.nextId ∧
    ∀ r ∈ db.responses, r.id = m.responseId → m.step < r.stepCount
  noted : ∀ m ∈ db.members, m.reachedAt ≠ 0 → .reached m.responseId m.userId ∈ h
  entered : ∀ r ∈ db.responses, ∀ step, 0 < step → step ≤ r.step → .entered r.id step ∈ h
  escalated : ∀ id step, .escalated id step ∈ h → StepReached (h, db) id step
  responded : ∀ id userIds, .responded id userIds ∈ h → ∀ userId ∈ userIds,
    Marked (h, db) id userId

section Step

variable {h : List Note} {db : Db} {w : Write}

/-- The step lemma: every write keeps the ladder. -/
theorem Ladder.run (hladder : Ladder h db) (hneed : need .all (h, db) (.write w)) :
    Ladder (h ++ (w.run db).2.1) (w.run db).2.2 := by
  have hlater : Later (h, db) (h ++ (w.run db).2.1, (w.run db).2.2) :=
    (later_exec hneed {} :)
  refine ⟨fun m' hm' => ?_, fun m' hm' hreached => ?_, fun r' hr' step hpos hle => ?_,
    fun id step hn => ?_, fun id userIds hn => ?_⟩
  · rcases member_run w hm' with ⟨m, hm, hkept⟩ | ⟨hnew, hlt, hjoined⟩
    · obtain ⟨hlt, hstep⟩ := hladder.owned m hm
      rw [← hkept.responseId, ← hkept.step]
      refine ⟨hlt.trans_le hlater.lasting.nextId, fun r' hr' hid => ?_⟩
      rcases evolved_run (climbs_of_need hneed) hr' with ⟨r, hr, hevolved⟩ | ⟨hnew, -⟩
      · rw [hevolved.stepCount]
        exact hstep r hr (hevolved.id.symm.trans hid)
      · omega
    · -- a new member came with its response, whose step count is known
      refine ⟨by omega, fun r' hr' hid => ?_⟩
      obtain ⟨input, members, rfl, member, hmember, -, hstep⟩ := hjoined.write
      rcases evolved_run (climbs_of_need hneed) hr' with ⟨r, hr, hevolved⟩ | ⟨-, hopened⟩
      · have := Rows.id_lt hr
        have := hevolved.id
        omega
      · obtain ⟨input', members', heq, -, -, hcount⟩ := hopened.write
        cases heq
        rw [hcount, ← hstep]
        exact hneed.2 member hmember
  · rcases member_run w hm' with ⟨m, hm, hkept⟩ | ⟨-, -, hjoined⟩
    · rcases hkept.noted hreached with hwas | hnow
      · rw [← hkept.responseId, ← hkept.userId]
        exact List.mem_append_left _ (hladder.noted m hm hwas)
      · exact List.mem_append_right _ hnow
    · exact absurd hjoined.reached hreached
  · rcases evolved_run (climbs_of_need hneed) hr' with ⟨r, hr, hevolved⟩ | ⟨-, hopened⟩
    · -- a step that was just entered was noted, the earlier ones were before
      rcases hevolved.step with hsame | ⟨hnext, -, hnoted⟩
      · rw [hevolved.id]
        exact List.mem_append_left _ (hladder.entered r hr step hpos (by omega))
      · rcases Nat.lt_or_ge r.step step with hlt | hge
        · obtain rfl : step = r'.step := by omega
          exact List.mem_append_right _ hnoted
        · rw [hevolved.id]
          exact List.mem_append_left _ (hladder.entered r hr step hpos hge)
    · have := hopened.step
      omega
  · rcases List.mem_append.1 hn with hn | hn
    · exact (hladder.escalated id step hn).later hlater
    · cases noteOf_run hn
  · rcases List.mem_append.1 hn with hn | hn
    · exact fun userId huser => (hladder.responded id userIds hn userId huser).later hlater
    · cases noteOf_run hn

/-- The notes of a request say what it has reached. -/
theorem Ladder.note (hladder : Ladder h db) {n : Note} (hneed : need .all (h, db) (.note n)) :
    Ladder (h ++ [n]) db := by
  have hlater : Later (h, db) (h ++ [n], db) := (later_exec hneed {} :)
  refine ⟨hladder.owned, fun m hm hreached => ?_, fun r hr step hpos hle => ?_,
    fun id step hn => ?_, fun id userIds hn => ?_⟩
  · exact List.mem_append_left _ (hladder.noted m hm hreached)
  · exact List.mem_append_left _ (hladder.entered r hr step hpos hle)
  · rcases List.mem_append.1 hn with hn | hn
    · exact (hladder.escalated id step hn).later hlater
    · obtain rfl := List.mem_singleton.1 hn
      exact StepReached.later hneed hlater
  · rcases List.mem_append.1 hn with hn | hn
    · exact fun userId huser => (hladder.responded id userIds hn userId huser).later hlater
    · obtain rfl := List.mem_singleton.1 hn
      exact fun userId huser => (hneed userId huser).later hlater

/-- A response becomes unanswered in its last step. -/
theorem NoteOf.unanswered_step {id : ℕ} (hn : NoteOf db w (.unanswered id))
    (hneed : need .all (h, db) (.write w)) :
    ∃ r ∈ db.responses, r.id = id ∧ r.stepCount ≤ r.step + 1 ∧
      (w.run db).2.2.members = db.members := by
  cases hn with
  | unanswered r hr hid hactive =>
    obtain ⟨r₀, hcopy, hid₀, hle⟩ := hneed
    obtain ⟨hcount, -, hstep⟩ := hcopy.same r hr (hid.trans hid₀.symm)
    exact ⟨r, hr, hid, by omega, rfl⟩

end Step

section Runs

variable {e : CallEngine} {clock : ℤ} {h notes : List Note} {p p' : Pool Db Op Op.Ans}

theorem ladder_of_run (hclock : 0 < clock) (hrun : Run (Step e) (start clock) h p) :
    Ladder h p.shared ∧ ∃ m, Held m ∧ Settled h p.shared m := by
  refine invariant_of_run (J := Ladder) hclock hrun (fun _ _ => trivial) ⟨?_, ?_, ?_, ?_, ?_⟩ ?_ ?_
  · exact fun m hm => absurd hm List.not_mem_nil
  · exact fun m hm => absurd hm List.not_mem_nil
  · exact fun r hr => absurd hr List.not_mem_nil
  · exact fun _ _ hn => absurd hn List.not_mem_nil
  · exact fun _ _ hn => absurd hn List.not_mem_nil
  · exact fun h db m w _ hneed _ hladder => hladder.run hneed
  · exact fun h db m n _ hneed _ hladder => hladder.note hneed

/-- Once every request that began to reach members of a response has come to its end, the members
it marked were handed over. -/
theorem Settled.handed {db : Db} {m : Multiset Credit} {id : ℕ} {userId : ℤ}
    (hsettled : Settled h db m) (hheld : Held m)
    (hended : h.countP (Note.begins id) = h.countP (Note.finishes id))
    (hreached : .reached id userId ∈ h) : .handed id userId ∈ h ∨ .called id userId ∈ h := by
  have hserve := congrArg (Multiset.count (.serve id)) hsettled.balance
  rw [Multiset.count_add, count_gained_serve, count_spent_serve] at hserve
  have hnone : Credit.serve id ∉ m := Multiset.count_eq_zero.1 (by omega)
  have hhand : m.count (.hand id userId) = 0 :=
    Multiset.count_eq_zero.2 fun hmem => hnone (hheld id userId hmem)
  have hbalance := congrArg (Multiset.count (.hand id userId)) hsettled.balance
  rw [Multiset.count_add, count_gained_hand, count_spent_hand] at hbalance
  have hpos : 0 < h.count (.reached id userId) := List.count_pos_iff.2 hreached
  rcases Nat.eq_zero_or_pos (h.count (.handed id userId)) with hzero | hhanded
  · exact .inr (List.count_pos_iff.1 (by omega))
  · exact .inl (List.count_pos_iff.1 hhanded)

/-- **Escalation reaches everyone**, if every request that began to reach members of the response
came to its end, every sweep that entered a step among them, and a `respond` whose recipients
are the members of step 0. -/
theorem escalation_reaches_everyone (hclock : 0 < clock)
    (hrun : Run (Step e) (start clock) h p) (hstep : Step e p notes p') {id : ℕ}
    (hunanswered : .unanswered id ∈ notes)
    (hended : h.countP (Note.begins id) = h.countP (Note.finishes id))
    (hescalated : ∀ step, .entered id step ∈ h → .escalated id step ∈ h)
    (hresponded : ∃ userIds, .responded id userIds ∈ h ∧
      ∀ m ∈ p.shared.members, m.responseId = id → m.step = 0 → m.userId ∈ userIds) :
    ∀ m ∈ p'.shared.members, m.responseId = id →
      m.reachedAt ≠ 0 ∧ (.handed id m.userId ∈ h ∨ .called id m.userId ∈ h) := by
  obtain ⟨hladder, credits, hheld, hsettled⟩ := ladder_of_run hclock hrun
  rcases write_of_step hclock hrun hstep with ⟨-, hneed⟩ | ⟨w, hneed, rfl, hshared⟩
  · exact (hneed _ hunanswered).elim
  obtain ⟨r, hr, hid, hlast, hmembers⟩ := (noteOf_run hunanswered).unanswered_step hneed
  rw [hshared, hmembers]
  intro member hmember hresponse
  have hbelow := (hladder.owned member hmember).2 r hr (hid.trans hresponse.symm)
  have hreached : member.reachedAt ≠ 0 := by
    rcases Nat.eq_zero_or_pos member.step with hzero | hpos
    · obtain ⟨userIds, hn, hrecipients⟩ := hresponded
      exact (hladder.responded id userIds hn _ (hrecipients member hmember hresponse hzero)).2
        member hmember hresponse rfl
    · have hentered := hladder.entered r hr member.step hpos (by omega)
      exact (hladder.escalated id _ (hescalated _ (hid ▸ hentered))).2 member hmember hresponse rfl
  exact ⟨hreached, hsettled.handed hheld hended (hresponse ▸ hladder.noted member hmember hreached)⟩

/-- A ladder of two users runs to its end. -/
theorem escalation_reaches_everyone_ladder : ∃ p' : Pool Db Op Op.Ans,
    (p'.shared.members.map fun m => (m.responseId, m.userId, m.step)) = [(1, 7, 0), (1, 8, 1)] ∧
      ∀ m ∈ p'.shared.members, m.responseId = 1 → m.reachedAt ≠ 0 := by
  obtain ⟨h, p, hrun, hend⟩ := exists_run plainEngine 100
    (requested (.respond { data := guardData "a" "critical", userIds := [7],
                           plan := some (ladder [7, 8]) }) 0 20 ++
      requested (.tick 40) 1 1 ++ requested .sweep 2 31 ++ requested (.tick 40) 3 1 ++
      requested .sweep 4 10)
    (fun p h => decide (h = [.serving 1, .reached 1 7, .called 1 7, .rang 1 7 "a",
        .responded 1 [7], .entered 1 1, .reached 1 8, .handed 1 8, .rang 2 8 "a", .escalated 1 1,
        .missed 1]) &&
      p.shared.members.all (fun m => m.step = 0 → m.userId = 7) &&
      (Pool.act exec (program plainEngine) p (.run 4 {})).any
        fun r : Pool Db Op Op.Ans × List Note => decide (Note.unanswered 1 ∈ r.2 ∧
          (r.1.shared.members.map fun m => (m.responseId, m.userId, m.step)) =
            [(1, 7, 0), (1, 8, 1)]))
    (by decide +kernel)
  simp only [Bool.and_eq_true, Option.any_eq_true, List.all_eq_true, decide_eq_true_eq] at hend
  obtain ⟨⟨rfl, hfirst⟩, ⟨p', notes⟩, hact, hunanswered, hmembers⟩ := hend
  refine ⟨p', hmembers, fun m hm hid => ?_⟩
  refine (escalation_reaches_everyone (by decide) hrun ⟨_, hact⟩ hunanswered (by decide)
    (fun step hn => ?_) ⟨[7], by simp, fun m hm _ hzero => ?_⟩ m hm hid).1
  · simp at hn
    simp [hn]
  · simp [hfirst m hm hzero]

/-- A sweep that dies after it entered a step leaves the members of the step out. -/
theorem escalation_skips : ¬∀ (e : CallEngine) (clock : ℤ) (h notes : List Note)
    (p p' : Pool Db Op Op.Ans), 0 < clock → Run (Step e) (start clock) h p → Step e p notes p' →
    ∀ id, .unanswered id ∈ notes → ∀ m ∈ p'.shared.members, m.responseId = id →
      m.reachedAt ≠ 0 := by
  intro hall
  obtain ⟨h, p, hrun, hend⟩ := exists_run plainEngine 100
    (requested (.respond { data := guardData "a" "critical", userIds := [7],
                           plan := some (ladder [7, 8]) }) 0 20 ++
      requested (.tick 40) 1 1 ++ requested .sweep 2 8 ++ [.drop 2] ++
      requested (.tick 40) 2 1 ++ requested .sweep 3 9)
    (fun p _ => (Pool.act exec (program plainEngine) p (.run 3 {})).any
      fun r : Pool Db Op Op.Ans × List Note => decide (Note.unanswered 1 ∈ r.2) &&
        r.1.shared.members.any fun m => m.responseId = 1 ∧ m.reachedAt = 0)
    (by decide +kernel)
  simp only [Bool.and_eq_true, Option.any_eq_true, List.any_eq_true, decide_eq_true_eq] at hend
  obtain ⟨⟨p', notes⟩, hact, hunanswered, m, hm, hid, hreached⟩ := hend
  exact hall plainEngine 100 h notes p p' (by decide) hrun ⟨_, hact⟩ 1 hunanswered m hm hid hreached

end Runs

end Call

end ArgusBackend
