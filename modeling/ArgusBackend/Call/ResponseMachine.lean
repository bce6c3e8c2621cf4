import ArgusBackend.Call.Requests

/-!
# The state machine of a response

What every interleaving keeps of the rows of the response table and of their members.

* `responses_keep_machine` : closed responses stay closed, a confirmed one is only dismissed or
  expires, an attended one does not go back; the responder is set once; steps grow by one, below
  their number, and one sweep enters each; `reach` hands each member over at most once.
-/

namespace ArgusBackend

namespace Call

section Step

variable {h : List Note} {db : Db} {m : Multiset Credit} {w : Write}

/-- The notes that a member was reached or a step entered. -/
def Note.progresses : Note → Bool
  | .reached _ _ | .entered _ _ => true
  | _ => false

/-- What every run keeps of the members reached and of the steps entered. -/
structure Progress (h : List Note) (db : Db) : Prop where
  owned : ∀ m ∈ db.members, m.responseId < db.responses.nextId
  reached : ∀ response userId, .reached response userId ∈ h → response < db.responses.nextId ∧
    ∀ m ∈ db.members, m.responseId = response → m.userId = userId → m.reachedAt ≠ 0
  entered : ∀ id step, .entered id step ∈ h → id < db.responses.nextId ∧
    ∀ r ∈ db.responses, r.id = id → step ≤ r.step
  once : h.Pairwise fun n n' => n.progresses = true → n ≠ n'

/-- One write leaves one such note at most. -/
theorem pairwise_progress (w : Write) :
    (w.run db).2.1.Pairwise fun n n' => n.progresses = true → n ≠ n' := by
  by_cases hmarks : ∃ n ∈ (w.run db).2.1, n.progresses = true
  · obtain ⟨n, hn, hprogress⟩ := hmarks
    cases noteOf_run hn with
    | reached m _ _ _ _ =>
      simp only [Write.run]
      split
      · exact List.pairwise_singleton _ _
      · exact List.Pairwise.nil
    | entered r _ _ _ _ =>
      simp only [Write.run]
      split
      · exact List.pairwise_singleton _ _
      · exact List.Pairwise.nil
    | _ => cases hprogress
  · refine List.pairwise_of_forall_mem_list fun n hn n' _ hprogress => ?_
    exact absurd ⟨n, hn, hprogress⟩ hmarks

/-- A member marked reached stays so. -/
theorem reached_of_run {response : ℕ} {userId : ℤ} (hneed : need .all (h, db) (.write w))
    (hn : .reached response userId ∈ (w.run db).2.1) {m : CallResponseMember}
    (hm : m ∈ (w.run db).2.2.members) (hresponse : m.responseId = response)
    (huser : m.userId = userId) : m.reachedAt ≠ 0 := by
  cases noteOf_run hn with
  | @reached _ _ now m₀ _ _ _ _ =>
    have hnow : 0 < now := hneed
    obtain ⟨m₁, hm₁, rfl⟩ := List.mem_map.1 hm
    split_ifs at hresponse huser ⊢ with hp
    · exact hnow.ne'
    · intro hzero
      exact hp (by simp [hresponse, huser, hzero])

/-- A step entered is the step of its response. -/
theorem entered_of_run {id step : ℕ} (hn : .entered id step ∈ (w.run db).2.1) {r' : ResponseRow}
    (hr' : r' ∈ (w.run db).2.2.responses) (hid : r'.id = id) : r'.step = step := by
  cases noteOf_run hn with
  | entered r hr hid₀ hactive hfrom =>
    rcases (Rows.mem_of_rows rfl).1 hr' with ⟨r₀, -, -, rfl⟩ | ⟨hold, hnot⟩
    · rfl
    · obtain rfl := Rows.eq_of_id hold hr (hid.trans hid₀.symm)
      simp [hid, hactive, hfrom] at hnot

/-- The step lemma: every write keeps the progress. -/
theorem Progress.run (hprogress : Progress h db) (hneed : need .all (h, db) (.write w)) :
    Progress (h ++ (w.run db).2.1) (w.run db).2.2 := by
  have hnext : db.responses.nextId ≤ (w.run db).2.2.responses.nextId := nextId_run w
  refine ⟨fun m' hm' => ?_, fun response userId hn => ?_, fun id step hn => ?_, ?_⟩
  · rcases member_run w hm' with ⟨m, hm, hkept⟩ | ⟨hnew, hlt, -⟩
    · have := hprogress.owned m hm
      have := hkept.responseId
      omega
    · omega
  · rcases List.mem_append.1 hn with hn | hn
    · obtain ⟨hlt, hreached⟩ := hprogress.reached response userId hn
      refine ⟨hlt.trans_le hnext, fun m' hm' hresponse huser => ?_⟩
      rcases member_run w hm' with ⟨m, hm, hkept⟩ | ⟨hnew, -⟩
      · exact hkept.reached
          (hreached m hm (hkept.responseId.trans hresponse) (hkept.userId.trans huser))
      · omega
    · refine ⟨?_, fun m hm => reached_of_run hneed hn hm⟩
      cases noteOf_run hn with
      | reached m hm hresponse _ _ =>
        have := hprogress.owned m hm
        omega
  · rcases List.mem_append.1 hn with hn | hn
    · obtain ⟨hlt, hentered⟩ := hprogress.entered id step hn
      refine ⟨hlt.trans_le hnext, fun r' hr' hid => ?_⟩
      rcases evolved_run (climbs_of_need hneed) hr' with ⟨r, hr, hevolved⟩ | ⟨hnew, -⟩
      · have := hentered r hr (hevolved.id.symm.trans hid)
        exact this.trans hevolved.le_step
      · omega
    · refine ⟨?_, fun r' hr' hid => (entered_of_run hn hr' hid).ge⟩
      cases noteOf_run hn with
      | entered r hr hid _ _ => exact (hid ▸ Rows.id_lt hr).trans_le hnext
  · refine List.pairwise_append.2 ⟨hprogress.once, pairwise_progress w, ?_⟩
    rintro n hn _ hn' hmarks rfl
    have hnote := noteOf_run hn'
    cases hnote with
    | reached m hm hresponse huser hzero =>
      exact (hprogress.reached _ _ hn).2 m hm hresponse huser hzero
    | entered r hr hid _ hfrom =>
      have hstep := (hprogress.entered _ _ hn).2 r hr hid
      have := hneed.1
      omega
    | _ => cases hmarks

/-- The notes of a request are about no progress. -/
theorem Progress.note (hprogress : Progress h db) {n : Note} (hneed : need .all (h, db) (.note n)) :
    Progress (h ++ [n]) db := by
  have hother : n.progresses = false := by
    cases n <;> first | exact hneed.elim | rfl
  have hmem : ∀ n', n'.progresses = true → n' ∈ h ++ [n] → n' ∈ h := by
    intro n' hmarks hn'
    rcases List.mem_append.1 hn' with hn' | hn'
    · exact hn'
    · obtain rfl := List.mem_singleton.1 hn'
      simp [hother] at hmarks
  refine ⟨hprogress.owned, fun response userId hn => hprogress.reached _ _ (hmem _ rfl hn),
    fun id step hn => hprogress.entered _ _ (hmem _ rfl hn), ?_⟩
  refine List.pairwise_append.2 ⟨hprogress.once, List.pairwise_singleton _ _, ?_⟩
  rintro n' hn' _ hn hmarks rfl
  obtain rfl := List.mem_singleton.1 hn
  simp [hother] at hmarks

end Step

/-- Each step is entered once, and each member marked once. -/
theorem Progress.count_le_one {h : List Note} {db : Db} (hprogress : Progress h db) {n : Note}
    (hn : n.progresses = true) : h.count n ≤ 1 := by
  have honce := hprogress.once
  by_contra hlt
  obtain ⟨a, b, rfl⟩ := List.append_of_mem (List.count_pos_iff.1 (by omega : 0 < h.count n))
  rw [List.pairwise_append, List.pairwise_cons] at honce
  simp only [List.count_append, List.count_cons_self, not_le] at hlt
  rcases Nat.eq_zero_or_pos (a.count n) with hzero | hpos
  · exact honce.2.1.1 n (List.count_pos_iff.1 (by omega)) hn rfl
  · exact honce.2.2 n (List.count_pos_iff.1 hpos) n List.mem_cons_self hn rfl

section Runs

variable {e : CallEngine} {clock : ℤ} {h : List Note} {p : Pool Db Op Op.Ans}

theorem progress_of_run (hclock : 0 < clock) (hrun : Run (Step e) (start clock) h p) :
    Progress h p.shared ∧ ∃ m, Held m ∧ Settled h p.shared m := by
  refine invariant_of_run (J := Progress) hclock hrun (fun _ _ => trivial) ⟨?_, ?_, ?_, ?_⟩ ?_ ?_
  · exact fun m hm => absurd hm List.not_mem_nil
  · exact fun _ _ hn => absurd hn List.not_mem_nil
  · exact fun _ _ hn => absurd hn List.not_mem_nil
  · exact List.Pairwise.nil
  · exact fun h db m w _ hneed _ hprogress => hprogress.run hneed
  · exact fun h db m n _ hneed _ hprogress => hprogress.note hneed

/-- **The response machine**: what a step does to a response, and how often steps are entered and
members handed over. -/
theorem responses_keep_machine (hclock : 0 < clock) (hrun : Run (Step e) (start clock) h p) :
    (∀ notes p', Step e p notes p' →
      ∀ r ∈ p.shared.responses, ∀ r' ∈ p'.shared.responses, r'.id = r.id →
        (r.state = .falseAlarm ∨ r.state = .expired → r'.state = r.state) ∧
        (r.state = .confirmed →
          r'.state = .confirmed ∨ r'.state = .falseAlarm ∨ r'.state = .expired) ∧
        (r.state = .attended → r'.state ≠ .active ∧ r'.state ≠ .unanswered) ∧
        (r.responderId ≠ 0 → r'.responderId = r.responderId) ∧
        (r'.step = r.step ∨ (r'.step = r.step + 1 ∧ r'.step < r'.stepCount))) ∧
      (∀ id step, h.count (.entered id step) ≤ 1) ∧
      ∀ response userId, h.count (.handed response userId) ≤ 1 := by
  obtain ⟨hprogress, m, -, hsettled⟩ := progress_of_run hclock hrun
  refine ⟨fun notes p' hstep r hr r' hr' hid => ?_,
    fun id step => hprogress.count_le_one rfl, fun response userId => ?_⟩
  · have hevolved : ∃ notes, Evolved notes r r' := by
      rcases write_of_step hclock hrun hstep with ⟨hsame, -⟩ | ⟨w, hneed, -, hshared⟩
      · rw [hsame] at hr'
        exact ⟨[], Rows.eq_of_id hr' hr hid ▸ Evolved.refl _ r'⟩
      · rw [hshared] at hr'
        rcases evolved_run (climbs_of_need hneed) hr' with ⟨r₀, hr₀, hevolved⟩ | ⟨hnew, -⟩
        · exact ⟨_, Rows.eq_of_id hr₀ hr (hevolved.id.symm.trans hid) ▸ hevolved⟩
        · exact absurd (hid.symm.trans hnew) (Nat.ne_of_lt (Rows.id_lt hr))
    obtain ⟨_, hevolved⟩ := hevolved
    refine ⟨fun hclosed => ?_, fun hconfirmed => ?_, fun hattended => ?_, hevolved.responder,
      hevolved.step.imp_right fun hstep => ⟨hstep.1, hstep.2.1⟩⟩
    · refine hevolved.state.resolve_right ?_
      rcases hclosed with hclosed | hclosed <;> simp [hclosed, responseMoves]
    · rcases hevolved.state with hstate | hmoves
      · exact .inl (hstate.trans hconfirmed)
      · cases hstate : r'.state <;> simp_all [responseMoves]
    · rcases hevolved.state with hstate | hmoves
      · simp [hstate, hattended]
      · cases hstate : r'.state <;> simp_all [responseMoves]
  · -- what is handed over was marked, and a member is marked once
    have hbalance := congrArg (Multiset.count (.hand response userId)) hsettled.balance
    rw [Multiset.count_add, count_gained_hand, count_spent_hand] at hbalance
    have := hprogress.count_le_one (n := .reached response userId) rfl
    omega

/-- The second user of a ladder is handed over once. -/
theorem responses_keep_machine_ladder : ∃ h p, Run (Step plainEngine) (start 100) h p ∧
    .handed 1 8 ∈ h ∧ h.count (.handed 1 8) ≤ 1 := by
  obtain ⟨h, p, hrun, hnotes⟩ := exists_run plainEngine 100
    (requested (.respond { data := guardData "a" "critical", userIds := [7],
                           plan := some (ladder [7, 8]) }) 0 17 ++
      requested (.tick 40) 1 1 ++ requested .sweep 2 30)
    (fun _ h => decide (.handed 1 8 ∈ h)) (by decide +kernel)
  exact ⟨h, p, hrun, of_decide_eq_true hnotes, (responses_keep_machine (by decide) hrun).2.2 1 8⟩

end Runs

end Call

end ArgusBackend
