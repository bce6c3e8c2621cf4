import ArgusBackend.Call.Requests

/-!
# No orphaned follow-up

A call that comes in while another rings is queued under it, and is settled together with it.

* `followups_settled` : in a run whose follow-ups are attached to a ringing call and whose declined
  calls have none, every queued row has a ringing parent, and a follow-up that left the queue was
  injected by the claim of its parent or missed with it;
* `followup_orphaned` : declining a call leaves its follow-ups queued.
-/

namespace ArgusBackend

namespace Call

/-- What a run must meet: a follow-up is inserted while its parent rings, and a call that is
declined has no follow-up queued. -/
def Attached : Note → Prop
  | .queued _ _ parentRinging => parentRinging = true
  | .declined _ followups => followups = 0
  | _ => True

/-- Whether the parent of a row rings. -/
def ParentRings (db : Db) (r : CallRow) : Prop :=
  ∃ parent ∈ db.calls, parent.id = r.parentCallId ∧ parent.state = .ringing

/-- A follow-up waits, was injected by the claim of its parent, or was missed with it. -/
inductive FollowupOf (h : List Note) (parent : ℕ) (state : CallState) : Prop
  | waiting : state = .queued → FollowupOf h parent state
  | injected (session : String) : state = .injected ∨ state = .completed →
      .took parent session ∈ h → FollowupOf h parent state
  | missed : state = .missed → .missed parent ∈ h ∨ .cancelled parent ∈ h →
      FollowupOf h parent state

theorem FollowupOf.append {h notes : List Note} {parent : ℕ} {state : CallState}
    (hstate : FollowupOf h parent state) : FollowupOf (h ++ notes) parent state := by
  cases hstate with
  | waiting hqueued => exact .waiting hqueued
  | injected session hwas htook => exact .injected session hwas (List.mem_append_left _ htook)
  | missed hwas hended =>
    exact .missed hwas (hended.imp (List.mem_append_left _) (List.mem_append_left _))

theorem FollowupOf.became {h notes : List Note} {r r' : CallRow}
    (hstate : FollowupOf h r.parentCallId r.state) (hbecame : Became notes r r') :
    FollowupOf (h ++ notes) r.parentCallId r'.state := by
  cases hbecame with
  | kept hkept _ => exact hkept ▸ hstate.append
  | dropped _ hmissed hnote =>
    exact .missed hmissed (hnote.imp (List.mem_append_right _) (List.mem_append_right _))
  | injected session _ hinjected htook =>
    exact .injected session (.inl hinjected) (List.mem_append_right _ htook)
  | completed hwas hcompleted =>
    cases hstate with
    | injected session _ htook =>
      exact .injected session (.inr hcompleted) (List.mem_append_left _ htook)
    | waiting hqueued => simp [hqueued] at hwas
    | missed hmissed => simp [hmissed] at hwas
  | _ => cases hstate <;> simp_all

/-- The rows queued and what has become of them. -/
structure Chained (h : List Note) (db : Db) : Prop where
  parent : ∀ r ∈ db.calls, r.state = .queued → ParentRings db r
  known : ∀ id parent rang, .queued id parent rang ∈ h → id < db.calls.nextId
  followup : ∀ id parent rang, .queued id parent rang ∈ h → ∀ r ∈ db.calls, r.id = id →
    r.parentCallId = parent ∧ FollowupOf h parent r.state

/-- A decline counts the follow-ups. -/
theorem NoteOf.declined_eq {db : Db} {w : Write} {id followups : ℕ}
    (h : NoteOf db w (.declined id followups)) : followups = (db.followups id).length := by
  generalize hn : Note.declined id followups = n at h
  cases h with
  | declined =>
    obtain ⟨rfl, rfl⟩ : id = _ ∧ followups = _ := by simpa using hn
    rfl
  | _ => cases hn

/-- The row a queue note is about is the one just inserted. -/
theorem queued_run {db : Db} {row : CallCreateInput} {id parent : ℕ} {rang : Bool}
    (h : .queued id parent rang ∈ (Write.run db (.create row)).2.1) :
    id = db.calls.nextId ∧ id < (Write.run db (.create row)).2.2.calls.nextId ∧
      ∀ r ∈ (Write.run db (.create row)).2.2.calls, r.id = id →
        r.parentCallId = parent ∧ r.state = .queued := by
  simp only [Write.run] at h ⊢
  cases hinsert : db.calls.insert row.row (fun _ => rfl) with
  | none => simp [hinsert] at h
  | some inserted =>
    obtain ⟨r₀, calls⟩ := inserted
    obtain ⟨rfl, hnext, -, hmem⟩ := Rows.of_insert hinsert
    simp only [hinsert] at h ⊢
    split at h
    · rename_i hqueued
      obtain ⟨rfl, rfl, rfl⟩ : id = _ ∧ parent = _ ∧ rang = _ := by simpa using h
      refine ⟨rfl, by rw [hnext]; exact Nat.lt_succ_self _, fun r hr hid => ?_⟩
      rcases (hmem r).1 hr with hr | rfl
      · exact absurd hid (Nat.ne_of_lt (Rows.id_lt hr))
      · exact ⟨rfl, hqueued⟩
    · cases h

section Step

variable {h : List Note} {db : Db} {w : Write}

/-- A parent that rings goes on ringing while follow-ups are queued under it. -/
theorem ParentRings.run (hallowed : Allowed w) (hok : ∀ n ∈ (w.run db).2.1, Attached n)
    {r r' : CallRow} (hr : r ∈ db.calls) (hr' : r' ∈ (w.run db).2.2.calls) (hsame : Same r r')
    (hqueued : r.state = .queued) (hqueued' : r'.state = .queued) (hparent : ParentRings db r) :
    ParentRings (w.run db).2.2 r' := by
  obtain ⟨parent, hmem, hid, hringing⟩ := hparent
  rcases (effect_run db hallowed).mem hmem with ⟨parent', hmem', hsame', hbecame⟩ | hover
  · have hended : ¬Ended (w.run db).2.1 parent.id := fun hended =>
      not_queued_of_ended hended hr' (hsame.parentCallId.trans hid.symm) hqueued'
    refine ⟨parent', hmem', hsame'.id.trans (hid.trans hsame.parentCallId.symm), ?_⟩
    cases hbecame with
    | kept hstate _ => exact hstate.trans hringing
    | answered session _ _ _ htook => exact absurd (.inr (.inr ⟨session, htook⟩)) hended
    | missed _ _ hnote =>
      exact absurd (hnote.elim .inl fun hcancelled => .inr (.inl hcancelled)) hended
    | declined followups _ _ hdeclined =>
      -- the follow-up is among those the note counts
      have hnone : (db.followups parent.id).length = 0 :=
        (noteOf_run hdeclined).declined_eq ▸ hok _ hdeclined
      have hfollowup : r ∈ db.followups parent.id := by
        simpa [Db.followups, Rows.mem_def, hqueued, hid] using hr
      rw [List.length_eq_zero_iff.1 hnone] at hfollowup
      cases hfollowup
    | dropped hstate => simp [hringing] at hstate
    | injected _ hstate => simp [hringing] at hstate
    | completed hstate => simp [hringing] at hstate
  · simp [isOver, hringing] at hover

/-- The step lemma: every write keeps the queue attached. -/
theorem Chained.run (hchained : Chained h db) (hallowed : Allowed w)
    (hok : ∀ n ∈ (w.run db).2.1, Attached n) :
    Chained (h ++ (w.run db).2.1) (w.run db).2.2 := by
  have heffect := effect_run db hallowed
  refine ⟨fun r' hr' hqueued => ?_, fun id parent rang hnote => ?_,
    fun id parent rang hnote r' hr' hid => ?_⟩
  · rcases heffect.of_mem hr' with ⟨r, hr, hsame, hbecame⟩ | ⟨hid, hinserted⟩
    · have hqueued₀ := hbecame.of_queued hqueued
      exact (hchained.parent r hr hqueued₀).run hallowed hok hr hr' hsame hqueued₀ hqueued
    · cases hinserted with
      | queued _ hnotes =>
        have hrang : Attached (.queued r'.id r'.parentCallId
            (db.calls.rows.any (Db.ringing r'.parentCallId))) :=
          hok _ (by rw [hnotes]; exact List.mem_singleton_self _)
        obtain ⟨parent, hparent, hp⟩ := List.any_eq_true.1 hrang
        obtain ⟨hid', hringing⟩ : parent.id = r'.parentCallId ∧ parent.state = .ringing := by
          simpa [Db.ringing] using hp
        rcases heffect.mem hparent with ⟨parent', hmem', hsame', hbecame⟩ | hover
        · refine ⟨parent', hmem', hsame'.id.trans hid', ?_⟩
          cases hbecame <;> simp_all
        · simp [isOver, hringing] at hover
      | ringing _ _ _ hringing => simp [hringing] at hqueued
      | injected hinjected => simp [hinjected] at hqueued
  · rcases List.mem_append.1 hnote with hnote | hnote
    · exact (hchained.known id parent rang hnote).trans_le heffect.nextId_le
    · cases noteOf_run hnote
      exact (queued_run hnote).2.1
  · rcases List.mem_append.1 hnote with hnote | hnote
    · have hlt := hchained.known id parent rang hnote
      rcases heffect.of_mem hr' with ⟨r, hr, hsame, hbecame⟩ | ⟨hid', -⟩
      · obtain ⟨hparent, hfollowup⟩ :=
          hchained.followup id parent rang hnote r hr (hsame.id.symm.trans hid)
        subst hparent
        exact ⟨hsame.parentCallId, hfollowup.became hbecame⟩
      · omega
    · cases noteOf_run hnote
      obtain ⟨hparent, hqueued⟩ := (queued_run hnote).2.2 r' hr' hid
      exact ⟨hparent, .waiting hqueued⟩

/-- The notes of a request leave the queue as it is. -/
theorem Chained.note (hchained : Chained h db) {n : Note} (hneed : need .all (h, db) (.note n)) :
    Chained (h ++ [n]) db := by
  have hold : ∀ id parent rang, .queued id parent rang ∈ h ++ [n] → .queued id parent rang ∈ h := by
    intro id parent rang hnote
    rcases List.mem_append.1 hnote with hnote | hnote
    · exact hnote
    · obtain rfl := List.mem_singleton.1 hnote
      exact hneed.elim
  refine ⟨hchained.parent, fun id parent rang hnote => hchained.known id parent rang (hold _ _ _ hnote),
    fun id parent rang hnote r hr hid => ?_⟩
  obtain ⟨hparent, hfollowup⟩ := hchained.followup id parent rang (hold _ _ _ hnote) r hr hid
  exact ⟨hparent, hfollowup.append⟩

end Step

variable {e : CallEngine} {clock : ℤ} {h : List Note} {p : Pool Db Op Op.Ans}

/-- **No orphaned follow-up**: while follow-ups are attached, every queued row has a ringing
parent, and a follow-up leaves the queue injected by the claim of its parent or missed with it. -/
theorem followups_settled (hclock : 0 < clock) (hrun : Run (Step e) (start clock) h p)
    (hattached : ∀ n ∈ h, Attached n) :
    (∀ r ∈ p.shared.calls, r.state = .queued → ParentRings p.shared r) ∧
      ∀ id parent rang, .queued id parent rang ∈ h → ∀ r ∈ p.shared.calls, r.id = id →
        r.parentCallId = parent ∧ FollowupOf h parent r.state := by
  have hinvariant : Chained h p.shared ∧ ∃ m, Held m ∧ Settled h p.shared m := by
    refine invariant_of_run hclock hrun hattached ⟨?_, ?_, ?_⟩ ?_ ?_
    · exact fun r hr => absurd hr List.not_mem_nil
    · exact fun _ _ _ hnote => absurd hnote List.not_mem_nil
    · exact fun _ _ _ hnote => absurd hnote List.not_mem_nil
    · exact fun h db m w _ hneed hok hchained => hchained.run (allowed_of_need hneed) hok
    · exact fun h db m n _ hneed _ hchained => hchained.note hneed
  exact ⟨hinvariant.1.parent, hinvariant.1.followup⟩

/-- A follow-up is injected by the claim of its parent. -/
theorem followups_settled_claim : ∃ h p, Run (Step plainEngine) (start 100) h p ∧
    .queued 2 1 true ∈ h ∧ ∀ r ∈ p.shared.calls, r.id = 2 → FollowupOf h 1 r.state := by
  obtain ⟨h, p, hrun, hnotes⟩ := exists_run plainEngine 100
    (requested (.considerNotification (guardData "a" "time_sensitive") [7]) 0 9 ++
      requested (.considerNotification (guardData "b" "time_sensitive") [7]) 1 8 ++
      requested (.claim { callId := 1, userId := 7, sessionId := "phone" }) 2 6)
    (fun _ h => decide (h = [.rang 1 7 "a", .queued 2 1 true, .took 1 "phone",
      .claimed 1 "phone"]))
    (by decide +kernel)
  obtain rfl := of_decide_eq_true hnotes
  refine ⟨_, p, hrun, by simp, fun r hr hid => ?_⟩
  exact ((followups_settled (by decide) hrun (by simp [Attached])).2 2 1 true (by simp) r hr hid).2

/-- Declining a call leaves its follow-up queued. -/
theorem followup_orphaned : ¬∀ (e : CallEngine) (clock : ℤ) (h : List Note)
    (p : Pool Db Op Op.Ans), 0 < clock → Run (Step e) (start clock) h p → p.quiet = true →
    ∀ r ∈ p.shared.calls, r.state = .queued → ParentRings p.shared r := by
  intro hall
  obtain ⟨h, p, hrun, hend⟩ := exists_run plainEngine 100
    (requested (.considerNotification (guardData "a" "time_sensitive") [7]) 0 9 ++
      requested (.considerNotification (guardData "b" "time_sensitive") [7]) 1 8 ++
      requested
        (.end_ { callId := 1, userId := 7, outcome := .declined, sessionId := "" }) 2 4)
    (fun p _ => p.quiet && p.shared.calls.rows.any (fun r => r.state = .queued) &&
      !p.shared.calls.rows.any fun r => r.state = .ringing)
    (by decide +kernel)
  obtain ⟨⟨hquiet, hqueued⟩, hnone⟩ : (p.quiet = true ∧
      p.shared.calls.rows.any (fun r => r.state = .queued) = true) ∧
      (p.shared.calls.rows.any fun r => r.state = .ringing) = false := by simpa using hend
  obtain ⟨r, hr, hstate⟩ := List.any_eq_true.1 hqueued
  obtain ⟨parent, hparent, -, hringing⟩ :=
    hall plainEngine 100 h p (by decide) hrun hquiet r hr (of_decide_eq_true hstate)
  exact absurd (decide_eq_true hringing) (List.any_eq_false.1 hnone parent hparent)

end Call

end ArgusBackend
