import ArgusBackend.Call.Store

/-!
# What the writes do to responses and their members

* `evolved_run` : every response evolved from one that was there, or was just opened;
* `member_run` : every member was there, reached or not, or belongs to a response just opened.
-/

namespace ArgusBackend

namespace Call

/-- The changes of state of a response. -/
def responseMoves : ResponseState → ResponseState → Bool
  | .active, .attended | .active, .unanswered | .unanswered, .attended => true
  | .active, .confirmed | .attended, .confirmed | .unanswered, .confirmed => true
  | .active, .falseAlarm | .attended, .falseAlarm | .unanswered, .falseAlarm => true
  | .confirmed, .falseAlarm => true
  | .active, .expired | .attended, .expired | .unanswered, .expired => true
  | .confirmed, .expired => true
  | _, _ => false

/-- What a write can do to a response; a step it enters is noted. -/
structure Evolved (notes : List Note) (r r' : ResponseRow) : Prop where
  id : r'.id = r.id
  dedupeKey : r'.dedupeKey = r.dedupeKey
  data : r'.data = r.data
  stepCount : r'.stepCount = r.stepCount
  state : r'.state = r.state ∨ responseMoves r.state r'.state = true
  responder : r.responderId ≠ 0 → r'.responderId = r.responderId
  step : r'.step = r.step ∨ (r'.step = r.step + 1 ∧ r'.step < r'.stepCount ∧
    .entered r'.id r'.step ∈ notes)

theorem Evolved.refl (notes : List Note) (r : ResponseRow) : Evolved notes r r :=
  ⟨rfl, rfl, rfl, rfl, .inl rfl, fun _ => rfl, .inl rfl⟩

theorem Evolved.le_step {notes : List Note} {r r' : ResponseRow} (h : Evolved notes r r') : r.step ≤ r'.step := by
  have := h.step
  omega

/-- The response a write opens. -/
structure Opened (w : Write) (r : ResponseRow) : Prop where
  write : ∃ input members, w = .openResponse input members ∧ r.dedupeKey = input.dedupeKey ∧
    r.data = input.data ∧ r.stepCount = input.stepCount
  state : r.state = .active
  step : r.step = 0

/-- What a write can do to a member. -/
structure Kept (notes : List Note) (m m' : CallResponseMember) : Prop where
  responseId : m.responseId = m'.responseId
  userId : m.userId = m'.userId
  step : m.step = m'.step
  reached : m.reachedAt ≠ 0 → m'.reachedAt ≠ 0
  noted : m'.reachedAt ≠ 0 → m.reachedAt ≠ 0 ∨ .reached m'.responseId m'.userId ∈ notes

theorem Kept.refl (notes : List Note) (m : CallResponseMember) : Kept notes m m :=
  ⟨rfl, rfl, rfl, fun h => h, .inl⟩

/-- The member a write inserts. -/
structure Joined (w : Write) (m : CallResponseMember) : Prop where
  reached : m.reachedAt = 0
  write : ∃ input members, w = .openResponse input members ∧
    ∃ member ∈ members, member.userId = m.userId ∧ member.step = m.step

/-- What is asked of a write: a step is followed by the next one, below their number. -/
def Write.Climbs (w : Write) (db : Db) : Prop :=
  match w with
  | .advance id fromStep toStep _ _ => toStep = fromStep + 1 ∧
    ∀ r ∈ db.responses, r.id = id → toStep < r.stepCount
  | _ => True

section Run

variable {db : Db} {w : Write}

theorem foldl_settle (cancelled : List CallRow) (now : ℤ) :
    (cancelled.foldl (fun db r => db.settleFollowups r.id .missed now) db).clock = db.clock ∧
      (cancelled.foldl (fun db r => db.settleFollowups r.id .missed now) db).responses =
        db.responses ∧
      (cancelled.foldl (fun db r => db.settleFollowups r.id .missed now) db).members =
        db.members := by
  induction cancelled generalizing db with
  | nil => exact ⟨rfl, rfl, rfl⟩
  | cons r rest ih => exact @ih (db.settleFollowups r.id .missed now)

theorem evolved_of_rows {db' : Db} {notes : List Note} {p : ResponseRow → Bool} {f : ResponseRow → ResponseRow}
    (hrows : db'.responses.rows = db.responses.rows.map fun r => if p r then f r else r)
    (h : ∀ r ∈ db.responses, p r = true → Evolved notes r (f r)) {r' : ResponseRow}
    (hr' : r' ∈ db'.responses) : ∃ r ∈ db.responses, Evolved notes r r' := by
  rcases (Rows.mem_of_rows hrows).1 hr' with ⟨r, hr, hp, rfl⟩ | ⟨hr, -⟩
  · exact ⟨r, hr, h r hr hp⟩
  · exact ⟨r', hr, Evolved.refl _ r'⟩

theorem of_insertMembers {responseId : ℕ} {members : List CallResponseMemberInput}
    {m : CallResponseMember} (hm : m ∈ insertMembers responseId members) :
    m.responseId = responseId ∧ m.reachedAt = 0 ∧
      ∃ member ∈ members, member.userId = m.userId ∧ member.step = m.step := by
  induction members with
  | nil => cases hm
  | cons member rest ih =>
    rcases List.mem_cons.1 hm with rfl | hm
    · exact ⟨rfl, rfl, member, List.mem_cons_self, rfl, rfl⟩
    · obtain ⟨hid, hreached, member', hmember', hsame⟩ := ih (List.mem_of_mem_filter hm)
      exact ⟨hid, hreached, member', List.mem_cons_of_mem _ hmember', hsame⟩

/-- The writes that touch responses or their members. -/
def Write.onResponses : Write → Bool
  | .openResponse _ _ | .markReached _ _ _ | .advance _ _ _ _ _ | .markUnanswered _ _
  | .attend _ _ _ _ | .verdict _ _ _ _ _ | .expire _ _ | .expireKinds _ _ | .purgeClosed _ => true
  | _ => false

theorem untouched_run (db : Db) (w : Write) : w.onResponses = true ∨
    ((w.run db).2.2.responses = db.responses ∧ (w.run db).2.2.members = db.members) := by
  cases w with
  | create row =>
    simp only [Write.run]
    split <;> exact .inr ⟨rfl, rfl⟩
  | openRinging row now =>
    simp only [Write.run]
    split
    · exact .inr ⟨rfl, rfl⟩
    · split
      · exact .inr ⟨rfl, rfl⟩
      · split <;> exact .inr ⟨rfl, rfl⟩
  | cancelRingingForKey dedupeKey exceptUserId onlyUserId reason now =>
    exact .inr (foldl_settle _ _).2
  | declineRingingAndCancel call now =>
    simp only [Write.run]
    split <;> exact .inr ⟨rfl, rfl⟩
  | missRingingAndCancel call now =>
    simp only [Write.run]
    split <;> exact .inr ⟨rfl, rfl⟩
  | claim id userId sessionId now =>
    simp only [Write.run]
    split <;> exact .inr ⟨rfl, rfl⟩
  | _ => first | exact .inl rfl | exact .inr ⟨rfl, rfl⟩

theorem expired_evolved {notes : List Note} {r : ResponseRow} (hopen : Db.open_ r = true)
    (now : ℤ) : Evolved notes r { r with state := .expired, updatedAt := now } := by
  refine ⟨rfl, rfl, rfl, rfl, .inr ?_, fun _ => rfl, .inl rfl⟩
  have hstate : r.state = .active ∨ r.state = .attended ∨ r.state = .unanswered ∨
      r.state = .confirmed := by simpa [Db.open_] using hopen
  rcases hstate with hstate | hstate | hstate | hstate <;> simp [hstate, responseMoves]

/-- Every response evolved from one that was there, or was just opened. -/
theorem evolved_run (hclimbs : w.Climbs db) {r' : ResponseRow}
    (hr' : r' ∈ (w.run db).2.2.responses) :
    (∃ r ∈ db.responses, Evolved (w.run db).2.1 r r') ∨ (r'.id = db.responses.nextId ∧ Opened w r') := by
  rcases untouched_run db w with htouched | ⟨hsame, -⟩
  · cases w with
    | openResponse input members =>
      simp only [Write.run] at hr'
      split at hr'
      · exact .inl ⟨r', hr', Evolved.refl _ r'⟩
      · rename_i r responses hinsert
        obtain ⟨rfl, -, -, hmem⟩ := Rows.of_insert hinsert
        rcases (hmem r').1 hr' with hr' | rfl
        · exact .inl ⟨r', hr', Evolved.refl _ r'⟩
        · exact .inr ⟨rfl, ⟨input, members, rfl, rfl, rfl, rfl⟩, rfl, rfl⟩
    | markReached responseId userId now => exact .inl ⟨r', hr', Evolved.refl _ r'⟩
    | advance id fromStep toStep deadline now =>
      refine .inl (evolved_of_rows rfl (fun r hr hp => ?_) hr')
      obtain ⟨hid, hactive, hfrom⟩ : r.id = id ∧ r.state = .active ∧ r.step = fromStep := by
        simpa using hp
      have hany : (db.responses.rows.any fun r => decide (r.id = id ∧ r.state = .active ∧
          r.step = fromStep)) = true := List.any_eq_true.2 ⟨r, hr, hp⟩
      refine ⟨rfl, rfl, rfl, rfl, .inl rfl, fun _ => rfl,
        .inr ⟨by rw [hfrom]; exact hclimbs.1, hclimbs.2 r hr hid, ?_⟩⟩
      simp only [Write.run, if_pos hany, hid]
      exact List.mem_singleton_self _
    | markUnanswered id now =>
      refine .inl (evolved_of_rows rfl (fun r _ hp => ?_) hr')
      obtain ⟨-, hactive⟩ : r.id = id ∧ r.state = .active := by simpa using hp
      exact ⟨rfl, rfl, rfl, rfl, .inr (by simp [hactive, responseMoves]), fun _ => rfl, .inl rfl⟩
    | attend id userId name now =>
      refine .inl (evolved_of_rows rfl (fun r _ hp => ?_) hr')
      obtain ⟨-, hstate, hnone⟩ : r.id = id ∧ (r.state = .active ∨ r.state = .unanswered) ∧
          r.responderId = 0 := by simpa using hp
      refine ⟨rfl, rfl, rfl, rfl, .inr ?_, fun hset => absurd hnone hset, .inl rfl⟩
      rcases hstate with hstate | hstate <;> simp [hstate, responseMoves]
    | verdict id given userId name now =>
      refine .inl (evolved_of_rows rfl (fun r _ hp => ?_) hr')
      obtain ⟨-, hfrom⟩ : r.id = id ∧ given.recordedFrom r.state = true := by simpa using hp
      refine ⟨rfl, rfl, rfl, rfl, .inr ?_, fun hset => if_neg hset, .inl rfl⟩
      cases given <;> cases hstate : r.state <;>
        simp_all [ResponseVerdict.recordedFrom, ResponseVerdict.state, responseMoves]
    | expire createdBefore now =>
      refine .inl (evolved_of_rows rfl (fun r _ hp => ?_) hr')
      have hp : Db.open_ r = true ∧ r.createdAt < createdBefore := by simpa using hp
      exact expired_evolved hp.1 now
    | expireKinds kinds now =>
      refine .inl (evolved_of_rows rfl (fun r _ hp => ?_) hr')
      have hp : Db.open_ r = true ∧ r.kind ∈ kinds := by simpa using hp
      exact expired_evolved hp.1 now
    -- what is not purged is unchanged
    | purgeClosed updatedBefore => exact .inl ⟨r', (Rows.mem_delete.1 hr').1, Evolved.refl _ r'⟩
    | _ => cases htouched
  · exact .inl ⟨r', hsame ▸ hr', Evolved.refl _ r'⟩

theorem nextId_run (w : Write) : db.responses.nextId ≤ (w.run db).2.2.responses.nextId := by
  rcases untouched_run db w with htouched | ⟨hsame, -⟩
  · cases w with
    | openResponse input members =>
      simp only [Write.run]
      split
      · exact Nat.le_refl _
      · rename_i r responses hinsert
        obtain ⟨-, hnext, -⟩ := Rows.of_insert hinsert
        dsimp only
        omega
    | _ => first | exact Nat.le_refl _ | cases htouched
  · rw [hsame]

/-- Every member was there, reached or not, or belongs to a response just opened. -/
theorem member_run (w : Write) {m' : CallResponseMember} (hm' : m' ∈ (w.run db).2.2.members) :
    (∃ m ∈ db.members, Kept (w.run db).2.1 m m') ∨
    (m'.responseId = db.responses.nextId ∧
      db.responses.nextId < (w.run db).2.2.responses.nextId ∧ Joined w m') := by
  rcases untouched_run db w with htouched | ⟨-, hsame⟩
  · cases w with
    | openResponse input members =>
      simp only [Write.run] at hm' ⊢
      split at hm'
      · exact .inl ⟨m', hm', Kept.refl _ m'⟩
      · rename_i r responses hinsert
        obtain ⟨rfl, hnext, -, -⟩ := Rows.of_insert hinsert
        rcases List.mem_append.1 hm' with hm' | hm'
        · exact .inl ⟨m', hm', Kept.refl _ m'⟩
        · obtain ⟨hid, hreached, hmember⟩ := of_insertMembers hm'
          exact .inr ⟨hid, by dsimp only; omega, hreached, input, members, rfl, hmember⟩
    | markReached responseId userId now =>
      obtain ⟨m, hm, rfl⟩ := List.mem_map.1 hm'
      refine .inl ⟨m, hm, ?_⟩
      split_ifs with hp
      · have hany : (db.members.any fun m => decide (m.responseId = responseId ∧
            m.userId = userId ∧ m.reachedAt = 0)) = true := List.any_eq_true.2 ⟨m, hm, hp⟩
        obtain ⟨rfl, rfl, hzero⟩ : m.responseId = responseId ∧ m.userId = userId ∧
            m.reachedAt = 0 := by simpa using hp
        refine ⟨rfl, rfl, rfl, fun hreached => absurd hzero hreached, fun _ => .inr ?_⟩
        simp only [Write.run, if_pos hany]
        exact List.mem_singleton_self _
      · exact Kept.refl _ m
    | purgeClosed updatedBefore =>
      exact .inl ⟨m', List.mem_of_mem_filter hm', Kept.refl _ m'⟩
    | _ => first | exact .inl ⟨m', hm', Kept.refl _ m'⟩ | cases htouched
  · exact .inl ⟨m', hsame ▸ hm', Kept.refl _ m'⟩

end Run

end Call

end ArgusBackend
