import ArgusBackend.Call.Store

/-!
# What the writes do to the call table

`Effect` says once what a write can do to the calls: it updates rows in place, each in one of the
ways of `Became`; it inserts one row; or it purges rows that are over.

* `effect_run` : every write of the engine has such an effect;
* `not_queued_of_ended` : a call that ends with its follow-ups leaves none of them queued.
-/

namespace ArgusBackend

namespace Call

/-- What no update of a row changes. -/
structure Same (r r' : CallRow) : Prop where
  id : r'.id = r.id
  userId : r'.userId = r.userId
  dedupeKey : r'.dedupeKey = r.dedupeKey
  parentCallId : r'.parentCallId = r.parentCallId
  expiresAt : r'.expiresAt = r.expiresAt

/-- The ways in which a write moves a row on. -/
inductive Became (notes : List Note) (r r' : CallRow) : Prop
  | kept : r'.state = r.state → r'.answeredSession = r.answeredSession → Became notes r r'
  | answered (session : String) : r.state = .ringing → r'.state = .answered →
      r'.answeredSession = session → .took r.id session ∈ notes → Became notes r r'
  | declined (followups : ℕ) : r.state = .ringing → r'.state = .declined →
      .declined r.id followups ∈ notes → Became notes r r'
  | missed : r.state = .ringing → r'.state = .missed →
      (.missed r.id ∈ notes ∨ .cancelled r.id ∈ notes) → Became notes r r'
  | dropped : r.state = .queued → r'.state = .missed →
      (.missed r.parentCallId ∈ notes ∨ .cancelled r.parentCallId ∈ notes) → Became notes r r'
  | injected (session : String) : r.state = .queued → r'.state = .injected →
      .took r.parentCallId session ∈ notes → Became notes r r'
  | completed : r.state = .answered ∨ r.state = .injected → r'.state = .completed →
      Became notes r r'

/-- The row a write inserts: it rings while no other call of its user does, it is queued, or it is
injected. -/
inductive Inserted (w : Write) (notes : List Note) (old : Calls) (r : CallRow) : Prop
  | ringing (row : CallCreateInput) (now : ℤ) : w = .openRinging row now →
      r.state = .ringing → r.userId = row.userId → r.dedupeKey = row.dedupeKey →
      r.parentCallId = 0 → notes = [.rang r.id r.userId r.dedupeKey] →
      (∀ r₀ ∈ old, r₀.userId = row.userId → r₀.state = .ringing →
        r₀.expiresAt ≤ row.createdAt) → Inserted w notes old r
  | queued : r.state = .queued →
      notes = [.queued r.id r.parentCallId (old.rows.any (Db.ringing r.parentCallId))] →
      (∃ row, w = .create row ∧ row.state = .queued ∧ r.parentCallId = row.parentCallId) →
      Inserted w notes old r
  | injected : r.state = .injected → notes = [] → Inserted w notes old r

/-- Whether a call is over. -/
def isOver (r : CallRow) : Bool := r.state ≠ .ringing ∧ r.state ≠ .queued ∧ r.state ≠ .answered

/-- The rows are updated in place. -/
def Updates (notes : List Note) (old new : Calls) : Prop :=
  ∃ g : CallRow → CallRow, new.rows = old.rows.map g ∧ new.nextId = old.nextId ∧
    ∀ r ∈ old, Same r (g r) ∧ Became notes r (g r)

/-- What a statement may do to the calls: it updates rows, or inserts one. -/
inductive Effect (w : Write) (notes : List Note) (old new : Calls) : Prop
  | updated : Updates notes old new → Effect w notes old new
  | inserted (r : CallRow) : r.id = old.nextId → new.nextId = old.nextId + 1 →
      (∀ r₀ ∈ old, r₀.key ≠ r.key) → new.rows = old.rows ++ [r] → Inserted w notes old r →
      Effect w notes old new
  | purged (p : CallRow → Bool) : (∀ r, p r = true → isOver r = true) →
      new.rows = old.rows.filter (fun r => !p r) → new.nextId = old.nextId → notes = [] →
      Effect w notes old new

/-! ### Updates -/

theorem Same.refl (r : CallRow) : Same r r := ⟨rfl, rfl, rfl, rfl, rfl⟩

theorem Same.trans {r r' r'' : CallRow} (h : Same r r') (h' : Same r' r'') : Same r r'' :=
  ⟨h'.id.trans h.id, h'.userId.trans h.userId, h'.dedupeKey.trans h.dedupeKey,
    h'.parentCallId.trans h.parentCallId, h'.expiresAt.trans h.expiresAt⟩

theorem Same.key {r r' : CallRow} (h : Same r r') : r'.key = r.key := by
  rw [CallRow.key, CallRow.key, h.dedupeKey, h.userId]

theorem Became.refl (notes : List Note) (r : CallRow) : Became notes r r := .kept rfl rfl

/-- Only rows that were queued are queued. -/
theorem Became.of_queued {notes : List Note} {r r' : CallRow} (h : Became notes r r')
    (hr' : r'.state = .queued) : r.state = .queued := by
  cases h <;> simp_all

theorem Became.of_ringing {notes : List Note} {r r' : CallRow} (h : Became notes r r')
    (hr' : r'.state = .ringing) : r.state = .ringing := by
  cases h <;> simp_all

section Updates

variable {w : Write} {notes : List Note} {db : Db} {old : Calls}

theorem Updates.refl (notes : List Note) (old : Calls) : Updates notes old old :=
  ⟨id, by simp, rfl, fun r _ => ⟨Same.refl r, Became.refl notes r⟩⟩

/-- Where an updated row comes from. -/
theorem Updates.of_mem {new : Calls} (h : Updates notes old new) {r' : CallRow} (hr' : r' ∈ new) :
    ∃ r ∈ old, Same r r' ∧ Became notes r r' := by
  obtain ⟨g, hrows, -, hg⟩ := h
  rw [Rows.mem_def, hrows, List.mem_map] at hr'
  obtain ⟨r, hr, rfl⟩ := hr'
  exact ⟨r, hr, hg r hr⟩

/-- What becomes of a row. -/
theorem Updates.mem {new : Calls} (h : Updates notes old new) {r : CallRow} (hr : r ∈ old) :
    ∃ r' ∈ new, Same r r' ∧ Became notes r r' := by
  obtain ⟨g, hrows, -, hg⟩ := h
  refine ⟨g r, ?_, hg r hr⟩
  rw [Rows.mem_def, hrows]
  exact List.mem_map_of_mem hr

theorem updates_of_rows {new : Calls} {p : CallRow → Bool} {f : CallRow → CallRow}
    (hrows : new.rows = old.rows.map fun r => if p r then f r else r)
    (hnext : new.nextId = old.nextId)
    (h : ∀ r ∈ old, p r = true → Same r (f r) ∧ Became notes r (f r)) : Updates notes old new := by
  refine ⟨fun r => if p r then f r else r, hrows, hnext, fun r hr => ?_⟩
  cases hp : p r with
  | true => simpa [hp] using h r hr hp
  | false => simpa [hp] using ⟨Same.refl r, Became.refl notes r⟩

theorem updates_markPushed (id : ℕ) (now : ℤ) :
    Updates notes db.calls (db.markPushed id now).calls :=
  updates_of_rows rfl rfl fun _ _ _ => ⟨⟨rfl, rfl, rfl, rfl, rfl⟩, .kept rfl rfl⟩

/-- Settling the follow-ups of a call after other updates. -/
theorem Updates.settleFollowups (h : Updates notes old db.calls) {parentId : ℕ} {state : CallState}
    {now : ℤ}
    (hsettle : ∀ r r' : CallRow, r.state = .queued → r.parentCallId = parentId →
      r'.state = state → Became notes r r') :
    Updates notes old (db.settleFollowups parentId state now).calls := by
  obtain ⟨g, hrows, hnext, hg⟩ := h
  obtain ⟨g', hrows', -, hg'⟩ : ∃ g' : CallRow → CallRow,
      (db.settleFollowups parentId state now).calls.rows = db.calls.rows.map g' ∧
        (db.settleFollowups parentId state now).calls.nextId = db.calls.nextId ∧
        ∀ r, Same r (g' r) ∧
          (g' r = r ∨ (r.state = .queued ∧ r.parentCallId = parentId ∧ (g' r).state = state)) := by
    refine ⟨_, rfl, rfl, fun r => ?_⟩
    dsimp only
    split_ifs with hp
    · obtain ⟨hparent, hqueued⟩ := of_decide_eq_true hp
      exact ⟨⟨rfl, rfl, rfl, rfl, rfl⟩, .inr ⟨hqueued, hparent, rfl⟩⟩
    · exact ⟨Same.refl r, .inl rfl⟩
  refine ⟨g' ∘ g, by rw [hrows', hrows, List.map_map], hnext, fun r hr => ?_⟩
  obtain ⟨hsame, hbecame⟩ := hg r hr
  obtain ⟨hsame', hkept | ⟨hqueued, hparent, hstate⟩⟩ := hg' (g r)
  · exact ⟨hsame.trans hsame', by rwa [Function.comp_apply, hkept]⟩
  · exact ⟨hsame.trans hsame',
      hsettle r _ (hbecame.of_queued hqueued) (hsame.parentCallId ▸ hparent) hstate⟩

/-- Settling leaves no follow-up of the call queued. -/
theorem not_queued_settleFollowups {parentId : ℕ} {state : CallState} {now : ℤ}
    (hstate : state ≠ .queued) {r' : CallRow}
    (hr' : r' ∈ (db.settleFollowups parentId state now).calls) :
    (r'.parentCallId ≠ parentId ∨ r'.state ≠ .queued) ∧
      (r'.state = .queued → r' ∈ db.calls) := by
  rcases (Rows.mem_of_rows rfl).1 hr' with ⟨r, -, -, rfl⟩ | ⟨hr', hp⟩
  · exact ⟨.inr hstate, fun h => absurd h hstate⟩
  · refine ⟨?_, fun _ => hr'⟩
    by_contra hnot
    push Not at hnot
    simp [hnot] at hp

/-- Cancelling: the ringing calls of the key are missed, and their follow-ups with them. -/
theorem updates_cancel {cancelled : List CallRow} (h : Updates notes old db.calls) {now : ℤ}
    (hnotes : ∀ r ∈ cancelled, .cancelled r.id ∈ notes) :
    Updates notes old
      (cancelled.foldl (fun db r => db.settleFollowups r.id .missed now) db).calls := by
  induction cancelled generalizing db with
  | nil => exact h
  | cons r rest ih =>
    refine ih (h.settleFollowups fun r₀ r' hqueued hparent hmissed => ?_) fun r' hr' =>
      hnotes r' (List.mem_cons_of_mem _ hr')
    exact .dropped hqueued hmissed (.inr (hparent ▸ hnotes r List.mem_cons_self))

theorem not_queued_cancel {cancelled : List CallRow} {now : ℤ} {r' : CallRow}
    (hr' : r' ∈ (cancelled.foldl (fun db r => db.settleFollowups r.id .missed now) db).calls)
    (hqueued : r'.state = .queued) :
    r' ∈ db.calls ∧ ∀ r ∈ cancelled, r'.parentCallId ≠ r.id := by
  induction cancelled generalizing db with
  | nil => exact ⟨hr', by simp⟩
  | cons r rest ih =>
    obtain ⟨hmem, hrest⟩ := ih hr'
    obtain ⟨hparent, hkept⟩ := not_queued_settleFollowups (by decide) hmem
    refine ⟨hkept hqueued, fun r₀ hr₀ => ?_⟩
    rcases List.mem_cons.1 hr₀ with rfl | hr₀
    · exact hparent.resolve_right (not_not.2 hqueued)
    · exact hrest r₀ hr₀

/-- What rings after a change of state to another state rang before, and was not meant. -/
theorem ringing_of_setCalls {p : CallRow → Bool} {state : CallState} {f : CallRow → CallRow}
    {hid : ∀ r, (f r).id = r.id} {hkey : ∀ r, (f r).key = r.key} (hstate : state ≠ .ringing)
    {r' : CallRow} (hr' : r' ∈ (db.setCalls p state f hid hkey).calls)
    (hringing : r'.state = .ringing) : r' ∈ db.calls ∧ p r' = false := by
  rcases (Rows.mem_of_rows rfl).1 hr' with ⟨r, -, -, rfl⟩ | hkept
  · exact absurd hringing hstate
  · exact hkept

theorem ringing_of_cancel {cancelled : List CallRow} {now : ℤ} {r' : CallRow}
    (hr' : r' ∈ (cancelled.foldl (fun db r => db.settleFollowups r.id .missed now) db).calls)
    (hringing : r'.state = .ringing) : r' ∈ db.calls := by
  induction cancelled generalizing db with
  | nil => exact hr'
  | cons r rest ih => exact (ringing_of_setCalls (by decide) (ih hr') hringing).1

end Updates

/-! ### Every write -/

/-- What the engine asks of the state columns it writes itself. -/
def Allowed : Write → Prop
  | .create row => row.state = .injected ∨ row.state = .queued
  | .end_ _ _ state _ => state = .completed
  | _ => True

section Run

variable {db : Db}

theorem effect_create {row : CallCreateInput}
    (hstate : row.state = .injected ∨ row.state = .queued) :
    Effect (.create row) (Write.run db (.create row)).2.1 db.calls
      (Write.run db (.create row)).2.2.calls := by
  simp only [Write.run]
  cases hinsert : db.calls.insert row.row (fun _ => rfl) with
  | none => exact Effect.updated (Updates.refl _ _)
  | some inserted =>
    obtain ⟨r, calls⟩ := inserted
    obtain ⟨rfl, hnext, hkey, -⟩ := Rows.of_insert hinsert
    have hrows : calls.rows = db.calls.rows ++ [row.row db.calls.nextId] :=
      Rows.rows_of_insert hinsert
    refine .inserted _ rfl hnext hkey hrows ?_
    rcases hstate with hstate | hstate
    · exact .injected hstate (by simp [CallCreateInput.row, hstate])
    · exact .queued hstate (by simp [CallCreateInput.row, hstate]) ⟨row, rfl, hstate, rfl⟩

theorem effect_openRinging {row : CallCreateInput} {now : ℤ} :
    Effect (.openRinging row now) (Write.run db (.openRinging row now)).2.1 db.calls
      (Write.run db (.openRinging row now)).2.2.calls := by
  simp only [Write.run]
  split
  · exact Effect.updated (Updates.refl _ _)
  · rename_i hnone
    have hguard : ∀ r₀ ∈ db.calls, r₀.userId = row.userId → r₀.state = .ringing →
        r₀.expiresAt ≤ row.createdAt := by
      intro r₀ hr₀ huser hringing
      by_contra hlt
      exact hnone (List.any_eq_true.2 ⟨r₀, hr₀, by simp [huser, hringing, Int.not_le.1 hlt]⟩)
    generalize hrow : ({ row with state := .ringing, parentCallId := 0 } : CallCreateInput) = row'
    cases hinsert : db.calls.insert row'.row (fun _ => rfl) with
    | none => exact Effect.updated (Updates.refl _ _)
    | some inserted =>
      obtain ⟨r, calls⟩ := inserted
      obtain ⟨hr, hnext, hkey, -⟩ := Rows.of_insert hinsert
      have hrows : calls.rows = db.calls.rows ++ [r] := Rows.rows_of_insert hinsert
      subst hrow
      have hinserted : ∀ pushedAt, Inserted (.openRinging row now)
          [.rang r.id r.userId r.dedupeKey] db.calls { r with pushedAt := pushedAt } := by
        intro pushedAt
        subst hr
        exact .ringing row now rfl rfl rfl rfl rfl rfl hguard
      have hid : r.id = db.calls.nextId := by rw [hr]; rfl
      dsimp only
      split
      · -- the push is recorded on the new row only
        refine .inserted { r with pushedAt := now } hid hnext hkey ?_ (hinserted now)
        have hmarked : (Db.markPushed { db with calls } r.id now).calls.rows =
            calls.rows.map fun r' => if decide (r'.id = r.id ∧ r'.state = .ringing) then
              { r' with pushedAt := now } else r' := rfl
        rw [hmarked, hrows, List.map_append]
        congr 1
        · conv_rhs => rw [← List.map_id db.calls.rows]
          refine List.map_congr_left fun r' hr' => ?_
          have hlt : r'.id ≠ r.id := by
            have := db.calls.fresh r' hr'
            omega
          simp [hlt]
        · have hringing : r.state = .ringing := by rw [hr]; rfl
          simp [hringing]
      · exact .inserted r hid hnext hkey hrows (hinserted r.pushedAt)

theorem effect_run (db : Db) {w : Write} (hallowed : Allowed w) :
    Effect w (w.run db).2.1 db.calls (w.run db).2.2.calls := by
  cases w with
  | create row => exact effect_create hallowed
  | openRinging row now => exact effect_openRinging
  | pushRingOnce id now => exact .updated (updates_markPushed id now)
  | declineRingingAndCancel call now =>
    simp only [Write.run]
    split
    · refine .updated (updates_of_rows rfl rfl fun r _ hp => ?_)
      have hp : r.id = call.id ∧ r.userId = call.userId ∧ r.state = .ringing ∧
          now < r.expiresAt := by simpa [Db.ringingFor] using hp
      exact ⟨⟨rfl, rfl, rfl, rfl, rfl⟩, .declined _ hp.2.2.1 rfl (by simp [hp.1]; rfl)⟩
    · exact .updated (Updates.refl _ _)
  | missRingingAndCancel call now =>
    simp only [Write.run]
    split
    · refine .updated ?_
      dsimp only
      refine Updates.settleFollowups ?_ ?_
      · refine updates_of_rows rfl rfl fun r _ hp => ?_
        have hp : r.id = call.id ∧ r.state = .ringing := by simpa [Db.ringing] using hp
        exact ⟨⟨rfl, rfl, rfl, rfl, rfl⟩, .missed hp.2 rfl (by simp [hp.1])⟩
      · intro r r' hqueued hparent hmissed
        exact .dropped hqueued hmissed (by simp [hparent])
    · exact .updated (Updates.refl _ _)
  | claim id userId sessionId now =>
    simp only [Write.run]
    split
    · refine .updated ?_
      dsimp only
      refine Updates.settleFollowups ?_ ?_
      · refine updates_of_rows rfl rfl fun r _ hp => ?_
        have hp : r.id = id ∧ r.userId = userId ∧ r.state = .ringing ∧
            now < r.expiresAt := by simpa [Db.ringingFor] using hp
        exact ⟨⟨rfl, rfl, rfl, rfl, rfl⟩, .answered sessionId hp.2.2.1 rfl rfl (by simp [hp.1])⟩
      · intro r r' hqueued hparent hinjected
        exact .injected sessionId hqueued hinjected (by simp [hparent])
    · exact .updated (Updates.refl _ _)
  | end_ id userId state now =>
    -- the engine ends calls only so
    obtain rfl : state = .completed := hallowed
    refine .updated (updates_of_rows rfl rfl fun r _ hp => ?_)
    have hp : r.id = id ∧ r.userId = userId ∧ r.state = .answered := by simpa using hp
    exact ⟨⟨rfl, rfl, rfl, rfl, rfl⟩, .completed (.inl hp.2.2) rfl⟩
  | closeStaleByIds ids now =>
    refine .updated (updates_of_rows rfl rfl fun r _ hp => ?_)
    have hp : (r.state = .answered ∨ r.state = .injected) ∧ r.id ∈ ids := by simpa using hp
    exact ⟨⟨rfl, rfl, rfl, rfl, rfl⟩, .completed hp.1 rfl⟩
  | cancelRingingForKey dedupeKey exceptUserId onlyUserId reason now =>
    simp only [Write.run]
    have hnotes : ∀ r ∈ db.calls.rows.filter (Db.ringingForKey dedupeKey exceptUserId onlyUserId),
        Note.cancelled r.id ∈ (db.calls.rows.filter
          (Db.ringingForKey dedupeKey exceptUserId onlyUserId)).map fun r => .cancelled r.id :=
      fun r hr => List.mem_map_of_mem hr
    refine .updated (updates_cancel ?_ hnotes)
    refine updates_of_rows rfl rfl fun r hr hp => ?_
    have hringing : r.dedupeKey = dedupeKey ∧ r.state = .ringing ∧ r.userId ≠ exceptUserId ∧
        (onlyUserId = 0 ∨ r.userId = onlyUserId) := by
      simpa [Db.ringingForKey] using hp
    exact ⟨⟨rfl, rfl, rfl, rfl, rfl⟩,
      .missed hringing.2.1 rfl (.inr (hnotes r (List.mem_filter.2 ⟨hr, hp⟩)))⟩
  | purgeSettled createdBefore =>
    refine .purged _ ?_ rfl rfl rfl
    intro r hp
    simp only [decide_eq_true_eq] at hp
    simp [isOver, hp.2]
  | openResponse input members =>
    simp only [Write.run]
    split <;> exact .updated (Updates.refl _ _)
  | _ => exact .updated (Updates.refl _ _)

/-- The notes a write can leave. -/
inductive NoteOf (db : Db) : Write → Note → Prop
  | rang {row now} (id : ℕ) : NoteOf db (.openRinging row now) (.rang id row.userId row.dedupeKey)
  | queued {row} (id : ℕ) (parentRinging : Bool) :
      NoteOf db (.create row) (.queued id row.parentCallId parentRinging)
  | took {id userId session now} (r : CallRow) : r ∈ db.calls →
      Db.ringingFor id userId now r = true → NoteOf db (.claim id userId session now) (.took id session)
  | declined {call now} (r : CallRow) : r ∈ db.calls →
      Db.ringingFor call.id call.userId now r = true →
      NoteOf db (.declineRingingAndCancel call now)
        (.declined call.id (db.followups call.id).length)
  | missed {call now} (r : CallRow) : r ∈ db.calls → Db.ringing call.id r = true →
      NoteOf db (.missRingingAndCancel call now) (.missed call.id)
  | cancelled {dedupeKey exceptUserId onlyUserId reason now} (r : CallRow) : r ∈ db.calls →
      Db.ringingForKey dedupeKey exceptUserId onlyUserId r = true →
      NoteOf db (.cancelRingingForKey dedupeKey exceptUserId onlyUserId reason now)
        (.cancelled r.id)
  | reached {responseId userId now} (m : CallResponseMember) : m ∈ db.members →
      m.responseId = responseId → m.userId = userId → m.reachedAt = 0 →
      NoteOf db (.markReached responseId userId now) (.reached responseId userId)
  | entered {id fromStep toStep deadline now} (r : ResponseRow) : r ∈ db.responses →
      r.id = id → r.state = .active → r.step = fromStep →
      NoteOf db (.advance id fromStep toStep deadline now) (.entered id toStep)
  | unanswered {id now} (r : ResponseRow) : r ∈ db.responses → r.id = id → r.state = .active →
      NoteOf db (.markUnanswered id now) (.unanswered id)

theorem noteOf_run {w : Write} {n : Note} (h : n ∈ (w.run db).2.1) : NoteOf db w n := by
  cases w with
  | create row =>
    simp only [Write.run] at h
    split at h
    · cases h
    · rename_i r calls hinsert
      obtain ⟨rfl, -⟩ := Rows.of_insert hinsert
      split at h
      · obtain rfl := List.mem_singleton.1 h
        exact .queued _ _
      · cases h
  | openRinging row now =>
    simp only [Write.run] at h
    split at h
    · cases h
    · split at h
      · cases h
      · rename_i r calls hinsert
        obtain ⟨rfl, -⟩ := Rows.of_insert hinsert
        split at h
        all_goals
          obtain rfl := List.mem_singleton.1 h
          exact .rang _
  | declineRingingAndCancel call now =>
    simp only [Write.run] at h
    split at h
    · -- the row that the update found
      rename_i hany
      obtain ⟨r, hr, hp⟩ := List.any_eq_true.1 hany
      obtain rfl := List.mem_singleton.1 h
      exact .declined r hr hp
    · cases h
  | missRingingAndCancel call now =>
    simp only [Write.run] at h
    split at h
    · rename_i hany
      obtain ⟨r, hr, hp⟩ := List.any_eq_true.1 hany
      obtain rfl := List.mem_singleton.1 h
      exact .missed r hr hp
    · cases h
  | claim id userId session now =>
    simp only [Write.run] at h
    split at h
    · rename_i hany
      obtain ⟨r, hr, hp⟩ := List.any_eq_true.1 hany
      obtain rfl := List.mem_singleton.1 h
      exact .took r hr hp
    · cases h
  | cancelRingingForKey dedupeKey exceptUserId onlyUserId reason now =>
    obtain ⟨r, hr, rfl⟩ := List.mem_map.1 h
    obtain ⟨hr, hp⟩ := List.mem_filter.1 hr
    exact .cancelled r hr hp
  | markReached responseId userId now =>
    simp only [Write.run] at h
    split at h
    · rename_i hany
      obtain ⟨m, hm, hp⟩ := List.any_eq_true.1 hany
      obtain rfl := List.mem_singleton.1 h
      have hp : m.responseId = responseId ∧ m.userId = userId ∧ m.reachedAt = 0 := by
        simpa using hp
      exact .reached m hm hp.1 hp.2.1 hp.2.2
    · cases h
  | advance id fromStep toStep deadline now =>
    simp only [Write.run] at h
    split at h
    · rename_i hany
      obtain ⟨r, hr, hp⟩ := List.any_eq_true.1 hany
      obtain rfl := List.mem_singleton.1 h
      have hp : r.id = id ∧ r.state = .active ∧ r.step = fromStep := by simpa using hp
      exact .entered r hr hp.1 hp.2.1 hp.2.2
    · cases h
  | markUnanswered id now =>
    simp only [Write.run] at h
    split at h
    · rename_i hany
      obtain ⟨r, hr, hp⟩ := List.any_eq_true.1 hany
      obtain rfl := List.mem_singleton.1 h
      have hp : r.id = id ∧ r.state = .active := by simpa using hp
      exact .unanswered r hr hp.1 hp.2
    · cases h
  | openResponse input members =>
    simp only [Write.run] at h
    split at h <;> cases h
  | _ => cases h

/-- The notes with which a call ends together with its follow-ups. -/
def Ended (notes : List Note) (id : ℕ) : Prop :=
  .missed id ∈ notes ∨ .cancelled id ∈ notes ∨ ∃ session, .took id session ∈ notes

/-- A call that ends so leaves no follow-up of it queued. -/
theorem not_queued_of_ended {w : Write} {id : ℕ} (hended : Ended (w.run db).2.1 id) {r' : CallRow}
    (hr' : r' ∈ (w.run db).2.2.calls) (hparent : r'.parentCallId = id) : r'.state ≠ .queued := by
  intro hqueued
  rcases hended with hmissed | hcancelled | ⟨session, htook⟩
  · have hnote := noteOf_run hmissed
    cases hnote with
    | @missed call now =>
      simp only [Write.run] at hmissed hr'
      split at hmissed
      · rename_i hany
        rw [if_pos hany] at hr'
        exact (not_queued_settleFollowups (by decide) hr').1.elim (absurd hparent)
          (absurd hqueued)
      · cases hmissed
  · have hnote := noteOf_run hcancelled
    cases hnote with
    | cancelled r hr hp =>
      exact (not_queued_cancel hr' hqueued).2 r (List.mem_filter.2 ⟨hr, hp⟩) hparent
  · have hnote := noteOf_run htook
    cases hnote with
    | took r hr hp =>
      simp only [Write.run, if_pos (List.any_eq_true.2 ⟨r, hr, hp⟩)] at hr'
      exact (not_queued_settleFollowups (by decide) hr').1.elim (absurd hparent)
        (absurd hqueued)

end Run

section Effects

variable {w : Write} {notes : List Note} {old new : Calls}

/-- What becomes of a row: it moves on, or it was over and is purged. -/
theorem Effect.mem (h : Effect w notes old new) {r : CallRow} (hr : r ∈ old) :
    (∃ r' ∈ new, Same r r' ∧ Became notes r r') ∨ isOver r = true := by
  cases h with
  | updated hupdates => exact .inl (hupdates.mem hr)
  | inserted r₀ _ _ _ hrows _ =>
    refine .inl ⟨r, ?_, Same.refl r, Became.refl notes r⟩
    rw [Rows.mem_def, hrows]
    exact List.mem_append_left _ hr
  | purged p hover hrows _ _ =>
    cases hp : p r with
    | true => exact .inr (hover r hp)
    | false =>
      refine .inl ⟨r, ?_, Same.refl r, Became.refl notes r⟩
      rw [Rows.mem_def, hrows]
      exact List.mem_filter.2 ⟨hr, by simp [hp]⟩

/-- Where a row comes from: it moved on from a row that was there, or it is the row inserted. -/
theorem Effect.of_mem (h : Effect w notes old new) {r' : CallRow} (hr' : r' ∈ new) :
    (∃ r ∈ old, Same r r' ∧ Became notes r r') ∨
      (r'.id = old.nextId ∧ Inserted w notes old r') := by
  cases h with
  | updated hupdates => exact .inl (hupdates.of_mem hr')
  | inserted r hid _ _ hrows hinserted =>
    rw [Rows.mem_def, hrows, List.mem_append, List.mem_singleton] at hr'
    rcases hr' with hr' | rfl
    · exact .inl ⟨r', hr', Same.refl r', Became.refl notes r'⟩
    · exact .inr ⟨hid, hinserted⟩
  | purged p _ hrows _ _ =>
    rw [Rows.mem_def, hrows] at hr'
    exact .inl ⟨r', List.mem_of_mem_filter hr', Same.refl r', Became.refl notes r'⟩

theorem Effect.nextId_le (h : Effect w notes old new) : old.nextId ≤ new.nextId := by
  cases h with
  | updated hupdates =>
    obtain ⟨-, -, hnext, -⟩ := hupdates
    omega
  | inserted _ _ hnext _ _ _ => omega
  | purged _ _ _ hnext _ => omega

end Effects

end Call

end ArgusBackend
