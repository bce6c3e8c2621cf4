import ArgusBackend.Call.RowMachine

/-!
# What becomes of superseded calls

The considerations of one user, one after the other: a critical call supersedes the one that rings,
other calls are queued under it.

* `considered_alone` : what a consideration does alone;
* `superseded_named` : the claim of the last call reads out one line for each superseded call and
  for each follow-up of the chain if and only if one call was superseded at most, and the notice
  that it was missed names them if and only if none was;
* `superseded_forgotten` : of two superseded calls the first is not read out.
-/

namespace ArgusBackend

namespace Call

/-- The call rings for the user and has not expired. -/
structure Live (userId : ℤ) (db : Db) (r : CallRow) : Prop where
  mem : r ∈ db.calls
  user : r.userId = userId
  ringing : r.state = .ringing
  unexpired : db.clock < r.expiresAt

/-- The row a statement inserts next. -/
structure Fresh (db : Db) (db' : Db) (old : Calls) (x : CallRow) : Prop where
  rows : db'.calls.rows = old.rows ++ [x]
  id : x.id = db.calls.nextId
  nextId : db'.calls.nextId = db.calls.nextId + 1
  clock : db'.clock = db.clock

/-- The tables after a call that rings was missed. -/
def Db.missed (db : Db) (call : CallRow) (now : ℤ) : Db :=
  (Write.run db (.missRingingAndCancel call now)).2.2

/-- The lines a call that supersedes another takes over. -/
def CallEngine.linesOf (e : CallEngine) (db : Db) (parent : CallRow) (now : ℤ) : List String :=
  e.followupLine parent parent.lang now ::
    (db.followups parent.id).map fun followup => e.followupLine followup parent.lang now

/-- What a consideration of the user does alone. -/
inductive Considered (e : CallEngine) (userId : ℤ) (db : Db) (notes : List Note) (db' : Db) : Prop
  | idle : notes = [] → db' = db → Considered e userId db notes db'
  | injected (x : CallRow) : notes = [] → x.state = .injected → Fresh db db' db.calls x →
      Considered e userId db notes db'
  | rang (x : CallRow) : notes = [.rang x.id x.userId x.dedupeKey] → 0 < userId →
      x.userId = userId → x.state = .ringing → x.parentCallId = 0 → (∀ r, ¬Live userId db r) →
      Fresh db db' db.calls x → Considered e userId db notes db'
  | superseded (parent x : CallRow) : Live userId db parent →
      notes = [.missed parent.id, .rang x.id x.userId x.dedupeKey] → 0 < userId →
      x.userId = userId → x.state = .ringing → x.parentCallId = 0 →
      x.data.laterLines = some (e.linesOf db parent db.clock) →
      Fresh db db' (db.missed parent db.clock).calls x → Considered e userId db notes db'
  /-- the call that rang was missed, and no other rings -/
  | stranded (parent : CallRow) (later : List Note) : Live userId db parent →
      notes = .missed parent.id :: later → (∀ id user key, later ≠ [.rang id user key]) →
      (db' = db.missed parent db.clock ∨ ∃ x : CallRow, x.state = .queued ∧
        x.parentCallId = parent.id ∧ Fresh db db' (db.missed parent db.clock).calls x) → Considered e userId db notes db'
  | queued (parent x : CallRow) : Live userId db parent →
      notes = [.queued x.id parent.id (db.calls.rows.any (Db.ringing parent.id))] →
      x.state = .queued → x.parentCallId = parent.id → Fresh db db' db.calls x →
      Considered e userId db notes db'

/-! ### The statements -/

section Statements

variable {db : Db} {row : CallCreateInput} {now : ℤ}

theorem openRinging_run (db : Db) (row : CallCreateInput) (now : ℤ) :
    Write.run db (.openRinging row now) = (none, [], db) ∨
    ∃ r x db', Write.run db (.openRinging row now) =
        (some r, [.rang x.id x.userId x.dedupeKey], db') ∧ x.userId = row.userId ∧
      x.state = .ringing ∧ x.parentCallId = 0 ∧ x.data = row.data ∧ Fresh db db' db.calls x ∧
      ∀ r₀ ∈ db.calls, r₀.userId = row.userId → r₀.state = .ringing →
        r₀.expiresAt ≤ row.createdAt := by
  simp only [Write.run]
  split
  · exact .inl rfl
  · rename_i hnone
    have hguard : ∀ r₀ ∈ db.calls, r₀.userId = row.userId → r₀.state = .ringing →
        r₀.expiresAt ≤ row.createdAt := by
      intro r₀ hr₀ huser hringing
      by_contra hlt
      exact hnone (List.any_eq_true.2 ⟨r₀, hr₀, by simp [huser, hringing, Int.not_le.1 hlt]⟩)
    generalize hrow : ({ row with state := .ringing, parentCallId := 0 } : CallCreateInput) = row'
    cases hinsert : db.calls.insert row'.row (fun _ => rfl) with
    | none => exact .inl rfl
    | some inserted =>
      obtain ⟨r, calls⟩ := inserted
      obtain ⟨hr, hnext, -, -⟩ := Rows.of_insert hinsert
      have hrows : calls.rows = db.calls.rows ++ [r] := Rows.rows_of_insert hinsert
      subst hrow
      have hid : r.id = db.calls.nextId := by rw [hr]; rfl
      refine .inr ?_
      dsimp only
      split
      · -- the push is recorded on the new row only
        refine ⟨_, { r with pushedAt := now }, _, rfl, ?_, ?_, ?_, ?_,
          ⟨?_, hid, hnext, rfl⟩, hguard⟩
        · rw [hr]; rfl
        · rw [hr]; rfl
        · rw [hr]; rfl
        · rw [hr]; rfl
        have hmarked : (Db.markPushed { db with calls } r.id now).calls.rows =
            calls.rows.map fun r' => if decide (r'.id = r.id ∧ r'.state = .ringing) then
              { r' with pushedAt := now } else r' := rfl
        rw [hmarked, hrows, List.map_append]
        congr 1
        · conv_rhs => rw [← List.map_id db.calls.rows]
          refine List.map_congr_left fun r' hr' => ?_
          have hlt : r'.id ≠ r.id := by
            have := db.calls.fresh r' hr'
            omega
          simp [hlt]
        · have hringing : r.state = .ringing := by rw [hr]; rfl
          simp [hringing]
      · refine ⟨r, r, _, rfl, ?_, ?_, ?_, ?_, ⟨hrows, hid, hnext, rfl⟩, hguard⟩
        · rw [hr]; rfl
        · rw [hr]; rfl
        · rw [hr]; rfl
        · rw [hr]; rfl

theorem create_run (db : Db) (row : CallCreateInput) :
    Write.run db (.create row) = (none, [], db) ∨
    ∃ id x db', Write.run db (.create row) = (some id, if row.state = .queued then
        [.queued x.id row.parentCallId (db.calls.rows.any (Db.ringing row.parentCallId))] else [],
        db') ∧ x.state = row.state ∧ x.parentCallId = row.parentCallId ∧
      Fresh db db' db.calls x := by
  simp only [Write.run]
  cases hinsert : db.calls.insert row.row (fun _ => rfl) with
  | none => exact .inl rfl
  | some inserted =>
    obtain ⟨r, calls⟩ := inserted
    obtain ⟨rfl, hnext, -, -⟩ := Rows.of_insert hinsert
    exact .inr ⟨_, _, _, rfl, rfl, rfl, Rows.rows_of_insert hinsert, rfl, hnext, rfl⟩

end Statements

/-! ### The functions of the engine, alone -/

namespace CallEngine

variable (e : CallEngine) {env : Env} {db : Db}

theorem ends_settleMissed (input : MissedInput) : (e.settleMissed input).Ends exec env
    (fun _ notes db' => notes = (Write.run db (.missRingingAndCancel input.call input.now)).2.1 ∧
      db' = db.missed input.call input.now) db := by
  simp only [settleMissed]
  refine Task.ends_call (Task.ends_call ?_)
  split
  · refine Task.ends_call ?_
    split
    · exact Task.ends_call (Task.ends_pure (by simp [exec, Db.missed]))
    · exact Task.ends_pure (by simp [exec, Db.missed])
  · exact Task.ends_pure (by simp [exec, Db.missed])

theorem ends_supersedeRinging (parent : CallRow) (now : ℤ) :
    (e.supersedeRinging parent now).Ends exec env
      (fun lines notes db' => lines = e.linesOf db parent now ∧
        notes = (Write.run db (.missRingingAndCancel parent now)).2.1 ∧
        db' = db.missed parent now) db := by
  simp only [supersedeRinging]
  refine Task.ends_call (Task.ends_bind ((e.ends_settleMissed _).mono ?_))
  rintro _ notes db' ⟨rfl, rfl⟩
  exact Task.ends_pure ⟨rfl, by simp [exec], rfl⟩

/-- What is prepared for a user. -/
structure Prepared (userId now : ℤ) (db : Db) (prepared : PreparedCall) : Prop where
  row : ∀ row, prepared.row = some row → row.userId = userId ∧ row.createdAt = now
  user : prepared.outcome.userId = userId
  ringing : ∀ r, prepared.ringing = some r →
    r ∈ db.calls ∧ r.userId = userId ∧ r.state = .ringing ∧ now < r.expiresAt

theorem of_findRingingFor {userId now : ℤ} {r : CallRow}
    (h : Read.answer db (.findRingingFor userId now) = some r) :
    r ∈ db.calls ∧ r.userId = userId ∧ r.state = .ringing ∧ now < r.expiresAt := by
  have hmem := List.mem_of_getLast? h
  rw [List.mem_filter] at hmem
  exact ⟨hmem.1, by simpa using hmem.2⟩

theorem ends_prepareUser (input : ConsiderUserInput) : (e.prepareUser input).Ends exec env
    (fun prepared notes db' => notes = [] ∧ db' = db ∧
      Prepared input.userId input.now db prepared) db := by
  simp only [prepareUser]
  split
  · exact Task.ends_pure ⟨rfl, rfl, fun _ hrow => (by cases hrow), rfl, fun _ hr => (by cases hr)⟩
  · refine Task.ends_call (Task.ends_call (Task.ends_call (Task.ends_pure ?_)))
    refine ⟨rfl, rfl, fun row hrow => ?_, rfl, fun r hr => of_findRingingFor hr⟩
    obtain rfl := Option.some.inj hrow
    exact ⟨rfl, rfl⟩

/-- A candidate queues under a call, or it is left out. -/
inductive Queues (parentOf : CallRow → Prop) (db : Db) (notes : List Note) (db' : Db) : Prop
  | out : notes = [] → db' = db → Queues parentOf db notes db'
  | queued (parent x : CallRow) : parentOf parent →
      notes = [.queued x.id parent.id (db.calls.rows.any (Db.ringing parent.id))] →
      x.state = .queued → x.parentCallId = parent.id → Fresh db db' db.calls x →
      Queues parentOf db notes db'

theorem ends_queueUnder {parentOf : CallRow → Prop} {row : CallCreateInput} {parent : CallRow}
    {f : Option ℕ → Io CallUserOutcome} (hparent : parentOf parent) (hstate : row.state = .queued)
    (hunder : row.parentCallId = parent.id) (hf : ∀ id, ∃ outcome, f id = pure outcome) :
    (write (.create row) >>= f).Ends exec env
      (fun _ notes db' => Queues parentOf db notes db') db := by
  refine Task.ends_call ?_
  obtain ⟨outcome, heq⟩ := hf (exec env (.write (.create row)) db).1
  rw [heq]
  refine Task.ends_pure ?_
  simp only [exec, List.append_nil]
  rcases create_run db row with hrun | ⟨id, x, db', hrun, hstate', hunder', hfresh⟩
  · rw [hrun]
    exact .out rfl rfl
  · rw [hrun, if_pos hstate, hunder]
    exact .queued parent x hparent rfl (hstate'.trans hstate) (hunder'.trans hunder) hfresh

theorem ends_queueUser (input : FinishUserInput) (row : CallCreateInput)
    {parentOf : CallRow → Prop}
    (hringing : ∀ r, input.prepared.ringing = some r → parentOf r)
    (hfound : ∀ r, input.prepared.ringing = none → Read.answer db
      (.findRingingFor input.prepared.outcome.userId input.now) = some r → parentOf r) :
    (queueUser input row).Ends exec env (fun _ notes db' => Queues parentOf db notes db') db := by
  simp only [queueUser]
  split
  · rename_i parent hparent
    exact ends_queueUnder (hringing parent hparent) rfl rfl fun id => by cases id <;> exact ⟨_, rfl⟩
  · rename_i hnone
    refine Task.ends_call ?_
    split
    · exact Task.ends_pure (.out rfl rfl)
    · rename_i parent hparent
      exact ends_queueUnder (hfound parent hnone hparent) rfl rfl fun id => by
        cases id <;> exact ⟨_, rfl⟩

/-- The end of a consideration that opens a call, or queues when another rings. -/
theorem ends_openUser (input : FinishUserInput) (row : CallCreateInput)
    (parentOf : CallRow → Prop)
    (hringing : ∀ r, input.prepared.ringing = some r → parentOf r)
    (hfound : ∀ r, input.prepared.ringing = none → Read.answer db
      (.findRingingFor input.prepared.outcome.userId input.now) = some r → parentOf r) :
    Task.Ends exec env (fun _ notes db' =>
      (∃ x, notes = [.rang x.id x.userId x.dedupeKey] ∧ x.userId = row.userId ∧
        x.state = .ringing ∧ x.parentCallId = 0 ∧ x.data = row.data ∧ Fresh db db' db.calls x ∧
        ∀ r₀ ∈ db.calls, r₀.userId = row.userId → r₀.state = .ringing →
          r₀.expiresAt ≤ row.createdAt) ∨ Queues parentOf db notes db') (do
      match ← write (.openRinging row input.now) with
      | some call =>
        let _ ← ask (.emit input.prepared.outcome.userId "call_incoming" call.title call.id)
        pure { input.prepared.outcome with resolution := .rang, callId := call.id }
      | none =>
        if ← read (.exists_ input.request.candidate.dedupeKey input.prepared.outcome.userId) then
          pure { input.prepared.outcome with reason := "already_called" }
        else queueUser input row) db := by
  refine Task.ends_call ?_
  simp only [exec]
  rcases openRinging_run db row input.now with hrun | ⟨r, x, db', hrun, huser, hstate, hparent,
    hdata, hfresh, hguard⟩
  · simp only [hrun]
    refine Task.ends_call ?_
    split
    · exact Task.ends_pure (.inr (.out rfl rfl))
    · exact (ends_queueUser input row hringing hfound).mono fun _ _ _ h => .inr h
  · simp only [hrun]
    exact Task.ends_call (Task.ends_pure
      (.inl ⟨x, rfl, huser, hstate, hparent, hdata, hfresh, hguard⟩))

end CallEngine

theorem Live.missed_notes {userId : ℤ} {db : Db} {parent : CallRow} (h : Live userId db parent)
    (now : ℤ) : (Write.run db (.missRingingAndCancel parent now)).2.1 = [.missed parent.id] := by
  have hany : db.calls.rows.any (Db.ringing parent.id) = true :=
    List.any_eq_true.2 ⟨parent, h.mem, by simp [Db.ringing, h.ringing]⟩
  simp only [Write.run, if_pos hany]

theorem nextId_missed (db : Db) (parent : CallRow) (now : ℤ) :
    (db.missed parent now).calls.nextId = db.calls.nextId := by
  simp only [Db.missed, Write.run]
  split <;> rfl

theorem clock_missed (db : Db) (parent : CallRow) (now : ℤ) :
    (db.missed parent now).clock = db.clock := by
  simp only [Db.missed, Write.run]
  split <;> rfl

theorem Fresh.of_missed {db db' : Db} {parent x : CallRow} {now : ℤ}
    (h : Fresh (db.missed parent now) db' (db.missed parent now).calls x) :
    Fresh db db' (db.missed parent now).calls x :=
  ⟨h.rows, h.id.trans (nextId_missed db parent now),
    h.nextId.trans (by rw [nextId_missed]), h.clock.trans (clock_missed db parent now)⟩

theorem CallEngine.Queues.considered {e : CallEngine} {userId : ℤ} {db db' : Db}
    {notes : List Note} (h : CallEngine.Queues (Live userId db) db notes db') :
    Considered e userId db notes db' := by
  cases h with
  | out hnotes hdb => exact .idle hnotes hdb
  | queued parent x hparent hnotes hstate hunder hfresh =>
    exact .queued parent x hparent hnotes hstate hunder hfresh

namespace CallEngine

variable (e : CallEngine) {env : Env} {db : Db}

theorem ends_finishUser (input : FinishUserInput) {userId : ℤ} (huser : 0 < userId)
    (hnow : input.now = db.clock) (hprepared : Prepared userId input.now db input.prepared) :
    (e.finishUser input).Ends exec env
      (fun _ notes db' => Considered e userId db notes db') db := by
  have hlive : ∀ r, input.prepared.ringing = some r → Live userId db r := fun r hr =>
    have hringing := hprepared.ringing r hr
    ⟨hringing.1, hringing.2.1, hringing.2.2.1, hnow ▸ hringing.2.2.2⟩
  have hfound : ∀ r, input.prepared.ringing = none → Read.answer db
      (.findRingingFor input.prepared.outcome.userId input.now) = some r → Live userId db r :=
    fun r _ hr =>
    have hringing := of_findRingingFor hr
    ⟨hringing.1, hringing.2.1.trans hprepared.user, hringing.2.2.1, hnow ▸ hringing.2.2.2⟩
  simp only [finishUser]
  split
  · exact Task.ends_pure (.idle rfl rfl)
  rename_i row hrow
  obtain ⟨hrowUser, hcreated⟩ := hprepared.row row hrow
  split
  · refine Task.ends_call (Task.ends_pure ?_)
    simp only [exec, List.append_nil]
    generalize hinput : ({ row with state := .injected, reason := "live_call",
                                    expiresAt := input.now } : CallCreateInput) = row'
    have hstate : row'.state = .injected := by rw [← hinput]
    rcases create_run db row' with hrun | ⟨id, x, db', hrun, hstate', -, hfresh⟩
    · rw [hrun]
      exact .idle rfl rfl
    · rw [hrun, if_neg (by rw [hstate]; decide)]
      exact .injected x rfl (hstate'.trans hstate) hfresh
  split
  · split
    · exact Task.ends_call (Task.ends_pure (.idle rfl rfl))
    · exact Task.ends_pure (.idle rfl rfl)
  split
  · split
    · -- the ringing call is superseded
      rename_i ringing _ hringing
      have hparent := hlive ringing hringing
      refine Task.ends_bind ((e.ends_supersedeRinging ringing input.now).mono ?_)
      rintro lines notes db₁ ⟨rfl, rfl, rfl⟩
      rw [hparent.missed_notes]
      refine Task.ends_bind (Task.ends_pure ?_)
      have hnone : ∀ r, input.prepared.ringing = none → Read.answer (db.missed ringing input.now)
          (.findRingingFor input.prepared.outcome.userId input.now) = some r → r = ringing :=
        fun r hnone => by simp [hnone] at hringing
      refine (ends_openUser input _ (· = ringing)
        (fun r hr => Option.some.inj (hr.symm.trans hringing)) hnone).mono ?_
      rintro _ notes db' (⟨x, rfl, hxuser, hstate, htop, hdata, hfresh, -⟩ | hqueues)
      · rw [hnow] at hfresh
        refine .superseded ringing x hparent rfl huser (hxuser.trans hrowUser) hstate htop ?_
          hfresh.of_missed
        rw [hdata, ← hnow]
      · rw [hnow] at hqueues
        cases hqueues with
        | out hnotes hdb =>
          exact .stranded ringing [] hparent (by rw [hnotes]; rfl) (by simp) (.inl hdb)
        | queued parent x hunder hnotes hstate hxparent hfresh =>
          exact .stranded ringing _ hparent (by rw [hnotes]; rfl) (by simp)
            (.inr ⟨x, hstate, hunder ▸ hxparent, hfresh.of_missed⟩)
    · refine Task.ends_bind (Task.ends_pure ?_)
      refine (ends_openUser input row _ hlive hfound).mono ?_
      rintro _ notes db' (⟨x, rfl, hxuser, hstate, htop, -, hfresh, hguard⟩ | hqueues)
      · refine .rang x rfl huser (hxuser.trans hrowUser) hstate htop (fun r hr => ?_) hfresh
        have := hguard r hr.mem (hr.user.trans hrowUser.symm) hr.ringing
        have := hr.unexpired
        omega
      · exact hqueues.considered
  · exact (ends_queueUser input row hlive hfound).mono fun _ _ _ h => h.considered

/-- **What a consideration of one user does alone.** -/
theorem considered_alone (request : CallRequest) (userId : ℤ) :
    (e.consider { request with userIds := [userId] }).Ends exec env
      (fun _ notes db' => Considered e userId db notes db') db := by
  simp only [consider]
  split
  · exact Task.ends_pure (.idle rfl rfl)
  rename_i hsome
  have huser : 0 < userId := by
    by_contra hle
    exact hsome (.inl (by simp [distinctIds, hle]))
  have hids : distinctIds [userId] = [userId] := by simp [distinctIds, huser]
  rw [hids]
  refine Task.ends_call (Task.ends_call (Task.ends_call ?_))
  refine Task.ends_bind (Task.ends_collect_one (Task.ends_bind
    ((Task.ends_attempt (e.ends_prepareUser _)).mono ?_)))
  rintro _ notes db₁ ⟨prepared, rfl, rfl, rfl, hprepared⟩
  refine Task.ends_pure (Task.ends_call (Task.ends_collect_one ?_))
  split
  · exact Task.ends_pure (.idle rfl rfl)
  · refine Task.ends_bind ((Task.ends_attempt (e.ends_finishUser _ huser rfl hprepared)).mono ?_)
    rintro _ notes db' ⟨outcome, rfl, hconsidered⟩
    exact Task.ends_pure (by simpa [exec] using hconsidered)

end CallEngine

/-! ### The chain -/

/-- The calls since the user last answered or missed one: those superseded, oldest first, with
their follow-ups, and the last one, with its follow-ups. -/
structure Chain where
  superseded : List CallRow := []
  settled : List CallRow := []
  current : Option CallRow := none
  waiting : List CallRow := []

namespace Chain

/-- The calls a claim is to read out besides the one claimed. -/
def calls (chain : Chain) : List CallRow := chain.superseded ++ (chain.settled ++ chain.waiting)

/-- The lines the last call brought along itself; one that supersedes another has none. -/
def own (chain : Chain) : List String :=
  if chain.superseded = [] then (chain.current.bind (·.data.laterLines)).getD [] else []

/-- The chain after a consideration that left the notes and led to the tables. -/
def after (chain : Chain) (notes : List Note) (db : Db) : Chain :=
  match notes with
  | [.rang id _ _] => { current := db.calls.find? id }
  | [.missed _, .rang id _ _] =>
    { superseded := chain.superseded ++ chain.current.toList
      settled := chain.settled ++ chain.waiting
      current := db.calls.find? id }
  | .missed _ :: _ => {}
  | [.queued id _ _] => { chain with waiting := chain.waiting ++ (db.calls.find? id).toList }
  | _ => chain

end Chain

/-- The line of a call, in some language and at some time. -/
def LineOf (e : CallEngine) (r : CallRow) (line : String) : Prop :=
  ∃ lang now, line = e.followupLine r lang now

/-- The lines are those of `own` and exactly one for each call, in some order. -/
def Covers (e : CallEngine) (own lines : List String) (calls : List CallRow) : Prop :=
  ∃ ls, List.Forall₂ (LineOf e) calls ls ∧ lines.Perm (own ++ ls)

theorem Covers.length {e : CallEngine} {own lines : List String} {calls : List CallRow}
    (h : Covers e own lines calls) : lines.length = own.length + calls.length := by
  obtain ⟨ls, hlines, hperm⟩ := h
  rw [hperm.length_eq, List.length_append, hlines.length_eq]

theorem lines_map (e : CallEngine) (calls : List CallRow) (lang : String) (now : ℤ) :
    List.Forall₂ (LineOf e) calls (calls.map fun call => e.followupLine call lang now) := by
  induction calls with
  | nil => exact .nil
  | cons call calls ih => exact .cons ⟨lang, now, rfl⟩ ih

/-- What the last call of a chain carries: the lines of the call it superseded. -/
inductive Carried (e : CallEngine) (chain : Chain) (c : CallRow) : Prop
  | nothing : chain.superseded = [] → chain.settled = [] → Carried e chain c
  | last (earlier before followups : List CallRow) (p : CallRow) (lines : List String) :
      chain.superseded = earlier ++ [p] → chain.settled = before ++ followups →
      (earlier = [] → before = []) → c.data.laterLines = some lines →
      List.Forall₂ (LineOf e) (p :: followups) lines → Carried e chain c

/-- What the tables hold of the chain. -/
structure Linked (e : CallEngine) (userId : ℤ) (db : Db) (chain : Chain) : Prop where
  positive : 0 < db.calls.nextId
  parents : ∀ r ∈ db.calls, r.state = .queued → r.parentCallId < db.calls.nextId
  live : ∀ r, Live userId db r → chain.current = some r
  known : ∀ c, chain.current = some c →
    0 < c.id ∧ c.id < db.calls.nextId ∧ 0 < userId ∧ c.userId = userId ∧ c.parentCallId = 0
  same : ∀ c, chain.current = some c → ∀ r ∈ db.calls, r.id = c.id → r.state = .ringing →
    r = c ∧ db.followups c.id = chain.waiting
  carried : ∀ c, chain.current = some c → Carried e chain c

section Linked

variable {e : CallEngine} {userId : ℤ} {db db' : Db} {chain : Chain} {notes : List Note}

theorem Fresh.mem {old : Calls} {x r : CallRow} (h : Fresh db db' old x) :
    r ∈ db'.calls ↔ r ∈ old ∨ r = x := by
  rw [Rows.mem_def, h.rows, List.mem_append, List.mem_singleton, Rows.mem_def]

theorem Fresh.find {old : Calls} {x : CallRow} (h : Fresh db db' old x) :
    db'.calls.find? x.id = some x :=
  Rows.find?_eq (h.mem.2 (.inr rfl))

/-- The follow-ups of a call after one more row. -/
theorem Fresh.followups {old : Calls} {x : CallRow} (h : Fresh db db' old x) (id : ℕ) :
    db'.followups id = (old.rows.filter fun r => r.parentCallId = id ∧ r.state = .queued) ++
      if x.parentCallId = id ∧ x.state = .queued then [x] else [] := by
  rw [Db.followups, h.rows, List.filter_append]
  congr 1
  by_cases hx : x.parentCallId = id ∧ x.state = .queued <;> simp [hx]

/-- What rings after a call was missed rang before, and is another. -/
theorem ringing_of_missed {parent r : CallRow} {now : ℤ} (hr : r ∈ (db.missed parent now).calls)
    (hringing : r.state = .ringing) (hparent : parent ∈ db.calls)
    (hparentRings : parent.state = .ringing) : r ∈ db.calls ∧ r.id ≠ parent.id := by
  have hany : db.calls.rows.any (Db.ringing parent.id) = true :=
    List.any_eq_true.2 ⟨parent, hparent, by simp [Db.ringing, hparentRings]⟩
  simp only [Db.missed, Write.run, if_pos hany] at hr
  obtain ⟨hmem, -⟩ := ringing_of_setCalls (by decide) hr hringing
  obtain ⟨hmem, hnot⟩ := ringing_of_setCalls (by decide) hmem hringing
  exact ⟨hmem, fun hid => by simp [Db.ringing, hid, hringing] at hnot⟩

/-- What is queued after a call was missed was queued before. -/
theorem queued_of_missed {parent r : CallRow} {now : ℤ} (hr : r ∈ (db.missed parent now).calls)
    (hqueued : r.state = .queued) :
    ∃ r₀ ∈ db.calls, r₀.state = .queued ∧ r₀.parentCallId = r.parentCallId := by
  rcases (effect_run db (w := .missRingingAndCancel parent now) trivial).of_mem hr with
    ⟨r₀, hr₀, hsame, hbecame⟩ | ⟨-, hinserted⟩
  · exact ⟨r₀, hr₀, hbecame.of_queued hqueued, hsame.parentCallId.symm⟩
  · cases hinserted with
    | queued _ _ hrow =>
      obtain ⟨_, hw, -⟩ := hrow
      cases hw
    | ringing _ _ _ hringing => simp [hringing] at hqueued
    | injected hinjected => simp [hinjected] at hqueued

theorem Linked.nextId_pos {old : Calls} {x : CallRow} (hlinked : Linked e userId db chain)
    (hfresh : Fresh db db' old x) : 0 < db'.calls.nextId := by
  have := hlinked.positive
  have := hfresh.nextId
  omega

theorem Linked.injected {x : CallRow} (hlinked : Linked e userId db chain)
    (hstate : x.state = .injected) (hfresh : Fresh db db' db.calls x) :
    Linked e userId db' chain := by
  have hold : ∀ r ∈ db'.calls, r.state ≠ .injected → r ∈ db.calls := fun r hr hnot =>
    (hfresh.mem.1 hr).resolve_right fun heq => hnot (heq ▸ hstate)
  refine ⟨hlinked.nextId_pos hfresh, fun r hr hqueued => ?_, fun r hr => ?_, fun c hc => ?_,
    fun c hc r hr hid hringing => ?_, hlinked.carried⟩
  · have := hlinked.parents r (hold r hr (by simp [hqueued])) hqueued
    have := hfresh.nextId
    omega
  · exact hlinked.live r
      ⟨hold r hr.mem (by simp [hr.ringing]), hr.user, hr.ringing, hfresh.clock ▸ hr.unexpired⟩
  · obtain ⟨hpos, hlt, hrest⟩ := hlinked.known c hc
    exact ⟨hpos, by have := hfresh.nextId; omega, hrest⟩
  · obtain ⟨heq, hwaiting⟩ :=
      hlinked.same c hc r (hold r hr (by simp [hringing])) hid hringing
    refine ⟨heq, ?_⟩
    rw [hfresh.followups, if_neg (by simp [hstate]), List.append_nil]
    exact hwaiting

/-- A call that just began to ring, when it is the last of the chain. -/
theorem linked_of_ringing {old : Calls} {x : CallRow} (hpositive : 0 < db.calls.nextId)
    (hfresh : Fresh db db' old x) (hstate : x.state = .ringing) (huser : 0 < userId)
    (hxuser : x.userId = userId) (htop : x.parentCallId = 0)
    (hparents : ∀ r ∈ old, r.state = .queued → r.parentCallId < db.calls.nextId)
    (hlive : ∀ r ∈ old, r.userId = userId → r.state = .ringing → ¬db.clock < r.expiresAt)
    (hcurrent : chain.current = some x) (hwaiting : chain.waiting = [])
    (hcarried : Carried e chain x) : Linked e userId db' chain := by
  have hone : ∀ c, chain.current = some c → c = x := fun c hc =>
    Option.some.inj (hc.symm.trans hcurrent)
  have hnext := hfresh.nextId
  have hid := hfresh.id
  refine ⟨by omega, fun r hr hqueued => ?_, fun r hr => ?_, fun c hc => ?_,
    fun c hc r hr hrid _ => ?_, fun c hc => hone c hc ▸ hcarried⟩
  · rcases hfresh.mem.1 hr with hr | rfl
    · have := hparents r hr hqueued
      omega
    · simp [hstate] at hqueued
  · rcases hfresh.mem.1 hr.mem with hmem | rfl
    · exact absurd (hfresh.clock ▸ hr.unexpired) (hlive r hmem hr.user hr.ringing)
    · exact hcurrent
  · obtain rfl := hone c hc
    exact ⟨by omega, by omega, huser, hxuser, htop⟩
  · obtain rfl := hone c hc
    refine ⟨Rows.eq_of_id hr (hfresh.mem.2 (.inr rfl)) hrid, ?_⟩
    rw [hfresh.followups, if_neg (by simp [hstate]), List.append_nil, hwaiting]
    refine List.filter_eq_nil_iff.2 fun r₀ hr₀ => ?_
    by_contra hp
    obtain ⟨hparent, hqueued⟩ : r₀.parentCallId = c.id ∧ r₀.state = .queued := by simpa using hp
    have := hparents r₀ hr₀ hqueued
    omega

theorem Linked.parents_missed (hlinked : Linked e userId db chain) {parent : CallRow} {now : ℤ} :
    ∀ r ∈ (db.missed parent now).calls, r.state = .queued → r.parentCallId < db.calls.nextId := by
  intro r hr hqueued
  obtain ⟨r₀, hr₀, hqueued₀, hparent⟩ := queued_of_missed hr hqueued
  exact hparent ▸ hlinked.parents r₀ hr₀ hqueued₀

/-- Nothing rings for the user after the last call was missed. -/
theorem Linked.none_live (hlinked : Linked e userId db chain) {parent : CallRow}
    (hparent : Live userId db parent) {now : ℤ} : ∀ r ∈ (db.missed parent now).calls,
    r.userId = userId → r.state = .ringing → ¬db.clock < r.expiresAt := by
  intro r hr huser hringing hlive
  obtain ⟨hmem, hid⟩ := ringing_of_missed hr hringing hparent.mem hparent.ringing
  have hcurrent := hlinked.live r ⟨hmem, huser, hringing, hlive⟩
  rw [hlinked.live parent hparent] at hcurrent
  exact hid (congrArg CallRow.id (Option.some.inj hcurrent).symm)

/-- What a call that supersedes the last of the chain carries. -/
theorem Linked.carries (hlinked : Linked e userId db chain) {parent x : CallRow}
    (hparent : Live userId db parent)
    (hlines : x.data.laterLines = some (e.linesOf db parent db.clock)) :
    Carried e { superseded := chain.superseded ++ chain.current.toList
                settled := chain.settled ++ chain.waiting
                current := some x } x := by
  have hcurrent := hlinked.live parent hparent
  obtain ⟨-, hwaiting⟩ := hlinked.same parent hcurrent parent hparent.mem rfl hparent.ringing
  refine .last chain.superseded chain.settled chain.waiting parent _ (by rw [hcurrent]; rfl) rfl
    (fun hnone => ?_) hlines ?_
  · cases hlinked.carried parent hcurrent with
    | nothing _ hsettled => exact hsettled
    | last earlier _ _ p _ hsuperseded => simp [hnone] at hsuperseded
  · rw [← hwaiting]
    exact .cons ⟨_, _, rfl⟩ (lines_map e _ _ _)

/-- While nothing rings for the user there is no chain. -/
theorem linked_empty (hpositive : 0 < db.calls.nextId)
    (hparents : ∀ r ∈ db.calls, r.state = .queued → r.parentCallId < db.calls.nextId)
    (hlive : ∀ r, ¬Live userId db r) : Linked e userId db {} :=
  ⟨hpositive, hparents, fun r hr => absurd hr (hlive r), fun _ hc => (by cases hc),
    fun _ hc => (by cases hc), fun _ hc => (by cases hc)⟩

theorem after_stranded {id : ℕ} {later : List Note}
    (hlater : ∀ id user key, later ≠ [.rang id user key]) :
    chain.after (.missed id :: later) db = {} := by
  simp only [Chain.after]

theorem Linked.stranded (hlinked : Linked e userId db chain) {parent : CallRow}
    (hparent : Live userId db parent)
    (hdb : db' = db.missed parent db.clock ∨ ∃ x : CallRow, x.state = .queued ∧
      x.parentCallId = parent.id ∧ Fresh db db' (db.missed parent db.clock).calls x) :
    Linked e userId db' {} := by
  have hnone : ∀ r ∈ (db.missed parent db.clock).calls, r.userId = userId →
      r.state = .ringing → ¬db.clock < r.expiresAt := hlinked.none_live hparent
  rcases hdb with rfl | ⟨x, hstate, hxparent, hfresh⟩
  · refine linked_empty ?_ ?_ fun r hr => ?_
    · rw [nextId_missed]
      exact hlinked.positive
    · rw [nextId_missed]
      exact hlinked.parents_missed
    · exact hnone r hr.mem hr.user hr.ringing (clock_missed db parent db.clock ▸ hr.unexpired)
  · have hlt := Rows.id_lt hparent.mem
    have hnext := hfresh.nextId
    refine linked_empty (by omega) (fun r hr hqueued => ?_) fun r hr => ?_
    · rcases hfresh.mem.1 hr with hr | rfl
      · have := hlinked.parents_missed r hr hqueued
        omega
      · omega
    · rcases hfresh.mem.1 hr.mem with hmem | rfl
      · exact hnone r hmem hr.user hr.ringing (hfresh.clock ▸ hr.unexpired)
      · exact absurd hr.ringing (by simp [hstate])

theorem Linked.queued (hlinked : Linked e userId db chain) {parent x : CallRow}
    (hparent : Live userId db parent) (hstate : x.state = .queued)
    (hxparent : x.parentCallId = parent.id) (hfresh : Fresh db db' db.calls x) :
    Linked e userId db' { chain with waiting := chain.waiting ++ [x] } := by
  have hcurrent := hlinked.live parent hparent
  have hold : ∀ r ∈ db'.calls, r.state = .ringing → r ∈ db.calls := fun r hr hringing =>
    (hfresh.mem.1 hr).resolve_right fun heq => by simp [heq, hstate] at hringing
  have hlt := Rows.id_lt hparent.mem
  have hnext := hfresh.nextId
  refine ⟨hlinked.nextId_pos hfresh, fun r hr hqueued => ?_, fun r hr => ?_, fun c hc => ?_,
    fun c hc r hr hid hringing => ?_, fun c hc => ?_⟩
  · rcases hfresh.mem.1 hr with hr | rfl
    · have := hlinked.parents r hr hqueued
      omega
    · omega
  · exact hlinked.live r ⟨hold r hr.mem hr.ringing, hr.user, hr.ringing, hfresh.clock ▸ hr.unexpired⟩
  · obtain ⟨hpos, hknown, hrest⟩ := hlinked.known c hc
    exact ⟨hpos, by omega, hrest⟩
  · obtain ⟨heq, hwaiting⟩ := hlinked.same c hc r (hold r hr hringing) hid hringing
    refine ⟨heq, ?_⟩
    obtain rfl : parent = c := Option.some.inj (hcurrent.symm.trans hc)
    rw [hfresh.followups, if_pos ⟨hxparent, hstate⟩]
    exact congrArg (· ++ [x]) hwaiting
  · cases hlinked.carried c hc with
    | nothing hsuperseded hsettled => exact .nothing hsuperseded hsettled
    | last earlier before followups p lines hsuperseded hsettled hfirst hlines hall =>
      exact .last earlier before followups p lines hsuperseded hsettled hfirst hlines hall

/-- The step lemma: a consideration keeps the chain and the tables linked. -/
theorem Linked.after (hlinked : Linked e userId db chain)
    (hconsidered : Considered e userId db notes db') :
    Linked e userId db' (chain.after notes db') := by
  cases hconsidered with
  | idle hnotes hdb =>
    subst hnotes hdb
    exact hlinked
  | injected x hnotes hstate hfresh =>
    subst hnotes
    exact hlinked.injected hstate hfresh
  | rang x hnotes huser hxuser hstate htop hnone hfresh =>
    subst hnotes
    refine linked_of_ringing hlinked.positive hfresh hstate huser hxuser htop hlinked.parents
      (fun r hr huser hringing hlive => hnone r ⟨hr, huser, hringing, hlive⟩) hfresh.find rfl
      (.nothing rfl rfl)
  | superseded parent x hparent hnotes huser hxuser hstate htop hlines hfresh =>
    subst hnotes
    refine linked_of_ringing hlinked.positive hfresh hstate huser hxuser htop
      hlinked.parents_missed (hlinked.none_live hparent) hfresh.find rfl ?_
    simp only [Chain.after, hfresh.find]
    exact hlinked.carries hparent hlines
  | stranded parent later hparent hnotes hlater hdb =>
    subst hnotes
    rw [after_stranded hlater]
    exact hlinked.stranded hparent hdb
  | queued parent x hparent hnotes hstate hxparent hfresh =>
    subst hnotes
    simp only [Chain.after, hfresh.find]
    exact hlinked.queued hparent hstate hxparent hfresh

end Linked

/-! ### Turns of one user -/

/-- A user's candidates are considered one after the other, and time passes in between. -/
inductive Turn where
  | wait (seconds : ℕ)
  | consider (env : Env) (request : CallRequest)

/-- One turn for a user, alone. -/
def Turn.play (e : CallEngine) (userId : ℤ) (db : Db) : Turn → List Note × Db
  | .wait seconds => (Write.run db (.tick seconds)).2
  | .consider env request =>
    ((e.consider { request with userIds := [userId] }).alone exec env db).2

/-- The chain and the tables after some turns. -/
def play (e : CallEngine) (userId : ℤ) (chain : Chain) (db : Db) : List Turn → Chain × Db
  | [] => (chain, db)
  | turn :: turns =>
    let (notes, db) := turn.play e userId db
    play e userId (chain.after notes db) db turns

section Play

variable {e : CallEngine} {userId : ℤ} {db : Db} {chain : Chain}

theorem Linked.wait (hlinked : Linked e userId db chain) (seconds : ℕ) :
    Linked e userId { db with clock := db.clock + seconds } chain := by
  refine ⟨hlinked.positive, hlinked.parents, fun r hr => ?_, hlinked.known, hlinked.same,
    hlinked.carried⟩
  have hunexpired : db.clock + seconds < r.expiresAt := hr.unexpired
  exact hlinked.live r ⟨hr.mem, hr.user, hr.ringing, by omega⟩

/-- The run lemma: turns keep the chain and the tables linked. -/
theorem Linked.play (hlinked : Linked e userId db chain) (turns : List Turn) :
    Linked e userId (play e userId chain db turns).2 (play e userId chain db turns).1 := by
  induction turns generalizing chain db with
  | nil => exact hlinked
  | cons turn turns ih =>
    refine ih ?_
    cases turn with
    | wait seconds => exact hlinked.wait seconds
    | consider env request =>
      obtain ⟨-, -, hconsidered⟩ := e.considered_alone request userId
      exact hlinked.after hconsidered

end Play

/-! ### The claim and the miss -/

namespace CallEngine

variable (e : CallEngine) {env : Env} {db : Db}

theorem ends_each {f : α → Io Unit} {l : List α}
    (h : ∀ a db, (f a).Ends exec env (fun _ _ _ => True) db) :
    (Task.each f l).Ends exec env (fun _ _ _ => True) db := by
  induction l generalizing db with
  | nil => exact Task.ends_pure trivial
  | cons a l ih =>
    exact Task.ends_bind ((h a db).mono fun _ _ db' _ => ih.mono fun _ _ _ _ => trivial)

theorem ends_emitResponse (responseId : ℕ) :
    (emitResponse responseId).Ends exec env (fun _ _ _ => True) db := by
  refine Task.ends_call ?_
  split
  · exact Task.ends_pure trivial
  · refine Task.ends_call ((ends_each fun m db => ?_).mono fun _ _ _ _ => trivial)
    split
    · exact Task.ends_call (Task.ends_pure trivial)
    · exact Task.ends_pure trivial

theorem ends_attendAnswered (call : CallRow) :
    (attendAnswered call).Ends exec env (fun _ _ _ => True) db := by
  refine Task.ends_call ?_
  split
  · exact Task.ends_pure trivial
  split
  · exact Task.ends_pure trivial
  refine Task.ends_call (Task.ends_call (Task.ends_call ?_))
  split
  · refine Task.ends_bind ?_
    refine Task.ends_call ((ends_each fun call db => ?_).mono fun _ _ _ _ => ?_)
    · exact Task.ends_call (Task.ends_pure trivial)
    · exact (ends_emitResponse _).mono fun _ _ _ _ => trivial
  · exact Task.ends_pure trivial

/-- A claim of a call that rings reads out what it carries, and its follow-ups. -/
theorem ends_claim {request : CallClaimRequest} {c : CallRow} {userId : ℤ}
    (hlive : Live userId db c) (hid : request.callId = c.id) (huser : request.userId = userId)
    (hpos : 0 < c.id) (huserPos : 0 < userId) (htop : c.parentCallId = 0) :
    (e.claim request).Ends exec env (fun outcome _ _ => outcome =
      { status := .claimed
        openingLine := c.openingLine
        laterLines := e.laterLines c (db.followups c.id) db.clock }) db := by
  have hrequest : ¬(request.callId = 0 ∨ request.userId ≤ 0) := by omega
  have hfound : db.calls.find? request.callId = some c := hid ▸ Rows.find?_eq hlive.mem
  have hmine : ¬(c.userId ≠ request.userId ∨ c.parentCallId ≠ 0 ∨ c.state = .injected ∨
      c.state = .queued) := by simp [hlive.user, huser, htop, hlive.ringing]
  have hnone : claimAnswer request c db.clock = none := by
    simp [claimAnswer, hlive.ringing, hlive.unexpired]
  have hany : db.calls.rows.any (Db.ringingFor request.callId request.userId db.clock) = true :=
    List.any_eq_true.2 ⟨c, hlive.mem, by
      simp [Db.ringingFor, hid, huser, hlive.user, hlive.ringing, hlive.unexpired]⟩
  simp only [claim, if_neg hrequest]
  refine Task.ends_call ?_
  simp only [exec, Read.answer, hfound, if_neg hmine]
  refine Task.ends_call ?_
  simp only [exec, Read.answer, hnone]
  refine Task.ends_call ?_
  simp only [exec, Write.run, if_pos hany]
  refine Task.ends_call (Task.ends_bind ((ends_attendAnswered _).mono fun _ _ _ _ => ?_))
  simp only [answerClaim, if_true, hid]
  exact Task.ends_call (Task.ends_pure rfl)

/-- A sweep that finds the call expired sends the notice that it was missed. -/
theorem awaited_sweepCall {c : CallRow} {now : ℤ} (hmem : c ∈ db.calls)
    (hringing : c.state = .ringing) (hexpired : c.expiresAt ≤ now) (hnotifier : e.notifier = true) :
    (e.sweepCall now c).awaited exec env db =
      [.read (.findFollowups c.id), .write (.missRingingAndCancel c now),
        .ask (.emit c.userId "call_cancel" "expired" c.id), .ask (.notify
          { userId := c.userId
            type := "call"
            title := c.data.callMissedTitle
            body := joinFollowups c.missedLine
              ((db.followups c.id).map fun followup => e.followupLine followup c.lang now)
            commandId := "call-missed:call-" ++ toString c.id })] := by
  have hany : db.calls.rows.any (Db.ringing c.id) = true :=
    List.any_eq_true.2 ⟨c, hmem, by simp [Db.ringing, hringing]⟩
  have hwritten : (Write.run db (.missRingingAndCancel c now)).1 = true := by
    simp only [Write.run, if_pos hany]
  have hnotify : True ∧ e.notifier = true := ⟨trivial, hnotifier⟩
  simp only [sweepCall, if_pos hexpired, settleMissed, read, write, ask, Task.awaited_call, exec,
    hwritten, if_true]
  rw [if_pos hnotify]
  rfl

/-- The lines carried are put before the others one by one. -/
theorem laterLines_eq (c : CallRow) (followups : List CallRow) (now : ℤ) :
    e.laterLines c followups now = (c.data.laterLines.getD []).reverse ++
      followups.map fun followup => e.followupLine followup c.lang now := by
  have hfoldl : ∀ carried lines : List String,
      carried.foldl (fun lines line => line :: lines) lines = carried.reverse ++ lines := by
    intro carried
    induction carried with
    | nil => exact fun _ => rfl
    | cons line carried ih => intro lines; simp [ih]
  exact hfoldl _ _

end CallEngine

section Covered

variable {e : CallEngine} {userId : ℤ} {db : Db} {chain : Chain} {c : CallRow}

/-- The lines a claim reads out cover the chain if one call was superseded at most. -/
theorem Linked.claimed (hlinked : Linked e userId db chain) (hcurrent : chain.current = some c)
    (hlive : Live userId db c) : Covers e chain.own
      (e.laterLines c (db.followups c.id) db.clock) chain.calls ↔ chain.superseded.length ≤ 1 := by
  obtain ⟨-, hwaiting⟩ := hlinked.same c hcurrent c hlive.mem rfl hlive.ringing
  rw [e.laterLines_eq, hwaiting]
  cases hlinked.carried c hcurrent with
  | nothing hsuperseded hsettled =>
    refine ⟨fun _ => by simp [hsuperseded], fun _ =>
      ⟨chain.waiting.map fun followup => e.followupLine followup c.lang db.clock, ?_, ?_⟩⟩
    · rw [Chain.calls, hsuperseded, hsettled]
      exact lines_map e chain.waiting c.lang db.clock
    · rw [Chain.own, if_pos hsuperseded, hcurrent]
      exact (List.reverse_perm _).append_right _
  | last earlier before followups p lines hsuperseded hsettled hfirst hlines hall =>
    have hown : chain.own = [] := by
      rw [Chain.own, if_neg (by simp [hsuperseded])]
    rw [hown, hlines]
    cases earlier with
    | nil =>
      refine ⟨fun _ => by simp [hsuperseded], fun _ => ⟨lines ++
        chain.waiting.map fun followup => e.followupLine followup c.lang db.clock, ?_, ?_⟩⟩
      · rw [Chain.calls, hsuperseded, hsettled, hfirst rfl]
        exact List.rel_append hall (lines_map e chain.waiting c.lang db.clock)
      · exact (List.reverse_perm lines).append_right _
    | cons r earlier =>
      -- the lines of the calls superseded before are gone
      refine ⟨fun hcovers => ?_, fun hle => ?_⟩
      · have hlength := hcovers.length
        have := hall.length_eq
        simp [Chain.calls, hsuperseded, hsettled] at hlength this
        omega
      · simp [hsuperseded] at hle

/-- The lines of the notice that the call was missed cover the chain if none was superseded. -/
theorem Linked.missed (hlinked : Linked e userId db chain) (hcurrent : chain.current = some c)
    (hmem : c ∈ db.calls) (hringing : c.state = .ringing) (now : ℤ) : Covers e []
      ((db.followups c.id).map fun followup => e.followupLine followup c.lang now) chain.calls ↔
        chain.superseded = [] := by
  obtain ⟨-, hwaiting⟩ := hlinked.same c hcurrent c hmem rfl hringing
  rw [hwaiting]
  refine ⟨fun hcovers => ?_, fun hnone => ?_⟩
  · have hlength := hcovers.length
    simp [Chain.calls] at hlength
    exact List.length_eq_zero_iff.1 (by omega)
  · refine ⟨_, ?_, List.Perm.refl _⟩
    cases hlinked.carried c hcurrent with
    | nothing _ hsettled =>
      rw [Chain.calls, hnone, hsettled]
      exact lines_map e chain.waiting c.lang now
    | last earlier _ _ p _ hsuperseded => simp [hnone] at hsuperseded

end Covered

section Runs

variable {e : CallEngine} {clock userId : ℤ} {h : List Note} {p : Pool Db Op Op.Ans}

/-- **Superseded calls are named**, if one was at most when the last call is claimed, and if none
was when it is missed. -/
theorem superseded_named (hclock : 0 < clock) (hrun : Run (Step e) (start clock) h p)
    (hnone : ∀ r, ¬Live userId p.shared r) (turns : List Turn) {chain : Chain} {db : Db}
    (hplay : play e userId {} p.shared turns = (chain, db)) {c : CallRow}
    (hcurrent : chain.current = some c) :
    (Live userId db c → ∀ (request : CallEngine.CallClaimRequest) (env : Env),
      request.callId = c.id → request.userId = userId →
      (e.claim request).Ends exec env (fun outcome _ _ => outcome.status = .claimed ∧
        outcome.openingLine = c.openingLine ∧
        (Covers e chain.own outcome.laterLines chain.calls ↔ chain.superseded.length ≤ 1)) db) ∧
    (c ∈ db.calls → c.state = .ringing → e.notifier = true → ∀ (env : Env) (now : ℤ),
      c.expiresAt ≤ now → ∃ notice lines, (e.sweepCall now c).awaited exec env db =
          [.read (.findFollowups c.id), .write (.missRingingAndCancel c now),
            .ask (.emit c.userId "call_cancel" "expired" c.id), .ask (.notify notice)] ∧
        notice.body = CallEngine.joinFollowups c.missedLine lines ∧
        (Covers e [] lines chain.calls ↔ chain.superseded = [])) := by
  obtain ⟨m, -, hsettled⟩ := settled_of_run hclock hrun
  have hmachine := machine_of_run hclock hrun
  have hlinked : Linked e userId db chain := by
    have hstart : Linked e userId p.shared {} :=
      linked_empty hmachine.positive.1 hsettled.parents hnone
    have hend := hstart.play turns
    rwa [hplay] at hend
  obtain ⟨hpos, -, huserPos, -, htop⟩ := hlinked.known c hcurrent
  refine ⟨fun hlive request env hid huser => ?_, fun hmem hringing hnotifier env now hexpired => ?_⟩
  · refine (e.ends_claim hlive hid huser hpos huserPos htop).mono ?_
    rintro outcome _ _ rfl
    exact ⟨rfl, rfl, hlinked.claimed hcurrent hlive⟩
  · exact ⟨_, _, e.awaited_sweepCall hmem hringing hexpired hnotifier, rfl,
      hlinked.missed hcurrent hmem hringing now⟩

/-- A user's critical call of a thread. -/
def criticalTurn (threadKey : String) : Turn :=
  .consider {}
    { candidate :=
        { trigger := .guardCritical
          critical := true
          dedupeKey := threadKey
          urgency := "critical"
          environmentId := 0
          lang := ""
          data := guardData threadKey "critical" }
      userIds := [] }

/-- Whether the last call of a chain still rings for a user. -/
def rings (userId : ℤ) (r : Chain × Db) : Bool :=
  r.1.current.any fun c => c ∈ r.2.calls.rows ∧ c.userId = userId ∧ c.state = .ringing ∧
    r.2.clock < c.expiresAt

theorem live_of_rings {userId : ℤ} {chain : Chain} {db : Db}
    (h : rings userId (chain, db) = true) : ∃ c, chain.current = some c ∧ Live userId db c := by
  obtain ⟨c, hcurrent, hlive⟩ := (Option.any_eq_true _ _).1 h
  obtain ⟨hmem, huser, hringing, hunexpired⟩ := of_decide_eq_true hlive
  exact ⟨c, hcurrent, hmem, huser, hringing, hunexpired⟩

/-- The claim of a call that superseded one reads out its line. -/
theorem superseded_named_one : ∃ chain db c,
    play plainEngine 7 {} (start 100).shared [criticalTurn "a", criticalTurn "b"] = (chain, db) ∧
      chain.superseded.length = 1 ∧
      (plainEngine.claim { callId := c, userId := 7, sessionId := "phone" }).Ends exec {}
        (fun outcome _ _ => Covers plainEngine chain.own outcome.laterLines chain.calls) db := by
  have hplay : rings 7 (play plainEngine 7 {} (start 100).shared
        [criticalTurn "a", criticalTurn "b"]) = true ∧
      (play plainEngine 7 {} (start 100).shared
        [criticalTurn "a", criticalTurn "b"]).1.superseded.length = 1 := by
    decide +kernel
  rcases hresult : play plainEngine 7 {} (start 100).shared
    [criticalTurn "a", criticalTurn "b"] with ⟨chain, db⟩
  rw [hresult] at hplay
  obtain ⟨c, hcurrent, hlive⟩ := live_of_rings hplay.1
  have hnone : ∀ r, ¬Live 7 (start 100).shared r := fun r hr => absurd hr.mem List.not_mem_nil
  refine ⟨chain, db, c.id, rfl, hplay.2, ?_⟩
  exact ((superseded_named (by decide) .start hnone _ hresult hcurrent).1 hlive
    { callId := c.id, userId := 7, sessionId := "phone" } {} rfl rfl).mono
      fun outcome _ _ hnamed => hnamed.2.2.2 hplay.2.le

/-- Of two superseded calls the first is not read out. -/
theorem superseded_forgotten : ¬∀ (e : CallEngine) (clock userId : ℤ) (turns : List Turn)
    (request : CallEngine.CallClaimRequest) (env : Env), 0 < clock →
    ∀ chain db c, play e userId {} (start clock).shared turns = (chain, db) →
      chain.current = some c → Live userId db c → request.callId = c.id →
      request.userId = userId → (e.claim request).Ends exec env
        (fun outcome _ _ => Covers e chain.own outcome.laterLines chain.calls) db := by
  intro hall
  have hplay : ∃ r, play plainEngine 7 {} (start 100).shared
        [criticalTurn "a", criticalTurn "b", criticalTurn "c"] = r ∧ rings 7 r = true ∧
      r.1.own.length = 0 ∧ r.1.calls.length = 2 ∧ (r.1.current.any fun c => c.id = 3) = true ∧
      ((plainEngine.claim { callId := 3, userId := 7, sessionId := "phone" }).alone
        exec {} r.2).1.map (fun outcome => outcome.laterLines.length) = some 1 :=
    ⟨_, rfl, by decide +kernel⟩
  obtain ⟨⟨chain, db⟩, hresult, hplay⟩ := hplay
  obtain ⟨hrings, hown, hcalls, hid, houtcome⟩ := hplay
  obtain ⟨c, hcurrent, hlive⟩ := live_of_rings hrings
  rw [hcurrent] at hid
  obtain ⟨outcome, hsome, hcovers⟩ := hall plainEngine 100 7 _
    { callId := 3, userId := 7, sessionId := "phone" } {} (by decide) chain db c hresult hcurrent
    hlive (of_decide_eq_true hid).symm rfl
  have hlength := hcovers.length
  dsimp only at hown hcalls
  rw [hsome] at houtcome
  have hone : outcome.laterLines.length = 1 := Option.some.inj houtcome
  omega

end Runs

end Call

end ArgusBackend
