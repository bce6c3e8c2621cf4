import ArgusBackend.Modules.Engine

/-!
# The jobs of the modules

Commands and the thread change the same table of jobs, and the thread plans a step under one lock
and applies it under another.  Whatever comes between, one job runs at a time, a module has one
open job, and every job goes through the states in their order and ends once.

* `Edit` : a change of the table that this allows;
* `Held` : what the engine knows of the job in hand;
* `jobs_keep_machine` : all runs.
-/

namespace ArgusBackend

namespace Modules

open Relation

/-- The states that a job may enter next. -/
def moves : JobState → List JobState
  | .queued => [.checking, .removing, .failed, .paused, .cancelled]
  | .checking => [.verifying, .downloading, .failed, .paused, .cancelled, .queued]
  | .downloading => [.verifying, .failed, .paused, .cancelled, .queued]
  | .verifying => [.activating, .downloading, .paused, .cancelled, .queued]
  | .activating => [.healthCheck, .queued]
  | .healthCheck => [.done, .failed, .queued]
  | .removing => [.done, .purging, .failed, .paused, .cancelled, .queued]
  | .purging => [.done, .failed, .paused, .cancelled, .queued]
  | .paused => [.queued, .cancelled]
  | .done | .failed | .cancelled => []

/-- What becomes of a job. -/
structure Later (job job' : ModuleJob) : Prop where
  id : job'.id = job.id
  moduleId : job'.moduleId = job.moduleId
  kind : job'.kind = job.kind
  bytesTotal : job'.bytesTotal = job.bytesTotal
  requestedBy : job'.requestedBy = job.requestedBy
  createdAt : job'.createdAt = job.createdAt
  bytesDone : job.bytesDone ≤ job'.bytesDone
  path : ReflTransGen (fun a b => b ∈ moves a) job.state job'.state
  ended : jobTerminal job.state = true → job' = job

theorem Later.refl (job : ModuleJob) : Later job job :=
  ⟨rfl, rfl, rfl, rfl, rfl, rfl, le_rfl, .refl, fun _ => rfl⟩

theorem Later.trans {a b c : ModuleJob} (hab : Later a b) (hbc : Later b c) : Later a c where
  id := hbc.id.trans hab.id
  moduleId := hbc.moduleId.trans hab.moduleId
  kind := hbc.kind.trans hab.kind
  bytesTotal := hbc.bytesTotal.trans hab.bytesTotal
  requestedBy := hbc.requestedBy.trans hab.requestedBy
  createdAt := hbc.createdAt.trans hab.createdAt
  bytesDone := hab.bytesDone.trans hbc.bytesDone
  path := hab.path.trans hbc.path
  ended h := by
    obtain rfl := hab.ended h
    exact hbc.ended h

/-- An update that the job may take. -/
structure Takes (job : ModuleJob) (input : ModuleJobUpdate) : Prop where
  unfinished : jobTerminal job.state = false
  moved : ∀ state, input.state = some state → state ∈ moves job.state
  grown : ∀ bytes, input.bytesDone = some bytes → job.bytesDone ≤ bytes
  total : input.bytesTotal = none

theorem Takes.later {job : ModuleJob} {input : ModuleJobUpdate} (h : Takes job input) :
    Later job (job.update input) where
  id := rfl
  moduleId := rfl
  kind := rfl
  bytesTotal := by simp [ModuleJob.update, h.total]
  requestedBy := rfl
  createdAt := rfl
  bytesDone := by
    cases hbytes : input.bytesDone with
    | none => simp [ModuleJob.update, hbytes]
    | some bytes => simpa [ModuleJob.update, hbytes] using h.grown bytes hbytes
  path := by
    cases hstate : input.state with
    | none => simpa [ModuleJob.update, hstate] using ReflTransGen.refl
    | some state => simpa [ModuleJob.update, hstate] using .single (h.moved state hstate)
  ended hended := absurd hended (by simp [h.unfinished])

/-- `jobs` are the rows of a table. -/
abbrev Jobs := Serial ModuleJob.id

/-- A row is changed by an update. -/
def Jobs.change (rows : Jobs) (id : ℕ) (input : ModuleJobUpdate) : Jobs :=
  rows.update id (·.update input) (update_id input)

/-- A new job has a row. -/
def Jobs.create (rows : Jobs) (moduleId : String) (kind : JobKind) (bytesTotal userId now : ℤ) :
    Jobs :=
  rows.insert (newJob moduleId kind bytesTotal userId now)
    (newJob_id moduleId kind bytesTotal userId now)

/-- A change of the table: of a job that may take it, and that runs alone when it runs; or a new
job that `P` allows, of a module without an open one. -/
inductive Edit (P : String → JobKind → Prop) (rows : Jobs) : Jobs → Prop
  | change {job : ModuleJob} {input : ModuleJobUpdate} (hjob : job ∈ rows)
      (htakes : Takes job input)
      (halone : ∀ state, input.state = some state → jobRunning state = true →
        ∀ other ∈ rows, jobRunning other.state = true → other = job) :
      Edit P rows (rows.change job.id input)
  | create {moduleId : String} {kind : JobKind} {bytesTotal userId now : ℤ}
      (hmake : P moduleId kind)
      (hfree : ∀ job ∈ rows, job.moduleId = moduleId → jobTerminal job.state = true) :
      Edit P rows (rows.create moduleId kind bytesTotal userId now)

/-- A table in which one job runs at most, and only the last one of a module is open. -/
structure Orderly (rows : Jobs) : Prop where
  last : ∀ job ∈ rows, ∀ other ∈ rows, other.moduleId = job.moduleId → job.id < other.id →
    jobTerminal job.state = true
  alone : ∀ job ∈ rows, ∀ other ∈ rows, jobRunning job.state = true →
    jobRunning other.state = true → job = other

section Edits

variable {P : String → JobKind → Prop} {rows rows' : Jobs} {job other : ModuleJob}
  {input : ModuleJobUpdate}

theorem mem_change {id : ℕ} :
    job ∈ rows.change id input ↔ ∃ r ∈ rows, job = if r.id = id then r.update input else r :=
  Serial.mem_update _

/-- Everything but the job that is changed stays. -/
theorem mem_change_of_ne {id : ℕ} (hjob : job ∈ rows) (hne : job.id ≠ id) :
    job ∈ rows.change id input :=
  mem_change.2 ⟨job, hjob, (if_neg hne).symm⟩

theorem mem_change_self (hjob : job ∈ rows) : job.update input ∈ rows.change job.id input :=
  mem_change.2 ⟨job, hjob, (if_pos rfl).symm⟩

theorem of_mem_change (hjob : job ∈ rows) (hother : other ∈ rows.change job.id input) :
    other = job.update input ∨ other ∈ rows ∧ other.id ≠ job.id := by
  obtain ⟨r, hr, rfl⟩ := mem_change.1 hother
  split_ifs with hid
  · exact .inl (by rw [Serial.eq_of_id hr hjob hid])
  · exact .inr ⟨hr, hid⟩

theorem mem_create {moduleId : String} {kind : JobKind} {bytesTotal userId now : ℤ} :
    job ∈ rows.create moduleId kind bytesTotal userId now ↔
      job ∈ rows ∨ job = newJob moduleId kind bytesTotal userId now rows.nextId :=
  Serial.mem_insert _

theorem Edit.later (h : Edit P rows rows') (hjob : job ∈ rows) : ∃ job' ∈ rows', Later job job' := by
  cases h with
  | @change changed input hchanged htakes _ =>
    by_cases hid : job.id = changed.id
    · obtain rfl := Serial.eq_of_id hjob hchanged hid
      exact ⟨_, mem_change_self hjob, htakes.later⟩
    · exact ⟨job, mem_change_of_ne hjob hid, .refl job⟩
  | create _ _ => exact ⟨job, mem_create.2 (.inl hjob), .refl job⟩

theorem update_running {state : JobState} (hstate : input.state = some state) :
    (job.update input).state = state := by
  simp [ModuleJob.update, hstate]

theorem Edit.orderly (h : Edit P rows rows') (hrows : Orderly rows) : Orderly rows' := by
  cases h with
  | @change changed input hchanged htakes halone =>
    have hopen := htakes.unfinished
    constructor
    · intro job hjob other hother hmodule hlt
      rcases of_mem_change hchanged hjob with rfl | ⟨hjob, hne⟩
      · rcases of_mem_change hchanged hother with rfl | ⟨hother, -⟩
        · exact absurd hlt (lt_irrefl _)
        · have hended := hrows.last changed hchanged other hother hmodule hlt
          rw [hopen] at hended
          cases hended
      · rcases of_mem_change hchanged hother with rfl | ⟨hother, -⟩
        · exact hrows.last job hjob changed hchanged hmodule hlt
        · exact hrows.last job hjob other hother hmodule hlt
    -- The job that is changed runs now only if it ran, or if no other one does.
    · have hone : ∀ other ∈ rows, jobRunning other.state = true →
          jobRunning (changed.update input).state = true → other = changed := by
        intro other hother hrunning hchanges
        cases hstate : input.state with
        | none =>
          rw [ModuleJob.update, hstate, Option.getD_none] at hchanges
          exact hrows.alone other hother changed hchanged hrunning hchanges
        | some state =>
          rw [update_running hstate] at hchanges
          exact halone state hstate hchanges other hother hrunning
      intro job hjob other hother hrun hrun'
      rcases of_mem_change hchanged hjob with rfl | ⟨hjob, hne⟩ <;>
        rcases of_mem_change hchanged hother with rfl | ⟨hother, hne'⟩
      · rfl
      · exact absurd (congrArg ModuleJob.id (hone other hother hrun' hrun)) hne'
      · exact absurd (congrArg ModuleJob.id (hone job hjob hrun hrun')) hne
      · exact hrows.alone job hjob other hother hrun hrun'
  | create _ hfree =>
    constructor
    · intro job hjob other hother hmodule hlt
      rcases mem_create.1 hjob with hjob | rfl
      · rcases mem_create.1 hother with hother | rfl
        · exact hrows.last job hjob other hother hmodule hlt
        · exact hfree job hjob hmodule.symm
      · rcases mem_create.1 hother with hother | rfl
        · exact absurd (rows.fresh other hother) (lt_asymm hlt)
        · exact absurd hlt (lt_irrefl _)
    · intro job hjob other hother hrun hrun'
      rcases mem_create.1 hjob with hjob | rfl
      · rcases mem_create.1 hother with hother | rfl
        · exact hrows.alone job hjob other hother hrun hrun'
        · cases hrun'
      · cases hrun

/-- An edit that starts no job, and leaves one that runs as it is or stops it. -/
def Calm (P : String → JobKind → Prop) (rows rows' : Jobs) : Prop :=
  Edit P rows rows' ∧ ∀ job ∈ rows', jobRunning job.state = true → job ∈ rows

theorem calm_change {state : JobState} (hjob : job ∈ rows) (htakes : Takes job input)
    (hstate : input.state = some state) (hidle : jobRunning state = false) :
    Calm P rows (rows.change job.id input) := by
  refine ⟨.change hjob htakes fun state' hstate' hrunning => ?_, fun other hother hrunning => ?_⟩
  · obtain rfl := Option.some.inj (hstate.symm.trans hstate')
    rw [hidle] at hrunning
    cases hrunning
  · rcases of_mem_change hjob hother with rfl | ⟨hother, -⟩
    · rw [update_running hstate, hidle] at hrunning
      cases hrunning
    · exact hother

theorem edits_orderly (h : ReflTransGen (Edit P) rows rows') (hrows : Orderly rows) :
    Orderly rows' := by
  induction h with
  | refl => exact hrows
  | tail _ hedit ih => exact hedit.orderly ih

/-- A job of the table is one that was there, and open if it is, or one that was made. -/
theorem edits_made (h : ReflTransGen (Edit P) rows rows') (hjob : job ∈ rows') :
    (∃ old ∈ rows, old.moduleId = job.moduleId ∧ old.kind = job.kind ∧
      (jobTerminal job.state = false → jobTerminal old.state = false)) ∨
    P job.moduleId job.kind := by
  induction h generalizing job with
  | refl => exact .inl ⟨job, hjob, rfl, rfl, id⟩
  | tail _ hedit ih =>
    cases hedit with
    | @change changed input hchanged htakes _ =>
      rcases of_mem_change hchanged hjob with rfl | ⟨hold, -⟩
      · refine (ih hchanged).imp_left fun ⟨old, hold, hmodule, hkind, hopen⟩ => ?_
        exact ⟨old, hold, hmodule, hkind, fun _ => hopen htakes.unfinished⟩
      · exact ih hold
    | create hmake _ =>
      rcases mem_create.1 hjob with hold | rfl
      · exact ih hold
      · exact .inr hmake

theorem calms_edits (h : ReflTransGen (Calm P) rows rows') : ReflTransGen (Edit P) rows rows' :=
  h.lift id fun _ _ hcalm => hcalm.1

theorem calms_running (h : ReflTransGen (Calm P) rows rows') (hjob : job ∈ rows')
    (hrunning : jobRunning job.state = true) : job ∈ rows := by
  induction h with
  | refl => exact hjob
  | tail _ hcalm ih => exact ih (hcalm.2 job hjob hrunning)

end Edits

namespace ModuleEngine

section Lookup

variable {s : ModuleEngine} {id : String} {job other : ModuleJob}

theorem jobOf_eq_some (h : s.jobOf id = some job) :
    job ∈ s.rows ∧ job.moduleId = id ∧ ∀ other ∈ s.rows, other.moduleId = id → other.id ≤ job.id := by
  obtain ⟨hid, before, after, hrows, hbefore⟩ := List.find?_eq_some_iff_append.1 h
  have hsplit : s.rows.rows = after.reverse ++ job :: before.reverse := by
    rw [← List.reverse_reverse s.rows.rows, hrows]
    simp
  have hsorted := s.rows.sorted
  rw [hsplit, List.pairwise_append] at hsorted
  refine ⟨?_, by simpa using hid, fun other hother hmodule => ?_⟩
  · rw [Serial.mem_def, hsplit]
    simp
  · rw [Serial.mem_def, hsplit, List.mem_append, List.mem_cons] at hother
    rcases hother with hother | rfl | hother
    · exact (hsorted.2.2 other hother job (List.mem_cons_self ..)).le
    · exact le_rfl
    · have hnot := hbefore other (List.mem_reverse.1 hother)
      simp [hmodule] at hnot

theorem jobOf_eq_none (h : s.jobOf id = none) (hjob : job ∈ s.rows) : job.moduleId ≠ id := by
  have hnot := List.find?_eq_none.1 h job (List.mem_reverse.2 hjob)
  simpa using hnot

theorem openJob_eq_some (h : s.openJob id = some job) :
    job ∈ s.rows ∧ job.moduleId = id ∧ jobTerminal job.state = false := by
  obtain ⟨hof, hopen⟩ := Option.filter_eq_some_iff.1 h
  obtain ⟨hmem, hid, -⟩ := jobOf_eq_some hof
  exact ⟨hmem, hid, by simpa using hopen⟩

/-- An open job is the one of its module. -/
theorem jobOf_open (hrows : Orderly s.rows) (hjob : job ∈ s.rows)
    (hopen : jobTerminal job.state = false) : s.jobOf job.moduleId = some job := by
  cases hof : s.jobOf job.moduleId with
  | none => exact absurd rfl (jobOf_eq_none hof hjob)
  | some last =>
    obtain ⟨hlast, hmodule, hle⟩ := jobOf_eq_some hof
    rcases (hle job hjob rfl).eq_or_lt with heq | hlt
    · rw [Serial.eq_of_id hjob hlast heq]
    · have hended := hrows.last job hjob last hlast hmodule hlt
      rw [hopen] at hended
      cases hended

theorem eq_of_open (hrows : Orderly s.rows) (hjob : job ∈ s.rows) (hother : other ∈ s.rows)
    (hmodule : job.moduleId = other.moduleId) (hopen : jobTerminal job.state = false)
    (hopen' : jobTerminal other.state = false) : job = other := by
  have hof := jobOf_open hrows hjob hopen
  rw [hmodule, jobOf_open hrows hother hopen'] at hof
  exact (Option.some.inj hof).symm

theorem openJob_eq_none (hrows : Orderly s.rows) (h : s.openJob id = none) (hjob : job ∈ s.rows)
    (hid : job.moduleId = id) : jobTerminal job.state = true := by
  by_contra hopen
  rw [Bool.not_eq_true] at hopen
  subst hid
  rw [openJob, jobOf_open hrows hjob hopen, Option.filter_some, if_pos (by simp [hopen])] at h
  cases h

end Lookup

/-! ### Commands -/

section Commands

variable {P : String → JobKind → Prop} {catalog : EngineCatalog} {s s' : ModuleEngine} {id : String}
  {job : ModuleJob} {userId now : ℤ}

theorem takes_state {input : ModuleJobUpdate} {state : JobState}
    (hinput : input = { now, state := some state, reason := input.reason })
    (hmoves : state ∈ moves job.state) : Takes job input := by
  refine ⟨?_, fun state' hstate' => ?_, fun bytes hbytes => ?_, by rw [hinput]⟩
  · cases hstate : job.state <;> first | rfl | simp [hstate, moves] at hmoves
  · rw [hinput] at hstate'
    exact Option.some.inj hstate' ▸ hmoves
  · rw [hinput] at hbytes
    cases hbytes

theorem calm_of_moves {state : JobState} {reason : Option String} (hjob : job ∈ s.rows)
    (hmoves : state ∈ moves job.state) (hidle : jobRunning state = false) :
    Calm P s.rows (s.changeJob job.id { now, state := some state, reason }).rows :=
  calm_change hjob (takes_state rfl hmoves) rfl hidle

/-- A command that is not refused passed each of its checks. -/
theorem ok_of_bind {α β : Type} {check : Except ModuleErrors α}
    {next : α → Except ModuleErrors β} {b : β} (h : (check >>= next) = .ok b) :
    ∃ a, check = .ok a ∧ next a = .ok b := by
  cases check with
  | error e => cases h
  | ok a => exact ⟨a, rfl, h⟩

theorem commanded_ok (h : s.commanded catalog id = .ok job) :
    job ∈ s.rows ∧ job.moduleId = id ∧ jobTerminal job.state = false := by
  unfold commanded at h
  split at h
  · cases h
  · split at h
    · cases h
    · rename_i hopen
      cases h
      exact openJob_eq_some hopen

/-- What `pause`, `resume` and `cancel` do, which have no effect on what is enabled. -/
def Told (s s' : ModuleEngine) : Prop :=
  s' = s ∨ ∃ job ∈ s.rows, ∃ state ∈ moves job.state, ∃ reason now action,
    jobRunning state = false ∧ changesEnabledSet action = false ∧
      s' = (s.changeJob job.id { now, state := some state, reason }).audit action

theorem pause_told (h : s.pause catalog id now = .ok s') : Told s s' := by
  obtain ⟨job, hcommanded, h⟩ := ok_of_bind h
  obtain ⟨hjob, -, hopen⟩ := commanded_ok hcommanded
  split_ifs at h with hbusy hpaused
  · cases h
    refine .inr ⟨job, hjob, .paused, ?_, _, now, _, rfl, rfl, rfl⟩
    cases hstate : job.state <;> simp_all [moves, busy, jobTerminal]
  · cases h
    exact .inl rfl

theorem resume_told (h : s.resume catalog id now = .ok s') : Told s s' := by
  obtain ⟨job, hcommanded, h⟩ := ok_of_bind h
  obtain ⟨hjob, -, -⟩ := commanded_ok hcommanded
  split_ifs at h with hpaused
  · cases h
    exact .inr ⟨job, hjob, .queued, by simp [hpaused, moves], _, now, _, rfl, rfl, rfl⟩
  · cases h
    exact .inl rfl

theorem cancel_told (h : s.cancel catalog id now = .ok s') : Told s s' := by
  obtain ⟨job, hcommanded, h⟩ := ok_of_bind h
  obtain ⟨hjob, -, hopen⟩ := commanded_ok hcommanded
  split_ifs at h with hbusy
  cases h
  refine .inr ⟨job, hjob, .cancelled, ?_, _, now, _, rfl, rfl, rfl⟩
  cases hstate : job.state <;> simp_all [moves, busy, jobTerminal]

theorem Told.calm (h : Told s s') : ReflTransGen (Calm P) s.rows s'.rows ∧ s'.stage = s.stage := by
  rcases h with rfl | ⟨job, hjob, state, hmoves, reason, now, action, hidle, -, rfl⟩
  · exact ⟨.refl, rfl⟩
  · exact ⟨.single (calm_of_moves hjob hmoves hidle), rfl⟩

theorem install_ok {insufficient : Bool}
    (h : s.install catalog id userId now insufficient = .ok s') :
    s.settled = true ∧ ∃ ids : List String, ids.Nodup ∧ (∀ id ∈ ids, s.wanted catalog id = true) ∧
      s' = ids.foldl (fun s id => s.request catalog id userId now) s := by
  unfold install at h
  split at h
  · cases h
  next hsettled =>
  split at h
  · cases h
  next m _ =>
  split at h
  · cases h
  split at h
  · cases h
  split at h
  · cases h
  split at h
  · rename_i order horder
    split_ifs at h
    cases h
    refine ⟨by simpa using hsettled, order.filter (s.wanted catalog), List.Nodup.filter _ ?_, fun id hid => ?_, rfl⟩
    · rcases catalog.resolver.installOrder_spec m.id with ⟨-, herror⟩ | ⟨-, _, hok, hnodup, -⟩
      · rw [horder] at herror
        cases herror
      · rw [horder] at hok
        cases hok
        exact hnodup
    · exact (List.mem_filter.1 hid).2
  · cases h

theorem wanted_spec (h : s.wanted catalog id = true) :
    ∃ m, catalog.module id = some m ∧ id ∉ s.enabled ∧ m.kind ≠ .core ∧ s.openJob id = none := by
  obtain ⟨m, hm, hwanted⟩ := (Option.any_eq_true _ _).1 h
  simp only [Bool.and_eq_true, decide_eq_true_eq, Option.isNone_iff_eq_none] at hwanted
  exact ⟨m, hm, hwanted.1.1, hwanted.1.2, hwanted.2⟩

theorem create_calm {kind : JobKind} {bytesTotal : ℤ} (hmake : P id kind)
    (hfree : ∀ job ∈ s.rows, job.moduleId = id → jobTerminal job.state = true) :
    Calm P s.rows (s.createJob id kind bytesTotal userId now).rows := by
  refine ⟨.create hmake hfree, fun job hjob hrunning => ?_⟩
  rcases mem_create.1 hjob with hjob | rfl
  · exact hjob
  · cases hrunning

theorem requests_calm (ids : List String) (hnodup : ids.Nodup) (hmake : ∀ id ∈ ids, P id .install)
    (hfree : ∀ id ∈ ids, ∀ job ∈ s.rows, job.moduleId = id → jobTerminal job.state = true) :
    ReflTransGen (Calm P) s.rows (ids.foldl (fun s id => s.request catalog id userId now) s).rows ∧
      (ids.foldl (fun s id => s.request catalog id userId now) s).stage = s.stage := by
  induction ids generalizing s with
  | nil => exact ⟨.refl, rfl⟩
  | cons id ids ih =>
    obtain ⟨hnot, hnodup⟩ := List.nodup_cons.1 hnodup
    obtain ⟨hcalm, hstage⟩ := ih (s := s.request catalog id userId now) hnodup
      (fun other hother => hmake other (List.mem_cons_of_mem _ hother)) fun other hother job hjob hmodule => by
        rcases mem_create.1 hjob with hjob | rfl
        · exact hfree other (List.mem_cons_of_mem _ hother) job hjob hmodule
        · obtain rfl : id = other := hmodule
          exact absurd hother hnot
    exact ⟨.head (create_calm (hmake id (List.mem_cons_self ..)) (hfree id (List.mem_cons_self ..)))
      hcalm, hstage⟩

theorem install_calm (hrows : Orderly s.rows) {insufficient : Bool}
    (hmake : ∀ id, s.wanted catalog id = true → P id .install)
    (h : s.install catalog id userId now insufficient = .ok s') :
    ReflTransGen (Calm P) s.rows s'.rows ∧ s'.stage = s.stage := by
  obtain ⟨-, ids, hnodup, hwanted, rfl⟩ := install_ok h
  refine requests_calm ids hnodup (fun id hid => hmake id (hwanted id hid)) fun id hid job hjob hmodule => ?_
  obtain ⟨-, -, -, -, hnone⟩ := wanted_spec (hwanted id hid)
  exact openJob_eq_none hrows hnone hjob hmodule

theorem leaving_ok {m : EngineModule} (h : s.leaving catalog id = .ok m) :
    s.settled = true ∧ catalog.module id = some m ∧ m.kind ≠ .core ∧ s.openJob m.id = none := by
  unfold leaving at h
  split_ifs at h with hsettled
  split at h
  · cases h
  · rename_i found hfound
    split_ifs at h with hcore hopen
    cases h
    refine ⟨by simpa using hsettled, hfound, hcore, by simpa using hopen⟩

theorem disable_ok (h : s.disable catalog id = .ok s') :
    s' = s ∨ ∃ m, s.leaving catalog id = .ok m ∧ m.id ∈ s.enabled ∧
      s' = s.setLifecycle m.id .disabled .disabled := by
  obtain ⟨m, hleaving, h⟩ := ok_of_bind h
  split_ifs at h with henabled
  · obtain ⟨-, -, h⟩ := ok_of_bind h
    cases h
    exact .inr ⟨m, hleaving, henabled, rfl⟩
  · cases h
    exact .inl rfl

theorem uninstall_ok {keepData : Bool} (h : s.uninstall catalog id userId now keepData = .ok s') :
    ∃ m left, s.leaving catalog id = .ok m ∧
      (left = s ∧ m.id ∉ s.enabled ∨
        left = s.setLifecycle m.id .disabled .disabled ∧ m.id ∈ s.enabled) ∧
      s' = (left.createJob m.id (if keepData then .uninstall else .purge) 0 userId now).audit
        .uninstallRequested := by
  obtain ⟨m, hleaving, h⟩ := ok_of_bind h
  obtain ⟨-, -, h⟩ := ok_of_bind h
  cases h
  refine ⟨m, _, hleaving, ?_, rfl⟩
  split_ifs with henabled
  · exact .inr ⟨rfl, henabled⟩
  · exact .inl ⟨rfl, henabled⟩

theorem uninstall_calm (hrows : Orderly s.rows) {keepData : Bool}
    (hmake : ∀ m kind, s.leaving catalog id = .ok m → P m.id kind)
    (h : s.uninstall catalog id userId now keepData = .ok s') :
    ReflTransGen (Calm P) s.rows s'.rows ∧ s'.stage = s.stage := by
  obtain ⟨m, left, hleaving, hleft, rfl⟩ := uninstall_ok h
  obtain ⟨-, -, -, hnone⟩ := leaving_ok hleaving
  have hsame : left.rows = s.rows ∧ left.stage = s.stage := by
    rcases hleft with ⟨rfl, -⟩ | ⟨rfl, -⟩ <;> exact ⟨rfl, rfl⟩
  refine ⟨hsame.1 ▸ .single (create_calm (hmake m _ hleaving) fun job hjob hmodule => ?_), hsame.2⟩
  rw [hsame.1] at hjob
  exact openJob_eq_none hrows hnone hjob hmodule

end Commands

/-! ### The thread -/

/-- No job runs but the one in hand. -/
def InHand (rows : Jobs) (job : ModuleJob) : Prop :=
  ∀ other ∈ rows, jobRunning other.state = true → other = job

/-- A transition that a plan may make. -/
structure TransitionSound (t : Transition) (job : ModuleJob) : Prop where
  source : t.source = job.state
  unfinished : jobTerminal job.state = false
  moved : ∀ state, t.update.state = some state → state ∈ moves job.state
  bytes : ∀ bytes, t.update.bytesDone = some bytes →
    job.state = .healthCheck ∧ job.bytesDone ≤ bytes
  total : t.update.bytesTotal = none

/-- What a plan may hold for a job. -/
structure PlanSound (plan : StepPlan) (job : ModuleJob) : Prop where
  transition : ∀ t, plan.transition = some t → TransitionSound t job
  owners : plan.removes ≠ [] ∨ plan.purges ≠ [] →
    job.kind ≠ .install ∧ (job.state = .removing ∨ job.state = .purging)
  activate : plan.activate = true →
    job.kind = .install ∧ job.state = .activating ∧ plan.transition.isSome = true
  finish : plan.finishUninstall = true →
    job.kind ≠ .install ∧ jobRunning job.state = true ∧ plan.transition.isSome = true

section Plans

variable {catalog : EngineCatalog} {s : ModuleEngine} {job : ModuleJob} {m : EngineModule}
  {plan : StepPlan} {now timeout : ℤ} {insufficient : Bool}

theorem moveTo_sound {state : JobState} {reason owner : Option String}
    (hmoves : state ∈ moves job.state) :
    ∀ t, moveTo job now state reason owner = some t → TransitionSound t job := by
  rintro t ⟨⟩
  have htakes : Takes job { now, state := some state, reason } := takes_state rfl hmoves
  exact ⟨rfl, htakes.unfinished, htakes.moved, nofun, rfl⟩

/-- A plan that does nothing but move the job, and ask for components. -/
theorem sound_of_transition (ht : ∀ t, plan.transition = some t → TransitionSound t job)
    (hremoves : plan.removes = []) (hpurges : plan.purges = []) (hactivate : plan.activate = false)
    (hfinish : plan.finishUninstall = false) : PlanSound plan job where
  transition := ht
  owners h := by simp [hremoves, hpurges] at h
  activate h := by simp [hactivate] at h
  finish h := by simp [hfinish] at h

theorem sound_stay {installs : List OwnerCall} : PlanSound { installs } job :=
  sound_of_transition (fun _ ht => by cases ht) rfl rfl rfl rfl

theorem planUninstall_sound (hkind : job.kind ≠ .install) :
    PlanSound (s.planUninstall catalog job m now) job := by
  unfold planUninstall
  dsimp only
  split
  next hstate => exact sound_of_transition (moveTo_sound (by simp [hstate, moves])) rfl rfl rfl rfl
  next hstate =>
    refine ⟨moveTo_sound ?_, fun _ => ⟨hkind, .inl hstate⟩, nofun, fun _ => ⟨hkind, ?_, rfl⟩⟩
    · split_ifs <;> simp [hstate, moves]
    · rw [hstate]; rfl
  next hstate =>
    refine ⟨moveTo_sound (by simp [hstate, moves]), fun _ => ⟨hkind, .inr hstate⟩, nofun,
      fun _ => ⟨hkind, ?_, rfl⟩⟩
    rw [hstate]; rfl
  next => exact sound_stay

theorem planInstall_sound (hkind : job.kind = .install) :
    PlanSound (s.planInstall catalog job m now timeout insufficient) job := by
  unfold planInstall
  extract_lets move components readings unknown allSettled allReady lacking hostOnly downloads
    broken missing
  have hmove {state : JobState} {reason : String} {installs cancels : List OwnerCall}
      {rollback : Bool} (hmoves : state ∈ moves job.state) :
      PlanSound { transition := move state reason, installs, cancels, rollback } job :=
    sound_of_transition (moveTo_sound hmoves) rfl rfl rfl rfl
  -- What was read of the components decides between moves that are all allowed.
  clear_value unknown allSettled allReady hostOnly broken missing
  split
  next hstate => exact hmove (by simp [hstate, moves])
  next hstate =>
    split_ifs
    · refine sound_of_transition ?_ rfl rfl rfl rfl
      rintro t ⟨⟩
      exact ⟨rfl, by rw [hstate]; rfl, nofun, nofun, rfl⟩
    · exact sound_stay
    all_goals exact hmove (by simp [hstate, moves])
  next hstate =>
    split
    · exact hmove (by simp [hstate, moves])
    · split_ifs
      · exact hmove (by simp [hstate, moves])
      · exact sound_stay
  next hstate =>
    split_ifs
    · exact hmove (by simp [hstate, moves])
    · exact hmove (by simp [hstate, moves])
    · exact sound_stay
  next hstate =>
    refine ⟨moveTo_sound (by simp [hstate, moves]), fun h => by simp at h,
      fun _ => ⟨hkind, hstate, rfl⟩, nofun⟩
  next hstate =>
    split_ifs
    · refine sound_of_transition ?_ rfl rfl rfl rfl
      rintro t ⟨⟩
      refine ⟨rfl, by rw [hstate]; rfl, ?_, ?_, rfl⟩
      · rintro state ⟨⟩
        simp [hstate, moves]
      · rintro bytes ⟨⟩
        exact ⟨hstate, le_max_left _ _⟩
    · exact hmove (by simp [hstate, moves])
    · exact sound_stay
  next => exact sound_stay

theorem plan_sound : PlanSound (s.plan catalog job m now timeout insufficient) job := by
  unfold plan
  split_ifs with hkind
  · exact planInstall_sound hkind
  · exact planUninstall_sound hkind

end Plans

section Thread

variable {P : String → JobKind → Prop} {catalog : EngineCatalog} {s : ModuleEngine}
  {rows rows' : Jobs} {job : ModuleJob} {m : EngineModule} {plan : StepPlan} {now : ℤ}

theorem fail_sound {owner reason : String} (hsound : PlanSound plan job)
    (hfailed : .failed ∈ moves job.state) : PlanSound (plan.fail owner reason) job := by
  unfold StepPlan.fail
  split
  · exact hsound
  next t ht =>
    have h := hsound.transition t ht
    refine ⟨?_, hsound.owners, fun hactivate => ?_, nofun⟩
    · rintro t' ⟨⟩
      refine ⟨h.source, h.unfinished, ?_, h.bytes, h.total⟩
      rintro state ⟨⟩
      exact hfailed
    · obtain ⟨hkind, hstate, -⟩ := hsound.activate hactivate
      exact ⟨hkind, hstate, rfl⟩

/-- Only owners that are asked to remove or to purge something fail. -/
theorem runOwnerCalls_failed {answers : OwnerAnswers} {failure : String × String}
    (h : (runOwnerCalls answers plan).1 = some failure) : plan.removes ≠ [] ∨ plan.purges ≠ [] := by
  by_contra hnone
  obtain ⟨hremoves, hpurges⟩ := not_or.1 hnone
  rw [runOwnerCalls, not_not.1 hremoves, not_not.1 hpurges] at h
  cases h

/-- The job that the thread has in hand. -/
def Stage.Held (rows : Jobs) : Stage → Prop
  | .idle => True
  | .picked job => InHand rows job
  | .planned job m plan => InHand rows job ∧ m.id = job.moduleId ∧ PlanSound plan job
  | .called job m plan => InHand rows job ∧ m.id = job.moduleId ∧ PlanSound plan job

theorem InHand.calms (h : InHand rows job) (hcalms : ReflTransGen (Calm P) rows rows') :
    InHand rows' job :=
  fun other hother hrunning => h other (calms_running hcalms hother hrunning) hrunning

theorem Stage.Held.calms {stage : Stage} (h : Stage.Held rows stage)
    (hcalms : ReflTransGen (Calm P) rows rows') : Stage.Held rows' stage := by
  cases stage with
  | idle => trivial
  | picked job => exact InHand.calms h hcalms
  | planned job m plan => exact ⟨InHand.calms h.1 hcalms, h.2⟩
  | called job m plan => exact ⟨InHand.calms h.1 hcalms, h.2⟩

variable (catalog now) in
theorem nextJobAmong_calm (jobs : List ModuleJob) (hsorted : jobs.Pairwise (·.id < ·.id))
    (hjobs : ∀ job ∈ jobs, job ∈ s.rows ∧ job.state = .queued) :
    ReflTransGen (Calm P) s.rows (nextJobAmong catalog now jobs s).2.rows := by
  induction jobs generalizing s with
  | nil => exact .refl
  | cons job rest ih =>
    obtain ⟨hjob, hstate⟩ := hjobs job (List.mem_cons_self ..)
    have hrest (other : ModuleJob) (hother : other ∈ rest) := hjobs other (List.mem_cons_of_mem _ hother)
    have hcalm : Calm P s.rows (s.changeJob job.id (failed now)).rows :=
      calm_of_moves hjob (by simp [hstate, moves]) rfl
    have hkept (other : ModuleJob) (hother : other ∈ rest) :
        other ∈ (s.changeJob job.id (failed now)).rows ∧ other.state = .queued :=
      ⟨mem_change_of_ne (hrest other hother).1
        (List.rel_of_pairwise_cons hsorted hother).ne', (hrest other hother).2⟩
    unfold nextJobAmong
    split
    · exact .head hcalm (ih hsorted.of_cons hkept)
    · dsimp only
      split_ifs
      · exact .head hcalm (ih (s := (s.changeJob job.id (failed now)).audit .failed)
          hsorted.of_cons hkept)
      · exact ih hsorted.of_cons hrest
      · exact .refl

theorem mem_openJobs : job ∈ s.openJobs ↔ job ∈ s.rows ∧ s.jobOf job.moduleId = some job ∧
    jobTerminal job.state = false ∧ job.state ≠ .paused := by
  simp [openJobs, Serial.mem_def]

variable (catalog now) in
theorem nextJob_calm (hrows : Orderly s.rows) :
    ReflTransGen (Calm P) s.rows (s.nextJob catalog now).2.rows ∧
      ∀ job, (s.nextJob catalog now).1 = some job → InHand (s.nextJob catalog now).2.rows job := by
  unfold nextJob
  split
  next found hfound =>
    have hrunning := List.find?_some hfound
    have hfound := (mem_openJobs.1 (List.mem_of_find?_eq_some hfound)).1
    refine ⟨.refl, ?_⟩
    rintro job ⟨⟩ other hother hother'
    exact hrows.alone other hother found hfound hother' hrunning
  next hnone =>
    have hidle : ∀ job ∈ s.rows, jobRunning job.state = false := by
      intro job hjob
      cases hrunning : jobRunning job.state with
      | false => rfl
      | true =>
        have hstate : jobTerminal job.state = false ∧ job.state ≠ .paused := by
          cases hstate : job.state <;> simp_all [jobRunning, jobTerminal]
        have hopen := mem_openJobs.2 ⟨hjob, jobOf_open hrows hjob hstate.1, hstate⟩
        exact absurd hrunning (List.find?_eq_none.1 hnone job hopen)
    have hcalms := nextJobAmong_calm (P := P) catalog now s.openJobs
      (s.rows.sorted.filter _) fun job hjob => by
        obtain ⟨hmem, -, hopen, hpaused⟩ := mem_openJobs.1 hjob
        have hrunning := hidle job hmem
        refine ⟨hmem, ?_⟩
        cases hstate : job.state <;> simp_all [jobRunning, jobTerminal]
    refine ⟨hcalms, fun job _ other hother hrunning => ?_⟩
    have hother := hidle other (calms_running hcalms hother hrunning)
    rw [hrunning] at hother
    cases hother

/-- A transition fits the job it is applied to, which is the one in hand or waits as that one did.
-/
theorem TransitionSound.takes {t : Transition} {current : ModuleJob} (h : TransitionSound t job)
    (hhand : InHand rows job) (hcurrent : current ∈ rows) (hstate : current.state = t.source) :
    Takes current t.update := by
  have hsame := hstate.trans h.source
  refine ⟨hsame ▸ h.unfinished, hsame ▸ h.moved, fun bytes hbytes => ?_, h.total⟩
  obtain ⟨hhealth, hle⟩ := h.bytes bytes hbytes
  rw [hhand current hcurrent (by rw [hsame, hhealth]; rfl)]
  exact hle

variable (m plan) in
theorem applyLifecycle_rows (current : ModuleJob) :
    (s.applyLifecycle plan current m).rows = s.rows := by
  unfold applyLifecycle
  split_ifs <;> rfl

variable (catalog m now) in
theorem progress_edits {current : ModuleJob} (hcurrent : current ∈ s.rows)
    (hopen : jobTerminal current.state = false) :
    ReflTransGen (Edit P) s.rows (s.progress catalog current m now).rows ∧
      ∃ current' ∈ (s.progress catalog current m now).rows,
        current'.id = current.id ∧ current'.state = current.state := by
  unfold progress
  dsimp only
  split_ifs with hle
  · exact ⟨.refl, current, hcurrent, rfl, rfl⟩
  · refine ⟨.single (.change hcurrent ⟨hopen, nofun, ?_, rfl⟩ nofun), _, mem_change_self hcurrent,
      rfl, rfl⟩
    rintro bytes ⟨⟩
    exact (not_le.1 hle).le

theorem applyTransition_edits {current : ModuleJob} (hcurrent : current ∈ s.rows)
    (h : ∀ t, plan.transition = some t → Takes current t.update ∧
      ∀ other ∈ s.rows, jobRunning other.state = true → other = current) :
    ReflTransGen (Edit P) s.rows (s.applyTransition plan current.id).rows := by
  unfold applyTransition
  split
  · exact .refl
  next t ht =>
    obtain ⟨htakes, halone⟩ := h t ht
    have hedit : Edit P s.rows (s.changeJob current.id t.update).rows :=
      .change hcurrent htakes fun _ _ _ => halone
    exact .single (by dsimp only; split_ifs <;> exact hedit)

variable (catalog m now) in
theorem apply_edits (hrows : Orderly s.rows) (hhand : InHand s.rows job)
    (hsound : PlanSound plan job) :
    ReflTransGen (Edit P) s.rows (s.apply catalog plan m now).rows := by
  unfold apply
  split
  · exact .refl
  next current hof =>
  by_cases hany : plan.transition.any fun t => current.state ≠ t.source
  · rw [if_pos hany]
  rw [if_neg hany]
  obtain ⟨hcurrent, -, -⟩ := jobOf_eq_some hof
  have hsource (t : Transition) (ht : plan.transition = some t) : current.state = t.source := by
    simpa [ht] using hany
  have hsame := applyLifecycle_rows (s := s) m plan current
  dsimp only
  split_ifs with hbusy
  -- The progress that is noted first leaves the state, and the bytes are not in the transition.
  · have hrunning : jobRunning current.state = true ∧ jobTerminal current.state = false := by
      rcases hbusy with h | h <;> rw [h] <;> exact ⟨rfl, rfl⟩
    obtain ⟨hedits, current', hcurrent', hid, hstate⟩ := progress_edits
      (s := s.applyLifecycle plan current m) catalog m now (hsame ▸ hcurrent) hrunning.2
    rw [hsame] at hedits
    rw [← hid]
    refine hedits.trans (applyTransition_edits hcurrent' fun t ht => ⟨?_, fun other hother h => ?_⟩)
    · have hsound := hsound.transition t ht
      have htakes := hsound.takes hhand hcurrent (hsource t ht)
      refine ⟨hstate ▸ htakes.unfinished, hstate ▸ htakes.moved, fun bytes hbytes => ?_,
        htakes.total⟩
      have hhealth := (hsound.bytes bytes hbytes).1
      rw [← hsound.source, ← hsource t ht] at hhealth
      rcases hbusy with h | h <;> · rw [hhealth] at h; cases h
    · exact (edits_orderly hedits hrows).alone other hother current' hcurrent' h
        (hstate ▸ hrunning.1)
  · rw [← hsame]
    refine applyTransition_edits (hsame ▸ hcurrent) fun t ht => ?_
    have hsound := hsound.transition t ht
    refine ⟨hsound.takes hhand hcurrent (hsource t ht), fun other hother h => ?_⟩
    rw [hsame] at hother
    have hjob := hhand other hother h
    rw [hjob, ← hsound.source, ← hsource t ht] at h
    rw [hjob, hhand current hcurrent h]

variable (now) in
theorem restarted_edits (jobs : List ModuleJob) (hsorted : jobs.Pairwise (·.id < ·.id))
    (hjobs : ∀ job ∈ jobs, job ∈ s.rows ∧ jobRunning job.state = true) :
    ReflTransGen (Edit P) s.rows (jobs.foldl
      (fun s job => s.changeJob job.id { now, state := some .queued }) s).rows := by
  induction jobs generalizing s with
  | nil => exact .refl
  | cons job rest ih =>
    obtain ⟨hjob, hrunning⟩ := hjobs job (List.mem_cons_self ..)
    have hmoves : JobState.queued ∈ moves job.state := by
      cases hstate : job.state <;> simp_all [jobRunning, moves]
    refine .head (calm_of_moves hjob hmoves rfl).1 (ih hsorted.of_cons fun other hother => ?_)
    obtain ⟨hmem, hother'⟩ := hjobs other (List.mem_cons_of_mem _ hother)
    exact ⟨mem_change_of_ne hmem (List.rel_of_pairwise_cons hsorted hother).ne', hother'⟩

end Thread

/-! ### Runs -/

section Runs

variable {P : String → JobKind → Prop} {catalog : EngineCatalog} {s : ModuleEngine}

/-- The table is in order, and the thread knows the job that runs. -/
def Held (s : ModuleEngine) : Prop := Orderly s.rows ∧ Stage.Held s.rows s.stage

theorem held_of_calm {s' : ModuleEngine} (h : Held s)
    (hcalms : ReflTransGen (Calm P) s.rows s'.rows ∧ s'.stage = s.stage) :
    Held s' ∧ ReflTransGen (Edit P) s.rows s'.rows := by
  obtain ⟨hcalms, hstage⟩ := hcalms
  have hedits := calms_edits hcalms
  exact ⟨⟨edits_orderly hedits h.1, hstage ▸ h.2.calms hcalms⟩, hedits⟩

/-- A command that is refused changes nothing. -/
theorem held_of_command {s' : ModuleEngine} {result : Except ModuleErrors ModuleEngine} (h : Held s)
    (hs' : s' = result.toOption.getD s)
    (hok : ∀ s', result = .ok s' → ReflTransGen (Calm P) s.rows s'.rows ∧ s'.stage = s.stage) :
    Held s' ∧ ReflTransGen (Edit P) s.rows s'.rows := by
  subst hs'
  cases result with
  | error e => exact ⟨h, .refl⟩
  | ok s' => exact held_of_calm h (hok s' rfl)

theorem held_idle {s' : ModuleEngine} (h : Held s) (hedits : ReflTransGen (Edit P) s.rows s'.rows)
    (hstage : s'.stage = .idle) : Held s' ∧ ReflTransGen (Edit P) s.rows s'.rows :=
  ⟨⟨edits_orderly hedits h.1, by rw [hstage]; trivial⟩, hedits⟩

theorem pick_held {now : ℤ} (h : Held s) (hidle : s.stage = .idle) :
    Held (s.pick catalog now) ∧ ReflTransGen (Edit P) s.rows (s.pick catalog now).rows := by
  unfold pick
  split_ifs
  · obtain ⟨hcalms, hhand⟩ := nextJob_calm catalog now h.1
    have hedits := calms_edits hcalms
    refine ⟨⟨edits_orderly hedits h.1, ?_⟩, hedits⟩
    cases hjob : (s.nextJob catalog now).1 with
    | none => simp only [hjob, Option.elim_none]; trivial
    | some job =>
      simp only [hjob, Option.elim_some]
      exact hhand job hjob
  · exact held_idle h .refl hidle

variable (catalog) in
theorem planPicked_held (now timeout : ℤ) (insufficient : Bool) {job : ModuleJob} (h : Held s)
    (hstage : s.stage = .picked job) :
    Held (s.planPicked catalog job now timeout insufficient) ∧
      (s.planPicked catalog job now timeout insufficient).rows = s.rows := by
  have hhand : InHand s.rows job := by
    have hheld := h.2
    rwa [hstage] at hheld
  unfold planPicked
  split
  next m current hm hof =>
    split_ifs with hstate
    · obtain ⟨hcurrent, hmodule, -⟩ := jobOf_eq_some hof
      have hid : m.id = job.moduleId := by simpa using List.find?_some hm
      refine ⟨⟨h.1, fun other hother hrunning => ?_, hid.trans hmodule.symm, plan_sound⟩, rfl⟩
      obtain rfl := hhand other hother hrunning
      exact h.1.alone other hother current hcurrent hrunning (hstate ▸ hrunning)
    · exact ⟨⟨h.1, trivial⟩, rfl⟩
  next => exact ⟨⟨h.1, trivial⟩, rfl⟩

theorem callPlanned_held (answers : OwnerAnswers) {job : ModuleJob} {m : EngineModule}
    {plan : StepPlan} (h : Held s) (hstage : s.stage = .planned job m plan) :
    Held (s.callPlanned job m plan answers) ∧ (s.callPlanned job m plan answers).rows = s.rows := by
  have hheld := h.2
  rw [hstage] at hheld
  obtain ⟨hhand, hid, hsound⟩ := hheld
  refine ⟨⟨h.1, hhand, hid, ?_⟩, rfl⟩
  split
  next owner reason hfailure =>
    refine fail_sound hsound ?_
    rcases (hsound.owners (runOwnerCalls_failed hfailure)).2 with hstate | hstate <;>
      simp [hstate, moves]
  next => exact hsound

variable (catalog) in
theorem exec_held (act : Act) (hmake : ∀ id kind, P id kind) (h : Held s) :
    Held (s.exec catalog act) ∧ ReflTransGen (Edit P) s.rows (s.exec catalog act).rows := by
  cases act with
  | refresh readings => exact ⟨h, .refl⟩
  | seed waited =>
    dsimp only [exec]
    split_ifs
    · exact ⟨h, .refl⟩
    · exact ⟨h, .refl⟩
  | install id userId now insufficient => exact held_of_command h rfl fun _ => install_calm h.1 fun id _ => hmake id _
  | pause id now => exact held_of_command h rfl fun _ hok => (pause_told hok).calm
  | resume id now => exact held_of_command h rfl fun _ hok => (resume_told hok).calm
  | cancel id now => exact held_of_command h rfl fun _ hok => (cancel_told hok).calm
  | disable id =>
    refine held_of_command h rfl fun s' hok => ?_
    rcases disable_ok hok with rfl | ⟨m, -, -, rfl⟩ <;> exact ⟨.refl, rfl⟩
  | uninstall id userId now keepData =>
    exact held_of_command h rfl fun _ => uninstall_calm h.1 fun m kind _ => hmake m.id kind
  | pick now =>
    dsimp only [exec]
    split
    next hidle => exact pick_held h hidle
    next => exact ⟨h, .refl⟩
  | plan now timeout insufficient =>
    dsimp only [exec]
    split
    next job hstage =>
      obtain ⟨hheld, hrows⟩ := planPicked_held catalog now timeout insufficient h hstage
      exact ⟨hheld, hrows ▸ .refl⟩
    next => exact ⟨h, .refl⟩
  | callOwners answers =>
    dsimp only [exec]
    split
    next job m plan hstage =>
      obtain ⟨hheld, hrows⟩ := callPlanned_held answers h hstage
      exact ⟨hheld, hrows ▸ .refl⟩
    next => exact ⟨h, .refl⟩
  | apply now =>
    dsimp only [exec]
    split
    next job m plan hstage =>
      have hheld := h.2
      rw [hstage] at hheld
      obtain ⟨hhand, -, hsound⟩ := hheld
      exact held_idle h (apply_edits catalog m now h.1 hhand hsound) rfl
    next => exact ⟨h, .refl⟩
  | rollback ofThread =>
    refine ⟨⟨h.1, ?_⟩, .refl⟩
    cases ofThread with
    | true => trivial
    | false => exact h.2
  | abandon => exact ⟨⟨h.1, trivial⟩, .refl⟩
  | restart now =>
    refine held_idle h (restarted_edits (s := s.reload catalog) now _ (s.rows.sorted.filter _) ?_) rfl
    intro job hjob
    exact List.mem_filter.1 hjob

theorem held_start : Held {} := by
  have hnone (job : ModuleJob) : job ∉ (Serial.empty : Jobs) := List.not_mem_nil
  exact ⟨⟨fun job hjob => absurd hjob (hnone job), fun job hjob => absurd hjob (hnone job)⟩, trivial⟩

end Runs

end ModuleEngine

end Modules

end ArgusBackend
