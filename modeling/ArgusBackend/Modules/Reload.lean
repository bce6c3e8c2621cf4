import ArgusBackend.Modules.Jobs

/-!
# What the engine holds of its tables

Which modules are enabled, whether the first set is settled and the version of the set are kept in
memory beside the tables.  A transaction that fails, and a restart, read them again.

* `Stored` : memory agrees with the tables;
* `reload_agrees` : nothing is lost when they are read again, at any time;
* `version_grows` : two sets that differ have different versions, the later one the higher.
-/

namespace ArgusBackend

namespace Modules

namespace ModuleEngine

open Relation

/-! ### Tables -/

section Tables

variable {audits : List ModuleAuditAction} {action : ModuleAuditAction}
  {states : List (String × ModuleLifecycle)} {id id' : String} {lifecycle lifecycle' : ModuleLifecycle}

theorem foldl_version (audits : List ModuleAuditAction) (start version : ℕ) :
    (audits.zipIdx start).foldl (fun version (action, id) =>
      if changesEnabledSet action then max version id else version) version ≤
        max version (start + audits.length - 1) := by
  induction audits generalizing start version with
  | nil => exact le_max_left _ _
  | cons action audits ih =>
    rw [List.zipIdx_cons, List.foldl_cons]
    refine (ih _ _).trans ?_
    rw [List.length_cons]
    dsimp only
    split_ifs <;> omega

theorem enabledVersion_le (audits : List ModuleAuditAction) :
    enabledVersion audits ≤ audits.length := by
  have h := foldl_version audits 1 0
  rwa [Nat.zero_max, Nat.add_sub_cancel_left] at h

theorem enabledVersion_concat : enabledVersion (audits ++ [action]) =
    if changesEnabledSet action then audits.length + 1 else enabledVersion audits := by
  have hle := enabledVersion_le audits
  rw [enabledVersion, List.zipIdx_append, List.foldl_append, ← enabledVersion]
  simp only [List.zipIdx_singleton, List.foldl_cons, List.foldl_nil]
  split_ifs
  · rw [Nat.add_comm 1]
    exact max_eq_right (by omega)
  · rfl

theorem enabledVersion_adopted (modules : List EngineModule) :
    enabledVersion audits ≤ enabledVersion (audits ++ modules.map fun _ => .adopted) ∧
      (modules ≠ [] →
        enabledVersion audits < enabledVersion (audits ++ modules.map fun _ => .adopted)) := by
  have hle := enabledVersion_le audits
  rcases List.eq_nil_or_concat' modules with rfl | ⟨modules, m, rfl⟩
  · simp
  · rw [List.map_append, ← List.append_assoc, List.map_singleton, enabledVersion_concat]
    simp only [changesEnabledSet, if_true, List.length_append]
    omega

theorem mem_upsert : (id', lifecycle') ∈ upsert states id lifecycle ↔
    id' = id ∧ lifecycle' = lifecycle ∨ id' ≠ id ∧ (id', lifecycle') ∈ states := by
  simp only [upsert, List.mem_append, List.mem_filter, List.mem_singleton, Prod.mk.injEq,
    decide_eq_true_eq]
  tauto

theorem upsert_ne_nil : upsert states id lifecycle ≠ [] := by
  simp [upsert]

/-- The rows that `seed` writes. -/
theorem mem_seeded {f : EngineModule → ModuleLifecycle} (modules : List EngineModule)
    (hdistinct : (modules.map (·.id)).Nodup) :
    (id, lifecycle) ∈ modules.foldl (fun states m => upsert states m.id (f m)) states ↔
      (∃ m ∈ modules, m.id = id ∧ f m = lifecycle) ∨
      id ∉ modules.map (·.id) ∧ (id, lifecycle) ∈ states := by
  induction modules generalizing states with
  | nil => simp
  | cons m modules ih =>
    obtain ⟨hnot, hdistinct⟩ := List.nodup_cons.1 hdistinct
    rw [List.foldl_cons, ih hdistinct, mem_upsert]
    simp only [List.mem_cons, List.map_cons, exists_eq_or_imp, not_or]
    by_cases hid : id = m.id
    · subst hid
      simp [hnot, eq_comm, or_comm]
    · simp [hid, Ne.symm hid]

end Tables

/-! ### Memory -/

/-- Memory agrees with the tables, and the jobs are about modules that may leave: no job is of a
core module, and while one uninstalls a module, it is not enabled. -/
structure Stored (catalog : EngineCatalog) (s : ModuleEngine) : Prop where
  enabled : ∀ id, id ∈ s.enabled ↔ (id, .active) ∈ s.states
  settled : s.settled = true ↔ s.states ≠ []
  version : s.version = enabledVersion s.audits
  core : s.settled = true → ∀ id ∈ catalog.coreIds, id ∈ s.enabled
  aside : ∀ job ∈ s.rows, s.settled = true ∧ job.moduleId ∉ catalog.coreIds
  leaving : ∀ job ∈ s.rows, jobTerminal job.state = false → job.kind ≠ .install →
    job.moduleId ∉ s.enabled

/-- A change of jobs, and entries of the audit that are no change of what is enabled. -/
structure Same (s s' : ModuleEngine) : Prop where
  enabled : s'.enabled = s.enabled
  states : s'.states = s.states
  settled : s'.settled = s.settled
  version : s'.version = s.version
  audits : enabledVersion s'.audits = enabledVersion s.audits

/-- The version grows when what is enabled changes. -/
def Grows (s s' : ModuleEngine) : Prop :=
  s.version ≤ s'.version ∧ (s'.enabled ≠ s.enabled → s.version < s'.version)

section Memory

variable {P : String → JobKind → Prop} {catalog : EngineCatalog} {s s' s'' : ModuleEngine}
  {id : String} {lifecycle : ModuleLifecycle} {action : ModuleAuditAction}

theorem Same.refl (s : ModuleEngine) : Same s s := ⟨rfl, rfl, rfl, rfl, rfl⟩

theorem Same.trans (h : Same s s') (h' : Same s' s'') : Same s s'' :=
  ⟨h'.enabled.trans h.enabled, h'.states.trans h.states, h'.settled.trans h.settled,
    h'.version.trans h.version, h'.audits.trans h.audits⟩

theorem same_changeJob {jobId : ℕ} {input : ModuleJobUpdate} : Same s (s.changeJob jobId input) :=
  ⟨rfl, rfl, rfl, rfl, rfl⟩

theorem same_audit (h : changesEnabledSet action = false) : Same s (s.audit action) := by
  refine ⟨rfl, rfl, rfl, ?_, ?_⟩
  · rw [audit, if_neg (by simp [h])]
  · rw [audit, enabledVersion_concat, if_neg (by simp [h])]

theorem Same.grows (h : Same s s') : Grows s s' :=
  ⟨h.version.ge, fun hne => absurd h.enabled hne⟩

theorem Grows.trans (h : Grows s s') (h' : Grows s' s'') : Grows s s'' := by
  refine ⟨h.1.trans h'.1, fun hne => ?_⟩
  by_cases heq : s'.enabled = s.enabled
  · exact h.1.trans_lt (h'.2 (heq ▸ hne))
  · exact (h.2 heq).trans_le h'.1

theorem Stored.reload_eq (h : Stored catalog s) : s.reload catalog = s := by
  have henabled : ((s.states.filter (·.2 = .active)).map (·.1)).toFinset ∪
      (if s.states = [] then ∅ else catalog.coreIds) = s.enabled := by
    ext id
    rw [Finset.mem_union, h.enabled, List.mem_toFinset]
    have hactive : id ∈ (s.states.filter (·.2 = .active)).map (·.1) ↔ (id, .active) ∈ s.states := by
      simp
    rw [hactive, or_iff_left_iff_imp, ← h.enabled]
    split_ifs with hstates
    · exact fun hid => absurd hid (Finset.notMem_empty _)
    · exact h.core (h.settled.2 hstates) id
  have hsettled : decide (s.states ≠ []) = s.settled := by
    rw [Bool.eq_iff_iff, decide_eq_true_eq, h.settled]
  rw [reload, henabled, hsettled, ← h.version]

/-- A change of jobs keeps what is stored, when new jobs are of modules that may leave. -/
theorem Stored.same (h : Stored catalog s) (hsame : Same s s')
    (hedits : ReflTransGen (Edit P) s.rows s'.rows)
    (hmake : ∀ id kind, P id kind → s.settled = true ∧ id ∉ catalog.coreIds ∧
      (kind ≠ .install → id ∉ s.enabled)) : Stored catalog s' where
  enabled := by rw [hsame.enabled, hsame.states]; exact h.enabled
  settled := by rw [hsame.settled, hsame.states]; exact h.settled
  version := by rw [hsame.version, hsame.audits]; exact h.version
  core := by rw [hsame.settled, hsame.enabled]; exact h.core
  aside job hjob := by
    rw [hsame.settled]
    rcases edits_made hedits hjob with ⟨old, hold, hmodule, -, -⟩ | hmade
    · exact hmodule ▸ h.aside old hold
    · exact ⟨(hmake _ _ hmade).1, (hmake _ _ hmade).2.1⟩
  leaving job hjob hopen hkind := by
    rw [hsame.enabled]
    rcases edits_made hedits hjob with ⟨old, hold, hmodule, hkind', hopen'⟩ | hmade
    · exact hmodule ▸ h.leaving old hold (hopen' hopen) (hkind' ▸ hkind)
    · exact (hmake _ _ hmade).2.2 hkind

theorem Stored.setLifecycle (h : Stored catalog s) (hsettled : s.settled = true)
    (hid : id ∉ catalog.coreIds) (hactive : lifecycle = .active → ∀ job ∈ s.rows,
      jobTerminal job.state = false → job.kind ≠ .install → job.moduleId ≠ id) :
    Stored catalog (s.setLifecycle id lifecycle action) where
  enabled other := by
    rw [ModuleEngine.setLifecycle, mem_upsert, ← h.enabled]
    dsimp only
    split_ifs with hlifecycle
    · rw [Finset.mem_insert, hlifecycle]
      tauto
    · rw [Finset.mem_erase]
      tauto
  settled := iff_of_true hsettled upsert_ne_nil
  version := by
    change (s.audit action).version = enabledVersion (s.audit action).audits
    rw [audit, enabledVersion_concat]
    split_ifs
    · rfl
    · exact h.version
  core _ other hother := by
    have henabled := h.core hsettled other hother
    have hne : other ≠ id := fun heq => hid (heq ▸ hother)
    rw [ModuleEngine.setLifecycle]
    dsimp only
    split_ifs
    · exact Finset.mem_insert_of_mem henabled
    · exact Finset.mem_erase.2 ⟨hne, henabled⟩
  aside := h.aside
  leaving job hjob hopen hkind := by
    have hnot := h.leaving job hjob hopen hkind
    rw [ModuleEngine.setLifecycle]
    dsimp only
    split_ifs with hlifecycle
    · rw [Finset.mem_insert, not_or]
      exact ⟨hactive hlifecycle job hjob hopen hkind, hnot⟩
    · exact fun hmem => hnot (Finset.mem_of_mem_erase hmem)

theorem Stored.grows_audit (h : Stored catalog s) (haction : changesEnabledSet action = true) :
    s.version < (s.audit action).version := by
  have hle := enabledVersion_le s.audits
  rw [audit, if_pos haction, h.version]
  exact Nat.lt_succ_of_le hle

theorem Stored.grows_setLifecycle (h : Stored catalog s)
    (haction : changesEnabledSet action = true) : Grows s (s.setLifecycle id lifecycle action) :=
  ⟨(h.grows_audit haction).le, fun _ => h.grows_audit haction⟩

theorem Stored.seed (h : Stored catalog s) (hsettled : s.settled = false) :
    Stored catalog (s.seed catalog) ∧ Grows s (s.seed catalog) := by
  have hstates : s.states = [] := by
    by_contra hne
    rw [h.settled.2 hne] at hsettled
    cases hsettled
  have hrow (id : String) (lifecycle : ModuleLifecycle) :
      (id, lifecycle) ∈ (s.seed catalog).states ↔ ∃ m ∈ catalog.modules, m.id = id ∧
        (if s.adopts m then ModuleLifecycle.active else .notInstalled) = lifecycle := by
    rw [ModuleEngine.seed, mem_seeded catalog.modules catalog.distinct, hstates]
    simp
  have henabled (id : String) :
      id ∈ (s.seed catalog).enabled ↔ ∃ m ∈ catalog.modules, m.id = id ∧ s.adopts m = true := by
    rw [ModuleEngine.seed, List.mem_toFinset, List.mem_map]
    simp only [List.mem_filter]
    tauto
  have hnone (job : ModuleJob) : job ∉ s.rows := fun hjob => by
    have hsettled' := (h.aside job hjob).1
    rw [hsettled] at hsettled'
    cases hsettled'
  refine ⟨⟨fun id => ?_, iff_of_true rfl fun hnil => ?_, rfl, fun _ id hid => ?_,
    fun job hjob => absurd hjob (hnone job), fun job hjob => absurd hjob (hnone job)⟩, ?_, ?_⟩
  · rw [henabled, hrow]
    refine exists_congr fun m => and_congr_right fun _ => and_congr_right fun _ => ?_
    split_ifs with hadopts <;> simp [hadopts]
  · obtain ⟨m, hm⟩ := List.exists_mem_of_ne_nil _ catalog.nonempty
    have hmem := (hrow m.id _).2 ⟨m, hm, rfl, rfl⟩
    rw [hnil] at hmem
    cases hmem
  · rw [EngineCatalog.coreIds, List.mem_toFinset, List.mem_map] at hid
    obtain ⟨m, hm, rfl⟩ := hid
    obtain ⟨hm, hcore⟩ := List.mem_filter.1 hm
    refine (henabled m.id).2 ⟨m, hm, rfl, ?_⟩
    rw [adopts, of_decide_eq_true hcore]
  · rw [h.version]
    exact (enabledVersion_adopted _).1
  · intro hne
    rw [h.version]
    refine (enabledVersion_adopted _).2 fun hnil => hne ?_
    ext id
    rw [h.enabled, hstates, ModuleEngine.seed, hnil]
    simp

theorem Stored.purge (h : Stored catalog s) (hsettled : s.settled = true) (hid : id ∉ s.enabled)
    (purged : Finset (String × String)) :
    Stored catalog { s.audit .purged with states := upsert s.states id .notInstalled, purged } ∧
      Grows s { s.audit .purged with states := upsert s.states id .notInstalled, purged } := by
  refine ⟨⟨fun other => ?_, iff_of_true hsettled upsert_ne_nil, ?_, h.core, h.aside, h.leaving⟩,
    (h.grows_audit (show changesEnabledSet .purged = true from rfl)).le,
    fun _ => h.grows_audit (show changesEnabledSet .purged = true from rfl)⟩
  · rw [mem_upsert, ← h.enabled]
    change other ∈ s.enabled ↔ _
    constructor
    · exact fun hother => .inr ⟨fun heq => hid (heq ▸ hother), hother⟩
    · rintro (⟨-, hactive⟩ | ⟨-, hother⟩)
      · cases hactive
      · exact hother
  · change (s.audit .purged).version = enabledVersion (s.audit .purged).audits
    rw [audit, enabledVersion_concat]
    rfl

end Memory

/-! ### The thread -/

section Thread

variable {P : String → JobKind → Prop} {catalog : EngineCatalog} {s : ModuleEngine}
  {job : ModuleJob} {m : EngineModule} {plan : StepPlan} {now : ℤ}

theorem nextJobAmong_same (jobs : List ModuleJob) :
    Same s (nextJobAmong catalog now jobs s).2 := by
  induction jobs generalizing s with
  | nil => exact .refl s
  | cons job rest ih =>
    unfold nextJobAmong
    split
    · exact same_changeJob.trans ih
    · dsimp only
      split_ifs
      · exact (same_changeJob.trans (same_audit rfl)).trans ih
      · exact ih
      · exact .refl s

variable (catalog now) in
theorem nextJob_same : Same s (s.nextJob catalog now).2 := by
  unfold nextJob
  split
  · exact .refl s
  · exact nextJobAmong_same _

variable (plan) in
theorem applyTransition_same (jobId : ℕ) : Same s (s.applyTransition plan jobId) := by
  unfold applyTransition
  split
  · exact .refl s
  · dsimp only
    split_ifs
    · exact same_changeJob.trans (same_audit rfl)
    · exact same_changeJob

variable (catalog job m now) in
theorem progress_same : Same s (s.progress catalog job m now) := by
  unfold progress
  dsimp only
  split_ifs
  · exact .refl s
  · exact same_changeJob

variable (plan) in
/-- The lifecycle changes as the job says: only an installation enables its module, and the module
of an uninstallation is not enabled when it ends. -/
theorem Stored.applyLifecycle (h : Stored catalog s) (hrows : Orderly s.rows)
    (hjob : job ∈ s.rows) (hid : m.id = job.moduleId)
    (hactivate : plan.activate = true → job.kind = .install ∧ jobTerminal job.state = false)
    (hfinish : plan.finishUninstall = true →
      job.kind ≠ .install ∧ jobTerminal job.state = false) :
    Stored catalog (s.applyLifecycle plan job m) ∧ Grows s (s.applyLifecycle plan job m) := by
  obtain ⟨hsettled, haside⟩ := h.aside job hjob
  rw [← hid] at haside
  obtain ⟨s₁, hs₁⟩ : ∃ s₁, s₁ = if plan.activate then s.setLifecycle m.id .active .enabled else s :=
    ⟨_, rfl⟩
  have h₁ : Stored catalog s₁ ∧ Grows s s₁ ∧ s₁.rows = s.rows := by
    rw [hs₁]
    split_ifs with hplan
    · obtain ⟨hkind, hopen⟩ := hactivate hplan
      refine ⟨h.setLifecycle hsettled haside fun _ other hother hopen' hkind' hmodule => ?_,
        h.grows_setLifecycle rfl, rfl⟩
      have heq := eq_of_open hrows hother hjob (hmodule.trans hid) hopen' hopen
      exact hkind' (heq ▸ hkind)
    · exact ⟨h, (Same.refl s).grows, rfl⟩
  obtain ⟨hstored₁, hgrows₁, hrows₁⟩ := h₁
  have hsettled₁ := (hstored₁.aside job (hrows₁ ▸ hjob)).1
  obtain ⟨s₂, hs₂⟩ : ∃ s₂, s₂ =
      if plan.rollback then s₁.setLifecycle m.id .disabled .rolledBack else s₁ := ⟨_, rfl⟩
  have h₂ : Stored catalog s₂ ∧ Grows s₁ s₂ ∧ s₂.rows = s.rows := by
    rw [hs₂]
    split_ifs
    · exact ⟨hstored₁.setLifecycle hsettled₁ haside nofun, hstored₁.grows_setLifecycle rfl, hrows₁⟩
    · exact ⟨hstored₁, (Same.refl s₁).grows, hrows₁⟩
  obtain ⟨hstored₂, hgrows₂, hrows₂⟩ := h₂
  have hsettled₂ := (hstored₂.aside job (hrows₂ ▸ hjob)).1
  have hgrows := hgrows₁.trans hgrows₂
  rw [ModuleEngine.applyLifecycle, ← hs₁]
  dsimp only
  rw [← hs₂]
  split_ifs with hplan hkind
  · obtain ⟨hkind, hopen⟩ := hfinish hplan
    have hnot := hstored₂.leaving job (hrows₂ ▸ hjob) hopen hkind
    rw [← hid] at hnot
    obtain ⟨hstored, hgrows'⟩ := hstored₂.purge hsettled₂ hnot _
    exact ⟨hstored, hgrows.trans hgrows'⟩
  · exact ⟨hstored₂.setLifecycle hsettled₂ haside nofun,
      hgrows.trans (hstored₂.grows_setLifecycle rfl)⟩
  · exact ⟨hstored₂.setLifecycle hsettled₂ haside nofun,
      hgrows.trans (hstored₂.grows_setLifecycle rfl)⟩
  · exact ⟨hstored₂, hgrows⟩

variable (m now) in
theorem Stored.apply (h : Stored catalog s) (hrows : Orderly s.rows) (hhand : InHand s.rows job)
    (hsound : PlanSound plan job) :
    Stored catalog (s.apply catalog plan m now) ∧ Grows s (s.apply catalog plan m now) := by
  have hedits := apply_edits (P := fun _ _ => False) catalog m now hrows hhand hsound
  unfold ModuleEngine.apply at hedits ⊢
  split at hedits
  · exact ⟨h, (Same.refl s).grows⟩
  next current hof =>
  obtain ⟨hcurrent, hmodule, -⟩ := jobOf_eq_some hof
  by_cases hany : plan.transition.any fun t => current.state ≠ t.source
  · rw [if_pos hany]
    exact ⟨h, (Same.refl s).grows⟩
  rw [if_neg hany] at hedits ⊢
  -- A plan that changes the module has a transition, from the state that the job in hand is in.
  have hjob (hsome : plan.transition.isSome = true) (hrunning : jobRunning job.state = true) :
      current = job := by
    obtain ⟨t, ht⟩ := Option.isSome_iff_exists.1 hsome
    have hsource : current.state = t.source := by simpa [ht] using hany
    exact hhand current hcurrent (by rwa [hsource, (hsound.transition t ht).source])
  have hopen (hsome : plan.transition.isSome = true) : jobTerminal job.state = false := by
    obtain ⟨t, ht⟩ := Option.isSome_iff_exists.1 hsome
    exact (hsound.transition t ht).unfinished
  obtain ⟨hstored, hgrows⟩ := h.applyLifecycle plan (m := m) hrows hcurrent hmodule.symm
    (fun hplan => by
      obtain ⟨hkind, hstate, hsome⟩ := hsound.activate hplan
      rw [hjob hsome (by rw [hstate]; rfl)]
      exact ⟨hkind, hopen hsome⟩)
    (fun hplan => by
      obtain ⟨hkind, hrunning, hsome⟩ := hsound.finish hplan
      rw [hjob hsome hrunning]
      exact ⟨hkind, hopen hsome⟩)
  rw [← applyLifecycle_rows m plan current] at hedits
  dsimp only at hedits ⊢
  split_ifs at hedits ⊢
  · have hsame := (progress_same (s := s.applyLifecycle plan current m) catalog current m now).trans
      (applyTransition_same plan current.id)
    exact ⟨hstored.same hsame hedits nofun, hgrows.trans hsame.grows⟩
  · have hsame := applyTransition_same (s := s.applyLifecycle plan current m) plan current.id
    exact ⟨hstored.same hsame hedits nofun, hgrows.trans hsame.grows⟩

end Thread

/-! ### Runs -/

section Runs

variable {catalog : EngineCatalog} {s s' : ModuleEngine}

theorem stored_same (h : Stored catalog s) (hsame : Same s s')
    (hedits : ReflTransGen (Edit fun _ _ => False) s.rows s'.rows) :
    Stored catalog s' ∧ Grows s s' :=
  ⟨h.same hsame hedits nofun, hsame.grows⟩

theorem stored_of_command {result : Except ModuleErrors ModuleEngine} (h : Stored catalog s)
    (hok : ∀ s', result = .ok s' → Stored catalog s' ∧ Grows s s') :
    Stored catalog (result.toOption.getD s) ∧ Grows s (result.toOption.getD s) := by
  cases result with
  | error e => exact ⟨h, (Same.refl s).grows⟩
  | ok s' => exact hok s' rfl

theorem stored_told (h : Stored catalog s) (htold : Told s s') :
    Stored catalog s' ∧ Grows s s' := by
  have hedits := calms_edits (htold.calm (P := fun _ _ => False)).1
  rcases htold with rfl | ⟨job, -, state, -, reason, now, action, -, haction, rfl⟩
  · exact ⟨h, (Same.refl _).grows⟩
  · exact stored_same h (same_changeJob.trans (same_audit haction)) hedits

theorem not_core {id : String} {m : EngineModule} (hm : catalog.module id = some m)
    (hkind : m.kind ≠ .core) : id ∉ catalog.coreIds := by
  have hid : m.id = id := by simpa using List.find?_some hm
  have hmem := List.mem_of_find?_eq_some hm
  rw [EngineCatalog.coreIds, List.mem_toFinset, List.mem_map]
  rintro ⟨other, hother, heq⟩
  obtain ⟨hother, hcore⟩ := List.mem_filter.1 hother
  have hsame := List.inj_on_of_nodup_map catalog.distinct hother hmem (heq.trans hid.symm)
  exact hkind (hsame ▸ of_decide_eq_true hcore)

theorem requests_same {userId now : ℤ} (ids : List String) :
    Same s (ids.foldl (fun s id => s.request catalog id userId now) s) := by
  induction ids generalizing s with
  | nil => exact .refl s
  | cons id ids ih =>
    have hcreate : Same s (s.createJob id .install
        (((catalog.module id).map catalog.sizeBytes).getD 0) userId now) :=
      ⟨rfl, rfl, rfl, rfl, rfl⟩
    exact (hcreate.trans (same_audit rfl)).trans ih

theorem restarted_same (now : ℤ) (jobs : List ModuleJob) :
    Same s (jobs.foldl (fun s job => s.changeJob job.id { now, state := some .queued }) s) := by
  induction jobs generalizing s with
  | nil => exact .refl s
  | cons job rest ih => exact same_changeJob.trans ih

theorem Stored.restart {now : ℤ} (h : Stored catalog s) :
    Stored catalog (s.restart catalog now) ∧ Grows s (s.restart catalog now) := by
  have hedits := restarted_edits (P := fun _ _ => False) (s := s) now _
    (s.rows.sorted.filter _) fun job hjob => List.mem_filter.1 hjob
  have hsame := restarted_same (s := s) now
    (s.rows.rows.filter fun job => jobRunning job.state)
  rw [ModuleEngine.restart, h.reload_eq]
  exact stored_same h ⟨hsame.enabled, hsame.states, hsame.settled, hsame.version, hsame.audits⟩
    hedits

theorem exec_stored (act : Act) (hheld : Held s) (h : Stored catalog s) :
    Stored catalog (s.exec catalog act) ∧ Grows s (s.exec catalog act) := by
  have hsame : Stored catalog s ∧ Grows s s := ⟨h, (Same.refl s).grows⟩
  cases act with
  | refresh readings => exact stored_same h ⟨rfl, rfl, rfl, rfl, rfl⟩ .refl
  | seed waited =>
    dsimp only [exec]
    split_ifs with hseed
    · exact h.seed (by simp only [Bool.and_eq_true, Bool.not_eq_true'] at hseed; exact hseed.1)
    · exact hsame
  | install id userId now insufficient =>
    refine stored_of_command h fun s' hok => ?_
    obtain ⟨hsettled, ids, -, -, hs'⟩ := install_ok hok
    have hsame : Same s s' := hs' ▸ requests_same ids
    have hcalms := (install_calm (P := fun id kind => kind = .install ∧ s.wanted catalog id = true)
      hheld.1 (fun id hwanted => ⟨rfl, hwanted⟩) hok).1
    refine ⟨h.same hsame (calms_edits hcalms) ?_, hsame.grows⟩
    rintro id kind ⟨hkind, hwanted⟩
    obtain ⟨m, hm, -, hcore, -⟩ := wanted_spec hwanted
    exact ⟨hsettled, not_core hm hcore, fun hne => absurd hkind hne⟩
  | pause id now => exact stored_of_command h fun s' hok => stored_told h (pause_told hok)
  | resume id now => exact stored_of_command h fun s' hok => stored_told h (resume_told hok)
  | cancel id now => exact stored_of_command h fun s' hok => stored_told h (cancel_told hok)
  | disable id =>
    refine stored_of_command h fun s' hok => ?_
    rcases disable_ok hok with rfl | ⟨m, hleaving, -, rfl⟩
    · exact hsame
    · obtain ⟨hsettled, hm, hcore, -⟩ := leaving_ok hleaving
      have hid : m.id = id := by simpa using List.find?_some hm
      exact ⟨h.setLifecycle hsettled (hid ▸ not_core hm hcore) nofun, h.grows_setLifecycle rfl⟩
  | uninstall id userId now keepData =>
    refine stored_of_command h fun s' hok => ?_
    obtain ⟨m, left, hleaving, hleft, rfl⟩ := uninstall_ok hok
    obtain ⟨hsettled, hm, hcore, hnone⟩ := leaving_ok hleaving
    have hid : m.id = id := by simpa using List.find?_some hm
    have haside : m.id ∉ catalog.coreIds := hid ▸ not_core hm hcore
    have hstored : Stored catalog left ∧ Grows s left ∧ left.settled = true ∧ left.rows = s.rows ∧
        m.id ∉ left.enabled := by
      rcases hleft with ⟨rfl, hnot⟩ | ⟨rfl, -⟩
      · exact ⟨h, hsame.2, hsettled, rfl, hnot⟩
      · exact ⟨h.setLifecycle hsettled haside nofun, h.grows_setLifecycle rfl, hsettled, rfl,
          Finset.notMem_erase _ _⟩
    obtain ⟨hstored, hgrows, hsettled', hrows, hnot⟩ := hstored
    generalize (if keepData then JobKind.uninstall else .purge) = kind
    have hcalm : Calm (fun id _ => id = m.id) left.rows
        (left.createJob m.id kind 0 userId now).rows :=
      create_calm rfl fun job hjob hmodule => openJob_eq_none hheld.1 hnone (hrows ▸ hjob) hmodule
    have hcreate : Same left (left.createJob m.id kind 0 userId now) := ⟨rfl, rfl, rfl, rfl, rfl⟩
    have hsame' := hcreate.trans (same_audit (show changesEnabledSet .uninstallRequested = false from rfl))
    refine ⟨hstored.same hsame' (.single hcalm.1) ?_, hgrows.trans hsame'.grows⟩
    rintro id kind rfl
    exact ⟨hsettled', haside, fun _ => hnot⟩
  | pick now =>
    dsimp only [exec]
    split
    · unfold pick
      split_ifs
      · have hcalms := (nextJob_calm (P := fun _ _ => False) catalog now hheld.1).1
        have hnext := nextJob_same (s := s) catalog now
        exact stored_same h ⟨hnext.enabled, hnext.states, hnext.settled, hnext.version,
          hnext.audits⟩ (calms_edits hcalms)
      · exact hsame
    · exact hsame
  | plan now timeout insufficient =>
    dsimp only [exec]
    split
    next job hstage =>
      obtain ⟨-, hrows⟩ := planPicked_held catalog now timeout insufficient hheld hstage
      refine stored_same h ?_ (hrows ▸ .refl)
      unfold planPicked
      split
      · split_ifs <;> exact ⟨rfl, rfl, rfl, rfl, rfl⟩
      · exact ⟨rfl, rfl, rfl, rfl, rfl⟩
    next => exact hsame
  | callOwners answers =>
    dsimp only [exec]
    split
    · exact stored_same h ⟨rfl, rfl, rfl, rfl, rfl⟩ .refl
    · exact hsame
  | apply now =>
    dsimp only [exec]
    split
    next job m plan hstage =>
      have hstageHeld := hheld.2
      rw [hstage] at hstageHeld
      obtain ⟨hhand, -, hsound⟩ := hstageHeld
      obtain ⟨hstored, hgrows⟩ := h.apply m now hheld.1 hhand hsound
      exact ⟨⟨hstored.enabled, hstored.settled, hstored.version, hstored.core, hstored.aside,
        hstored.leaving⟩, hgrows⟩
    next => exact hsame
  | rollback ofThread =>
    dsimp only [exec]
    rw [h.reload_eq]
    exact stored_same h ⟨rfl, rfl, rfl, rfl, rfl⟩ .refl
  | abandon => exact stored_same h ⟨rfl, rfl, rfl, rfl, rfl⟩ .refl
  | restart now => exact h.restart

variable (catalog) in
theorem runFrom_stored (acts : List Act) (hheld : Held s) (h : Stored catalog s) :
    Held (s.runFrom catalog acts) ∧ Stored catalog (s.runFrom catalog acts) ∧
      Grows s (s.runFrom catalog acts) := by
  induction acts generalizing s with
  | nil => exact ⟨hheld, h, (Same.refl s).grows⟩
  | cons act acts ih =>
    obtain ⟨hstored, hgrows⟩ := exec_stored act hheld h
    have hheld' := (exec_held (P := fun _ _ => True) catalog act (fun _ _ => trivial) hheld).1
    obtain ⟨hheld', hstored', hgrows'⟩ := ih hheld' hstored
    exact ⟨hheld', hstored', hgrows.trans hgrows'⟩

theorem stored_start : Stored catalog {} := by
  have hnone (job : ModuleJob) : job ∉ (Serial.empty : Jobs) := List.not_mem_nil
  exact ⟨fun id => iff_of_false (Finset.notMem_empty id) List.not_mem_nil,
    iff_of_false Bool.false_ne_true (not_not.2 rfl), rfl, nofun,
    fun job hjob => absurd hjob (hnone job), fun job hjob => absurd hjob (hnone job)⟩

/-- Whatever was done to the engine, reading its tables again changes nothing: a transaction that
is rolled back, and a restart, find the set that was enabled, and its version. -/
theorem reload_agrees (catalog : EngineCatalog) (acts : List Act) :
    (runFrom catalog {} acts).reload catalog = runFrom catalog {} acts :=
  (runFrom_stored catalog acts held_start stored_start).2.1.reload_eq

/-- Between any two moments of any run, restarts included, the version does not fall, and it grows
where what is enabled differs. -/
theorem version_grows (catalog : EngineCatalog) (acts later : List Act) :
    let s := runFrom catalog {} acts
    let s' := s.runFrom catalog later
    s.version ≤ s'.version ∧ (s'.enabled ≠ s.enabled → s.version < s'.version) := by
  intro s s'
  obtain ⟨hheld, hstored, -⟩ := runFrom_stored catalog acts held_start stored_start
  exact (runFrom_stored catalog later hheld hstored).2.2

end Runs

end ModuleEngine

end Modules

end ArgusBackend
