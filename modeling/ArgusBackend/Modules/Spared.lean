import ArgusBackend.Modules.Reload

/-!
# What an uninstallation leaves alone

The owners of components are asked to remove and to purge without the lock, some time after the
plan was made.  `removals_spare_enabled` : by then, too, no enabled module has a component that is
removed, and a module whose data are purged is not enabled.
-/

namespace ArgusBackend

namespace Modules

namespace ModuleEngine

section Plans

variable {catalog : EngineCatalog} {s : ModuleEngine} {job : ModuleJob} {m other : EngineModule}
  {call : OwnerCall} {now timeout : ℤ} {insufficient : Bool}

theorem of_mem_removals (hcall : call ∈ s.removals catalog m) (hother : other ∈ catalog.modules)
    (hne : other.id ≠ m.id) (henabled : other.id ∈ s.enabled) :
    call.component ∉ other.components := by
  obtain ⟨c, -, hc⟩ := List.mem_filterMap.1 hcall
  dsimp only at hc
  split_ifs at hc with hkept
  cases hc
  simp only [Bool.and_eq_true, Bool.not_eq_true', List.any_eq_false] at hkept
  have hshared := hkept.1.2 other hother
  simpa [hne, henabled] using hshared

theorem plan_removes (hcall : call ∈ (s.plan catalog job m now timeout insufficient).removes) :
    call ∈ s.removals catalog m := by
  unfold plan at hcall
  split_ifs at hcall with hkind
  · have howners := (planInstall_sound hkind).owners (.inl (List.ne_nil_of_mem hcall))
    exact absurd hkind howners.1
  · unfold planUninstall at hcall
    dsimp only at hcall
    split at hcall
    · cases hcall
    · exact hcall
    · cases hcall
    · cases hcall

end Plans

section Runs

variable {catalog : EngineCatalog} {s s' : ModuleEngine}

/-- What the owners are asked to do hurts no enabled module. -/
structure PlanSpares (catalog : EngineCatalog) (s : ModuleEngine) (m : EngineModule)
    (plan : StepPlan) : Prop where
  settled : s.settled = true
  removes : ∀ call ∈ plan.removes, ∀ other ∈ catalog.modules, other.id ∈ s.enabled →
    call.component ∉ other.components
  purges : plan.purges ≠ [] → m.id ∉ s.enabled

/-- The plan in hand spares what is enabled. -/
def Spares (catalog : EngineCatalog) (s : ModuleEngine) : Prop :=
  ∀ job m plan, s.stage = .planned job m plan → PlanSpares catalog s m plan

theorem PlanSpares.mono {m : EngineModule} {plan : StepPlan} (h : PlanSpares catalog s m plan)
    (hsettled : s'.settled = s.settled) (henabled : s'.enabled ⊆ s.enabled) :
    PlanSpares catalog s' m plan :=
  ⟨hsettled.trans h.settled,
    fun call hcall other hother hin => h.removes call hcall other hother (henabled hin),
    fun hpurges hin => h.purges hpurges (henabled hin)⟩

theorem planPicked_spares {job : ModuleJob} {now timeout : ℤ} {insufficient : Bool}
    (h : Stored catalog s) : Spares catalog (s.planPicked catalog job now timeout insufficient) := by
  intro job' m' plan hstage
  unfold planPicked at hstage ⊢
  split at hstage
  next m current hm hof =>
    split_ifs at hstage ⊢ with hstate
    · obtain ⟨rfl, rfl, rfl⟩ := Stage.planned.inj hstage
      obtain ⟨hcurrent, hmodule, -⟩ := jobOf_eq_some hof
      have hid : m.id = current.moduleId := by
        rw [hmodule]
        simpa using List.find?_some hm
      have hnot (hasks : (s.plan catalog current m now timeout insufficient).removes ≠ [] ∨
          (s.plan catalog current m now timeout insufficient).purges ≠ []) : m.id ∉ s.enabled := by
        obtain ⟨hkind, hremoving⟩ := plan_sound.owners hasks
        have hopen : jobTerminal current.state = false := by
          rcases hremoving with h | h <;> rw [h] <;> rfl
        exact hid ▸ h.leaving current hcurrent hopen hkind
      refine ⟨(h.aside _ hcurrent).1, fun call hcall other hother hin => ?_,
        fun hpurges => hnot (.inr hpurges)⟩
      by_cases heq : other.id = m.id
      · exact absurd (heq ▸ hin) (hnot (.inl (List.ne_nil_of_mem hcall)))
      · exact of_mem_removals (plan_removes hcall) hother heq hin
  next => cases hstage

theorem spares_idle (hidle : s.stage = .idle) : Spares catalog s := by
  intro job m plan hstage
  rw [hidle] at hstage
  cases hstage

/-- No command enables a module. -/
theorem Spares.command {result : Except ModuleErrors ModuleEngine} (h : Spares catalog s)
    (hok : ∀ s', result = .ok s' → s'.stage = s.stage ∧ s'.settled = s.settled ∧
      s'.enabled ⊆ s.enabled) : Spares catalog (result.toOption.getD s) := by
  cases result with
  | error e => exact h
  | ok s' =>
    obtain ⟨hstage, hsettled, henabled⟩ := hok s' rfl
    exact fun job m plan hplanned =>
      (h job m plan (hstage ▸ hplanned)).mono hsettled henabled

theorem Told.keeps (h : Told s s') :
    s'.stage = s.stage ∧ s'.settled = s.settled ∧ s'.enabled ⊆ s.enabled := by
  rcases h with rfl | ⟨job, -, state, -, reason, now, action, -, -, rfl⟩ <;>
    exact ⟨rfl, rfl, subset_rfl⟩

theorem exec_spares (act : Act) (hheld : Held s) (hstored : Stored catalog s)
    (h : Spares catalog s) : Spares catalog (s.exec catalog act) := by
  cases act with
  | refresh readings => exact fun job m plan hstage => (h job m plan hstage).mono rfl subset_rfl
  | seed waited =>
    dsimp only [exec]
    split_ifs with hseed
    · intro job m plan hstage
      rw [(h job m plan hstage).settled] at hseed
      cases hseed
    · exact h
  | install id userId now insufficient =>
    refine h.command fun s' hok => ?_
    obtain ⟨-, ids, -, -, hs'⟩ := install_ok hok
    have hsame : Same s s' := hs' ▸ requests_same ids
    have hstage := (install_calm (P := fun _ _ => True) hheld.1 (fun _ _ => trivial) hok).2
    exact ⟨hstage, hsame.settled, hsame.enabled.subset⟩
  | pause id now => exact h.command fun s' hok => (pause_told hok).keeps
  | resume id now => exact h.command fun s' hok => (resume_told hok).keeps
  | cancel id now => exact h.command fun s' hok => (cancel_told hok).keeps
  | disable id =>
    refine h.command fun s' hok => ?_
    rcases disable_ok hok with rfl | ⟨m, -, -, rfl⟩
    · exact ⟨rfl, rfl, subset_rfl⟩
    · exact ⟨rfl, rfl, Finset.erase_subset _ _⟩
  | uninstall id userId now keepData =>
    refine h.command fun s' hok => ?_
    obtain ⟨m, left, -, hleft, rfl⟩ := uninstall_ok hok
    rcases hleft with ⟨rfl, -⟩ | ⟨rfl, -⟩
    · exact ⟨rfl, rfl, subset_rfl⟩
    · exact ⟨rfl, rfl, Finset.erase_subset _ _⟩
  | pick now =>
    dsimp only [exec]
    split
    next hidle =>
      unfold pick
      split_ifs
      · intro job m plan hstage
        dsimp only at hstage
        cases hnext : (s.nextJob catalog now).1 <;> rw [hnext] at hstage <;> cases hstage
      · exact h
    next => exact h
  | plan now timeout insufficient =>
    dsimp only [exec]
    split
    · exact planPicked_spares hstored
    · exact h
  | callOwners answers =>
    dsimp only [exec]
    split
    · intro job m plan hstage
      cases hstage
    · exact h
  | apply now =>
    dsimp only [exec]
    split
    · exact spares_idle rfl
    · exact h
  | rollback ofThread =>
    dsimp only [exec]
    rw [hstored.reload_eq]
    cases ofThread with
    | true => exact spares_idle rfl
    | false => exact h
  | abandon => exact spares_idle rfl
  | restart now => exact spares_idle rfl

variable (catalog) in
theorem runFrom_spares (acts : List Act) (hheld : Held s) (hstored : Stored catalog s)
    (h : Spares catalog s) : Spares catalog (s.runFrom catalog acts) := by
  induction acts generalizing s with
  | nil => exact h
  | cons act acts ih =>
    have hheld' := (exec_held (P := fun _ _ => True) catalog act (fun _ _ => trivial)
      hheld).1
    exact ih hheld' (exec_stored act hheld hstored).1 (exec_spares act hheld hstored h)

/-- In every run, when the owners are to be called: no enabled module has a component that they are
asked to remove, and the module whose data they are asked to purge is not enabled. -/
theorem removals_spare_enabled (catalog : EngineCatalog) (acts : List Act) {job : ModuleJob}
    {m : EngineModule} {plan : StepPlan}
    (hstage : (runFrom catalog {} acts).stage = .planned job m plan) :
    (∀ call ∈ plan.removes, ∀ other ∈ catalog.modules,
      other.id ∈ (runFrom catalog {} acts).enabled → call.component ∉ other.components) ∧
    (plan.purges ≠ [] → m.id ∉ (runFrom catalog {} acts).enabled) := by
  have h := runFrom_spares catalog acts held_start stored_start (spares_idle rfl) job m
    plan hstage
  exact ⟨h.removes, h.purges⟩

/-- A house with one module beside the core, and its uninstallation up to the call of the owner. -/
def house : EngineCatalog where
  modules := [{ id := "core", required := [], kind := .core },
    { id := "chat", required := ["core"], components := ["model"] }]
  components := [⟨"model", .download, 1, "llm"⟩]
  nonempty := List.cons_ne_nil _ _
  distinct := by simp

/-- A module is uninstalled. -/
def uninstalling : List Act :=
  [.refresh fun _ => some ⟨.installed, 1, true, "", .answered, true⟩, .seed false,
    .uninstall "chat" 1 0 true, .pick 0, .plan 0 0 false,
    .callOwners ⟨fun _ => none, fun _ => none⟩, .apply 0, .pick 0, .plan 0 0 false]

theorem removals_spare_enabled_house : ∃ job m plan,
    (runFrom house {} uninstalling).stage = .planned job m plan ∧
    plan.removes = [⟨"llm", "model"⟩] ∧
    (∀ call ∈ plan.removes, ∀ other ∈ house.modules,
      other.id ∈ (runFrom house {} uninstalling).enabled → call.component ∉ other.components) ∧
    (plan.purges ≠ [] → m.id ∉ (runFrom house {} uninstalling).enabled) :=
  ⟨_, _, _, rfl, rfl, removals_spare_enabled house uninstalling rfl⟩

end Runs

end ModuleEngine

end Modules

end ArgusBackend
