import ArgusBackend.Library.Places
import ArgusBackend.Modules.Feed

/-!
# The flags of a service do not go back

* `Feed.apply_spec` : what the feed does with a state;
* `Current` : which of the carried states the gate has;
* `Converging` : the gate has the newest of them, or a call that will bring it is under way;
* `flags_converge` : every run, and those whose reads are applied in the order of the epochs.
-/

namespace ArgusBackend

namespace Modules

open Places

variable {epochs : Epochs} {feed : Feed} {snapshot : Snapshot}

/-! ### One state -/

/-- A state is refused, taken in its epoch, or begins an epoch. -/
theorem Feed.apply_spec (hepoch : snapshot.epoch ≠ "") (hversion : 0 < snapshot.version) :
    (snapshot.epoch = feed.epoch ∧ snapshot.version < feed.version ∧
      feed.apply snapshot = ({}, feed)) ∨
    (snapshot.epoch = feed.epoch ∧ feed.version ≤ snapshot.version ∧
      feed.apply snapshot = (⟨true, false⟩, ⟨snapshot.epoch, snapshot.version,
        feed.gate.store snapshot.flags⟩)) ∨
    (snapshot.epoch ≠ feed.epoch ∧
      feed.apply snapshot = (⟨true, feed.epoch ≠ ""⟩, ⟨snapshot.epoch, snapshot.version,
        feed.gate.store snapshot.flags⟩)) := by
  obtain ⟨epoch, version, gate⟩ := feed
  obtain ⟨flags, version', epoch'⟩ := snapshot
  simp only at hepoch hversion ⊢
  by_cases hsame : epoch' = epoch
  · subst hsame
    by_cases hold : version' < version
    · refine .inl ⟨rfl, hold, ?_⟩
      simp [apply, enterEpoch, hversion, hold]
    · refine .inr (.inl ⟨rfl, not_lt.1 hold, ?_⟩)
      simp [apply, enterEpoch, hold, max_eq_right (not_lt.1 hold)]
  · refine .inr (.inr ⟨hsame, ?_⟩)
    have hnot : ¬version' < 0 := not_lt.2 hversion.le
    simp [apply, enterEpoch, hepoch, hsame, hnot, max_eq_right hversion.le]

/-- Within an epoch the version does not go down. -/
theorem Feed.version_apply (hsame : (feed.apply snapshot).2.epoch = feed.epoch) :
    feed.version ≤ (feed.apply snapshot).2.version := by
  unfold apply enterEpoch at hsame ⊢
  by_cases hnew : snapshot.epoch ≠ "" ∧ snapshot.epoch ≠ feed.epoch
  · simp only [if_pos hnew] at hsame
    split at hsame <;> exact absurd hsame hnew.2
  · simp only [if_neg hnew]
    split
    · exact le_rfl
    · exact le_max_left _ _

/-! ### Where the gate stands -/

/-- The feed has this state, and the gate its flags. -/
structure Feed.At (epochs : Epochs) (feed : Feed) (st : State) : Prop where
  epoch : feed.epoch = epochs.name st.era
  version : feed.version = st.version
  gate : feed.gate.Has st.flags

/-- What settings and the carried states keep. -/
structure Recorded (s : World) : Prop where
  sorted : s.history.Pairwise fun st st' => st'.age < st.age
  positive : ∀ st ∈ s.history, 0 < st.version
  carried : ∀ st ∈ s.carried, st ∈ s.history

/-- The feed has one of the carried states, if there is one. -/
def Current (epochs : Epochs) (s : World) : Prop :=
  (s.carried = [] ∧ s.feed.epoch = "") ∨ ∃ st ∈ s.carried, s.feed.At epochs st

/-- Every carried state is at most as new as this one. -/
def World.Carries (s : World) (st : State) : Prop := ∀ st' ∈ s.carried, st'.age ≤ st.age

/-- The feed has the newest carried state. -/
def UpToDate (epochs : Epochs) (s : World) : Prop :=
  s.carried = [] ∨ ∃ st ∈ s.carried, s.feed.At epochs st ∧ s.Carries st

/-- A call is under way that has still to read, or has read the newest carried state. -/
def Pending (s : World) (ks : List (Request × Call)) : Prop :=
  ∃ r ∈ ks, r.2 = .owes ∨ ∃ st, r.2 = .holds st ∧ s.Carries st

/-- What the calls have in hand are states of settings. -/
def InHand (s : World) (ks : List (Request × Call)) : Prop :=
  ∀ r ∈ ks, ∀ st, r.2 = .delivered st ∨ r.2 = .holds st → st ∈ s.history

/-- A read is applied when no state of a later epoch has been carried. -/
def InOrder (s : World) (_ : List (Request × Call)) (_ : Call) : Op → Prop
  | .applyAuthoritative st => ∀ st' ∈ s.carried, st'.era ≤ st.era
  | _ => True

instance (s : World) (ks : List (Request × Call)) (k : Call) : DecidablePred (InOrder s ks k)
  | .applyAuthoritative st => inferInstanceAs (Decidable (∀ st' ∈ s.carried, st'.era ≤ st.era))
  | .publish _ | .restore _ _ | .deliver _ | .bootRead | .apply _ => instDecidableTrue

section World

variable {s s' : World} {st st' : State} {ks : List (Request × Call)} {i : ℕ} {req : Request}
  {k : Call} {op : Op}

theorem Recorded.eq_of_age (hR : Recorded s) (hst : st ∈ s.history) (hst' : st' ∈ s.history)
    (h : st.age = st'.age) : st = st' := by
  have hinj := List.inj_on_of_nodup_map (f := State.age) (List.pairwise_map.2
    (hR.sorted.imp fun hlt => (ne_of_lt hlt).symm)) hst hst' h
  exact hinj

theorem Recorded.age_le (hR : Recorded s) (hst : st ∈ s.history) : st.age ≤ s.newest.age := by
  rcases List.mem_cons.1 hst with rfl | hpast
  · exact le_rfl
  · exact (List.rel_of_pairwise_cons hR.sorted hpast).le

theorem age_le_iff : st.age ≤ st'.age ↔ st.era < st'.era ∨ st.era = st'.era ∧ st.version ≤ st'.version :=
  Prod.Lex.toLex_le_toLex

theorem age_lt_iff : st.age < st'.age ↔ st.era < st'.era ∨ st.era = st'.era ∧ st.version < st'.version :=
  Prod.Lex.toLex_lt_toLex

/-- A state of settings that the feed takes becomes the one it has, or the feed has a newer one of
that epoch. -/
theorem apply_state (epochs : Epochs) (hpos : 0 < st.version) :
    (epochs.name st.era = s.feed.epoch ∧ st.version < s.feed.version ∧
      s.feed.apply (epochs.snapshot st) = ({}, s.feed)) ∨
    ((epochs.name st.era = s.feed.epoch → s.feed.version ≤ st.version) ∧
      (s.take epochs st).feed.At epochs st ∧
      (s.feed.apply (epochs.snapshot st)).1 =
        ⟨true, epochs.name st.era ≠ s.feed.epoch && s.feed.epoch ≠ ""⟩) := by
  rcases @Feed.apply_spec s.feed (epochs.snapshot st)
    (epochs.nonempty st.era) hpos with ⟨hsame, hold, heq⟩ | ⟨hsame, hnew, heq⟩ | ⟨hother, heq⟩
  · exact .inl ⟨hsame, hold, heq⟩
  · refine .inr ⟨fun _ => hnew, ⟨?_, ?_, ?_⟩, ?_⟩
    all_goals simp only [World.take, heq]
    · rfl
    · rfl
    · exact Gate.has_store
    · simp [show epochs.name st.era = s.feed.epoch from hsame]
  · refine .inr ⟨fun h => absurd h hother, ⟨?_, ?_, ?_⟩, ?_⟩
    all_goals simp only [World.take, heq]
    · rfl
    · rfl
    · exact Gate.has_store
    · simp [show epochs.name st.era ≠ s.feed.epoch from hother]

theorem not_carries (h : ¬s.Carries st) : ∃ st' ∈ s.carried, st.age < st'.age := by
  simpa [World.Carries] using h

theorem Recorded.take (hR : Recorded s) (hst : st ∈ s.history) : Recorded (s.take epochs st) :=
  ⟨hR.sorted, hR.positive, fun st' hst' => by
    rcases List.mem_cons.1 hst' with rfl | hold
    · exact hst
    · exact hR.carried st' hold⟩

theorem Current.take (hR : Recorded s) (hC : Current epochs s) (hst : st ∈ s.history) :
    Current epochs (s.take epochs st) := by
  rcases apply_state epochs (hR.positive st hst) with ⟨hepoch, -, heq⟩ | ⟨-, hat, -⟩
  · rcases hC with ⟨hnone, hempty⟩ | ⟨st', hst', hat⟩
    · exact absurd (hepoch.trans hempty) (epochs.nonempty _)
    · refine .inr ⟨st', List.mem_cons_of_mem _ hst', ?_⟩
      have hfeed : (s.take epochs st).feed = s.feed := congrArg Prod.snd heq
      rwa [hfeed]
  · exact .inr ⟨st, List.mem_cons_self, hat⟩

/-- The newest state that was carried is taken. -/
theorem UpToDate.of_newest (hR : Recorded s) (hC : Current epochs s) (hst : st ∈ s.history)
    (hnewest : s.Carries st) : UpToDate epochs (s.take epochs st) := by
  rcases apply_state epochs (hR.positive st hst) with ⟨hepoch, hold, -⟩ | ⟨-, hat, -⟩
  · rcases hC with ⟨hnone, hempty⟩ | ⟨st', hst', hat⟩
    · exact absurd (hepoch.trans hempty) (epochs.nonempty _)
    · have hera : st'.era = st.era := epochs.injective (hat.epoch.symm.trans hepoch.symm)
      have hversion := hat.version
      rcases age_le_iff.1 (hnewest st' hst') with hlt | ⟨-, hle⟩ <;> omega
  · refine .inr ⟨st, List.mem_cons_self, hat, fun st' hst' => ?_⟩
    rcases List.mem_cons.1 hst' with rfl | hold
    · exact le_rfl
    · exact hnewest st' hold

/-- An older state is refused in its epoch, and changes the epoch otherwise. -/
theorem UpToDate.of_older (hR : Recorded s) (hU : UpToDate epochs s) (hst : st ∈ s.history)
    (holder : ¬s.Carries st) :
    UpToDate epochs (s.take epochs st) ∨ ((∃ st' ∈ s.carried, st.era < st'.era) ∧
      (s.feed.apply (epochs.snapshot st)).1.epochChanged = true) := by
  obtain ⟨newer, hnewer, hlt⟩ := not_carries holder
  rcases hU with hnone | ⟨current, hcurrent, hat, hcarries⟩
  · exact absurd hnewer (hnone ▸ List.not_mem_nil)
  have hage : st.age < current.age := hlt.trans_le (hcarries newer hnewer)
  rcases age_lt_iff.1 hage with hera | ⟨hera, hversion⟩
  · refine .inr ⟨⟨current, hcurrent, hera⟩, ?_⟩
    have hne : epochs.name st.era ≠ s.feed.epoch := fun heq =>
      absurd (epochs.injective (heq.trans hat.epoch)) (ne_of_lt hera)
    rcases apply_state epochs (hR.positive st hst) with ⟨heq, -⟩ | ⟨-, -, heq⟩
    · exact absurd heq hne
    · rw [heq]
      simp only [hne, ne_eq, not_false_eq_true, decide_true, Bool.true_and, decide_eq_true_eq]
      exact fun hempty => epochs.nonempty _ (hat.epoch.symm.trans hempty)
  · refine .inl (.inr ⟨current, List.mem_cons_of_mem _ hcurrent, ?_, fun st' hst' => ?_⟩)
    · have hsame : epochs.name st.era = s.feed.epoch := by rw [hera, hat.epoch]
      rcases apply_state epochs (hR.positive st hst) with ⟨-, -, heq⟩ | ⟨hle, -⟩
      · have hfeed : (s.take epochs st).feed = s.feed := congrArg Prod.snd heq
        rwa [hfeed]
      · have := hle hsame
        have := hat.version
        omega
    · rcases List.mem_cons.1 hst' with rfl | hold
      · exact hage.le
      · exact hcarries st' hold

/-- Another call than the one that goes on is pending. -/
theorem Pending.other (hP : Pending s ks) (hi : ks[i]? = some (req, k)) (howes : k ≠ .owes)
    (hholds : ∀ st, k = .holds st → ¬s.Carries st) {r : Request × Call}
    (hcarries : ∀ st, s.Carries st → s'.Carries st) : Pending s' (ks.set i r) := by
  obtain ⟨other, hmem, hother⟩ := hP
  refine ⟨other, mem_set_of_ne hi hmem fun heq => ?_, ?_⟩
  · subst heq
    rcases hother with hothers | ⟨st, hst, hcarries⟩
    · exact howes hothers
    · exact hholds st hst hcarries
  · exact hother.imp id fun ⟨st, hst, hold⟩ => ⟨st, hst, hcarries st hold⟩

theorem carries_take (holder : ¬s.Carries st) (st' : State) (h : s.Carries st') :
    (s.take epochs st).Carries st' := by
  obtain ⟨newer, hnewer, hlt⟩ := not_carries holder
  intro other hother
  rcases List.mem_cons.1 hother with rfl | hold
  · exact (hlt.trans_le (h newer hnewer)).le
  · exact h other hold

end World

/-! ### Every run -/

/-- A call applies what it has in hand, and reads once it owes a read. -/
def protocol : Protocol Call.after where
  allowed k op :=
    match op with
    | .deliver _ => k = .idle
    | .bootRead => k = .idle ∨ k = .owes
    | .apply st => k = .delivered st
    | .applyAuthoritative st => k = .holds st
    | _ => True
  answers _ _ r := r.isSome = true

/-- What holds whatever the order of the steps. -/
structure Steady (epochs : Epochs) (s : World) (ks : List (Request × Call)) : Prop where
  recorded : Recorded s
  current : Current epochs s
  inHand : InHand s ks

/-- The gate has the newest carried state, or a call that brings it is under way. -/
structure Converging (epochs : Epochs) (s : World) (ks : List (Request × Call)) : Prop
    extends Steady epochs s ks where
  newest : UpToDate epochs s ∨ Pending s ks

section Steps

variable {s : World} {st : State} {ks : List (Request × Call)} {i : ℕ} {req : Request} {k : Call}
  {op : Op}

theorem InHand.set {s' : World} {k' : Call} (hH : InHand s ks)
    (hhistory : ∀ st ∈ s.history, st ∈ s'.history)
    (hnew : ∀ st, k' = .delivered st ∨ k' = .holds st → st ∈ s'.history) :
    InHand s' (ks.set i (req, k')) := fun r hr st hst => by
  rcases List.mem_or_eq_of_mem_set hr with hold | rfl
  · exact hhistory st (hH r hold st hst)
  · exact hnew st hst

/-- Settings has a newer state. -/
theorem Recorded.newer (hR : Recorded s) (hnew : s.newest.age < st.age) (hpos : 0 < st.version) :
    Recorded { s with newest := st, past := s.history } where
  sorted := List.pairwise_cons.2 ⟨fun st' hst' => (hR.age_le hst').trans_lt hnew, hR.sorted⟩
  positive st' hst' := by
    rcases List.mem_cons.1 hst' with rfl | hold
    · exact hpos
    · exact hR.positive st' hold
  carried st' hst' := List.mem_cons_of_mem _ (hR.carried st' hst')

theorem recorded_publish (hR : Recorded s) (flags : ModuleFlags) : Recorded (s.publish flags) := by
  have hpos := hR.positive s.newest List.mem_cons_self
  exact hR.newer (age_lt_iff.2 (.inr ⟨rfl, Int.lt_succ _⟩)) (Int.lt_add_one_of_le hpos.le)

theorem recorded_restore (hR : Recorded s) (version : ℤ) (flags : ModuleFlags) :
    Recorded (s.restore version flags) :=
  hR.newer (age_lt_iff.2 (.inl (Nat.lt_succ_self _))) (Int.one_pos.trans_le (le_max_left _ _))

theorem steady_exec (env : Unit) (hS : Steady epochs s ks) (hi : ks[i]? = some (req, k))
    (hallowed : protocol.allowed k op) :
    Steady epochs (exec epochs env op s).2.2
      (ks.set i (req, k.after op (some (exec epochs env op s).1))) := by
  have hin := fun st hst => hS.inHand (req, k) (List.mem_of_getElem? hi) st hst
  cases op with
  | publish flags =>
    exact ⟨recorded_publish hS.recorded flags, hS.current,
      hS.inHand.set (fun _ h => List.mem_cons_of_mem _ h)
        fun st hst => List.mem_cons_of_mem _ (hin st hst)⟩
  | restore version flags =>
    exact ⟨recorded_restore hS.recorded version flags, hS.current,
      hS.inHand.set (fun _ h => List.mem_cons_of_mem _ h)
        fun st hst => List.mem_cons_of_mem _ (hin st hst)⟩
  | deliver j =>
    refine ⟨hS.recorded, hS.current, hS.inHand.set (fun _ h => h) fun st hst => ?_⟩
    simp only [exec] at hst ⊢
    cases hj : s.history[j]? with
    | none =>
      rw [hj] at hst
      exact hin st hst
    | some delivered =>
      rw [hj] at hst
      rcases hst with heq | heq
      · obtain rfl := Call.delivered.inj heq
        exact List.mem_of_getElem? hj
      · cases heq
  | bootRead =>
    -- the newest state is one that settings had
    refine ⟨hS.recorded, hS.current, hS.inHand.set (fun _ h => h) fun st hst => ?_⟩
    rcases hst with heq | heq
    · cases heq
    · obtain rfl := Call.holds.inj heq
      exact List.mem_cons_self
  | apply st =>
    -- the state applied was in hand
    have hst : st ∈ s.history := hin st (.inl hallowed)
    refine ⟨hS.recorded.take hst, hS.current.take hS.recorded hst,
      hS.inHand.set (fun _ h => h) fun st' hst' => ?_⟩
    simp only [Call.after] at hst'
    split at hst' <;> rcases hst' with heq | heq <;> cases heq
  | applyAuthoritative st =>
    have hst : st ∈ s.history := hin st (.inr hallowed)
    refine ⟨hS.recorded.take hst, hS.current.take hS.recorded hst,
      hS.inHand.set (fun _ h => h) fun st' hst' => ?_⟩
    rcases hst' with heq | heq <;> cases heq

/-- The newest state comes to the gate, or a call stays that brings it. -/
theorem converging_exec (env : Unit) (hC : Converging epochs s ks) (hi : ks[i]? = some (req, k))
    (hallowed : protocol.allowed k op) (hok : InOrder s ks k op) :
    Converging epochs (exec epochs env op s).2.2
      (ks.set i (req, k.after op (some (exec epochs env op s).1))) := by
  refine ⟨steady_exec env hC.toSteady hi hallowed, ?_⟩
  have hin := fun st hst => hC.inHand (req, k) (List.mem_of_getElem? hi) st hst
  cases op with
  | publish flags =>
    change _ ∨ Pending _ (ks.set i (req, k))
    rw [set_self hi]
    exact hC.newest
  | restore version flags =>
    change _ ∨ Pending _ (ks.set i (req, k))
    rw [set_self hi]
    exact hC.newest
  | deliver j =>
    obtain rfl : k = .idle := hallowed
    exact hC.newest.imp id fun hP => hP.other hi (by simp) (fun _ h => by cases h) fun _ h => h
  | bootRead =>
    refine .inr ⟨_, mem_set_self hi, .inr ⟨s.newest, rfl, fun st hst => ?_⟩⟩
    exact hC.recorded.age_le (hC.recorded.carried st hst)
  | apply st =>
    obtain rfl : k = .delivered st := hallowed
    have hst : st ∈ s.history := hin st (.inl rfl)
    by_cases hnewest : s.Carries st
    · exact .inl (UpToDate.of_newest hC.recorded hC.current hst hnewest)
    rcases hC.newest with hU | hP
    · rcases hU.of_older hC.recorded hst hnewest with hU' | ⟨-, hchanged⟩
      · exact .inl hU'
      · -- an older epoch took the flags, so the call owes a read
        refine .inr ⟨_, mem_set_self hi, .inl ?_⟩
        simp only [exec, Call.after, hchanged, if_true]
    · -- the call that brings the newest state is another one
      exact .inr (hP.other hi (by simp) (fun _ h => by cases h) (carries_take hnewest))
  | applyAuthoritative st =>
    obtain rfl : k = .holds st := hallowed
    have hst : st ∈ s.history := hin st (.inr rfl)
    by_cases hnewest : s.Carries st
    · exact .inl (UpToDate.of_newest hC.recorded hC.current hst hnewest)
    rcases hC.newest with hU | hP
    · rcases hU.of_older hC.recorded hst hnewest with hU' | ⟨⟨newer, hnewer, hera⟩, -⟩
      · exact .inl hU'
      · -- the condition: no later epoch was carried
        exact absurd (hok newer hnewer) (not_le.2 hera)
    · refine .inr (hP.other hi (by simp) (fun st' h => ?_) (carries_take hnewest))
      obtain rfl := Call.holds.inj h
      exact hnewest

theorem steady_spawn (hS : Steady epochs s ks) : Steady epochs s (ks ++ [(req, .idle)]) :=
  ⟨hS.recorded, hS.current, fun r hr st hst => by
    rcases List.mem_append.1 hr with hold | hnew
    · exact hS.inHand r hold st hst
    · rw [List.mem_singleton.1 hnew] at hst
      rcases hst with heq | heq <;> cases heq⟩

theorem converging_spawn (hC : Converging epochs s ks) :
    Converging epochs s (ks ++ [(req, .idle)]) :=
  ⟨steady_spawn hC.toSteady, hC.newest.imp id fun ⟨r, hr, hpending⟩ =>
    ⟨r, List.mem_append_left _ hr, hpending⟩⟩

theorem obeys_refresh (hk : k = .idle ∨ k = .owes) :
    ModuleFeed.refresh.Obeys protocol (fun _ k => k = .idle) k := by
  refine Task.obeys_call hk (fun hr => Bool.noConfusion hr) fun st _ => ?_
  exact Task.obeys_call rfl (fun hr => Bool.noConfusion hr) fun _ _ => rfl

theorem obeys_program (req : Request) :
    ((workshop epochs).program req).Obeys protocol (fun _ k => k = .idle) .idle := by
  cases req with
  | publish flags => exact Task.obeys_last trivial fun r _ => by cases r <;> rfl
  | restore version flags => exact Task.obeys_last trivial fun r _ => by cases r <;> rfl
  | message j =>
    refine Task.obeys_call rfl (fun hr => Bool.noConfusion hr) fun delivered _ => ?_
    cases delivered with
    | none => exact (rfl : Call.idle = .idle)
    | some st =>
      refine Task.obeys_call rfl (fun hr => Bool.noConfusion hr) fun result _ => ?_
      split
      next hchanged => exact obeys_refresh (.inr (if_pos hchanged))
      next hsame => exact if_neg hsame
  | refresh => exact obeys_refresh (.inl rfl)

/-- Within an epoch no operation takes the version down. -/
theorem version_exec (env : Unit)
    (hsame : (exec epochs env op s).2.2.feed.epoch = s.feed.epoch) :
    s.feed.version ≤ (exec epochs env op s).2.2.feed.version := by
  cases op with
  | apply st => exact Feed.version_apply hsame
  | applyAuthoritative st => exact Feed.version_apply hsame
  | _ => exact le_rfl

end Steps

/-- The flags of the gate are those of the version, which does not go down within an epoch; and if
every read is applied in the order of the epochs, the gate has the flags of the newest state that
was carried once every call has finished. -/
theorem flags_converge (epochs : Epochs) {first : State} (hfirst : 0 < first.version) (gate : Gate)
    {h : List Unit} {c : Crew World Call Request Op Op.Ans}
    (hrun : Run (Crew.Step (workshop epochs) Crew.Free) (start first gate) h c) :
    Current epochs c.shared ∧
    (∀ notes c', Crew.Step (workshop epochs) Crew.Free c notes c' →
      c'.shared.feed.epoch = c.shared.feed.epoch →
        c.shared.feed.version ≤ c'.shared.feed.version) ∧
    (Run (Crew.Step (workshop epochs) InOrder) (start first gate) h c →
      (∀ m ∈ c.members, m.task.isDone = true) → ∀ st ∈ c.shared.carried, c.shared.Carries st →
        c.shared.feed.gate.Has st.flags) := by
  have hstart : Steady epochs (start first gate).shared [] := {
    recorded := ⟨List.pairwise_singleton _ _, fun st hst => List.mem_singleton.1 hst ▸ hfirst,
      fun _ hst => absurd hst List.not_mem_nil⟩
    current := .inl ⟨rfl, rfl⟩
    inHand := fun _ hr => absurd hr List.not_mem_nil }
  have hsteady := (Crew.invariant (fun _ => protocol) (J := fun _ => Steady epochs) hrun hstart
    obeys_program (fun _ _ _ _ hS => steady_spawn hS)
    (fun _ _ _ _ _ _ env _ hS hi hallowed _ => ⟨rfl, steady_exec env hS hi hallowed⟩)
    (fun _ _ _ _ _ _ _ _ _ _ hfallible => Bool.noConfusion hfallible)).1
  refine ⟨hsteady.current, fun notes c' hstep hsame => ?_, fun hordered hdone st hst hnewest => ?_⟩
  · rcases Crew.step_shared hstep with heq | ⟨env, op, heq⟩
    · rw [heq]
    · rw [heq] at hsame ⊢
      exact version_exec env hsame
  · obtain ⟨hconverging, hobeys⟩ := Crew.invariant (fun _ => protocol)
      (J := fun _ => Converging epochs) hordered ⟨hstart, .inl (.inl rfl)⟩ obeys_program
      (fun _ _ _ _ hC => converging_spawn hC)
      (fun _ _ _ _ _ _ env _ hC hi hallowed hok => ⟨rfl, converging_exec env hC hi hallowed hok⟩)
      (fun _ _ _ _ _ _ _ _ _ _ hfallible => Bool.noConfusion hfallible)
    rcases hconverging.newest with hU | ⟨r, hr, hpending⟩
    · rcases hU with hnone | ⟨current, hcurrent, hat, hcarries⟩
      · exact absurd hst (hnone ▸ List.not_mem_nil)
      · have hsame : st = current := hconverging.recorded.eq_of_age
          (hconverging.recorded.carried _ hst) (hconverging.recorded.carried _ hcurrent)
          (le_antisymm (hcarries st hst) (hnewest current hcurrent))
        exact hsame ▸ hat.gate
    · -- a call that is done has nothing in hand
      obtain ⟨m, hm, rfl⟩ := List.mem_map.1 hr
      have hobey := hobeys m hm
      have hidle : m.phase = .idle := by
        cases htask : m.task with
        | done result =>
          rw [htask] at hobey
          exact hobey
        | await op next =>
          have := hdone m hm
          simp [htask, Task.isDone] at this
      simp [hidle] at hpending

/-! ### A restore while a read is under way -/

/-- Epochs named by their length. -/
def plainEpochs : Epochs where
  name era := String.ofList (List.replicate (era + 1) 'e')
  injective := fun era era' h => by
    have hlength := congrArg (fun name => name.toList.length) h
    simpa using hlength
  nonempty := fun era h => by
    have hlength := congrArg (fun name => name.toList.length) h
    simp at hlength

/-- The first state of settings. -/
def enabledFirst : State := ⟨0, 1, [⟨"surveillance", true⟩]⟩

/-- The state that is published after it. -/
def republished : State := ⟨0, 2, [⟨"surveillance", false⟩, ⟨"voice", true⟩]⟩

/-- The state of another epoch, restored from a backup. -/
def restored : State := ⟨1, 1, [⟨"surveillance", false⟩]⟩

/-- Two reads side by side; the second is applied when a newer state of its epoch has come, and is
refused.  Then settings is restored, and its message leads to a third read. -/
def threeReads : List (Turn Unit Request) :=
  [.spawn .refresh, .spawn .refresh, .run 0 (), .run 1 (), .run 0 (),
    .spawn (.publish republished.flags), .run 2 (), .spawn (.message 0), .run 3 (), .run 3 (),
    .run 1 (), .spawn (.restore 1 restored.flags), .run 4 (), .spawn (.message 0)] ++
      List.replicate 4 (.run 5 ())

theorem flags_converge_restored :
    ∃ h c, Run (Crew.Step (workshop plainEpochs) InOrder) (start enabledFirst ∅) h c ∧
      c.shared.carried = [restored, restored, enabledFirst, republished, enabledFirst] ∧
      c.shared.feed.gate.Has restored.flags := by
  have hplay : (Crew.playIf (workshop plainEpochs) InOrder (start enabledFirst ∅) threeReads).map
      (fun r => (r.1.members.all fun m => m.task.isDone, r.1.shared.carried)) =
        some (true, [restored, restored, enabledFirst, republished, enabledFirst]) := by
    decide +kernel
  obtain ⟨⟨c, h⟩, hplayed, hends⟩ := Option.map_eq_some_iff.1 hplay
  simp only [Prod.mk.injEq, List.all_eq_true] at hends
  obtain ⟨hdone, hcarried⟩ := hends
  have hrun : Run (Crew.Step (workshop plainEpochs) InOrder) (start enabledFirst ∅) h c :=
    Crew.run_of_playIf hplayed .start
  refine ⟨h, c, hrun, hcarried,
    (flags_converge plainEpochs (by decide) ∅ (Crew.run_free hrun)).2.2 hrun hdone restored ?_ ?_⟩
  · rw [hcarried]
    simp
  · rw [World.Carries, hcarried]
    simp [age_le_iff, enabledFirst, republished, restored]

/-- The service has subscribed late and reads once more; settings is restored before the answer is
applied, and the message of the new epoch has come and was read after.  The old answer looks like a
new epoch, and nothing is read after it. -/
theorem stale_read_stays :
    ∃ h c, Run (Crew.Step (workshop plainEpochs) Crew.Free) (start enabledFirst ∅) h c ∧
      (∀ m ∈ c.members, m.task.isDone = true) ∧ ∃ st ∈ c.shared.carried, c.shared.Carries st ∧
        ¬c.shared.feed.gate.Has st.flags := by
  have hplay : (Crew.play (workshop plainEpochs) (start enabledFirst ∅)
      ([Turn.spawn .refresh, Turn.run 0 (), Turn.run 0 (), Turn.spawn .refresh, Turn.run 1 (),
        Turn.spawn (.restore 1 restored.flags), Turn.run 2 (), Turn.spawn (.message 0)] ++
        List.replicate 4 (Turn.run 3 ()) ++ [Turn.run 1 ()])).map
          (fun r => (r.1.members.all fun m => m.task.isDone, r.1.shared.carried,
            r.1.shared.feed.gate.lookup "surveillance")) =
      some (true, [enabledFirst, restored, restored, enabledFirst], some ⟨"surveillance", true⟩) := by
    decide +kernel
  obtain ⟨⟨c, h⟩, hrun, hends⟩ := Option.map_eq_some_iff.1 hplay
  simp only [Prod.mk.injEq, List.all_eq_true] at hends
  obtain ⟨hdone, hcarried, hgate⟩ := hends
  refine ⟨h, c, Crew.run_of_play hrun .start, hdone, restored, ?_, ?_, fun hhas => ?_⟩
  · rw [hcarried]
    simp
  · rw [World.Carries, hcarried]
    simp [age_le_iff, restored, enabledFirst]
  · have := hhas "surveillance" ⟨"surveillance", false⟩ rfl
    rw [hgate] at this
    simp at this

end Modules

end ArgusBackend
