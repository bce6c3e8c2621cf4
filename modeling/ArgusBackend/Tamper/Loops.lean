import ArgusBackend.Tamper.Sweep

/-!
# The loops of the tamper sweep

What each loop does to the stored keys: its item's spec lemma first, then the whole pass.

* `observed_spec`, `outcome_of_reading` : the readings and their onsets;
* `groups_spec`, `displaced_of_raised` : the groups and the key of their environment;
* `cameras_spec`, `outcome_of_camera` : the cameras, each at its turn.
-/

namespace ArgusBackend

namespace Tamper

section Keys

variable {keys : Keys} {c c' x : ℤ}

theorem lookup_clear (hne : c' ≠ c) :
    (keys.clear c).onset.lookup c' = keys.onset.lookup c' ∧
      (keys.clear c).notified.lookup c' = keys.notified.lookup c' :=
  ⟨AList.lookup_erase_ne hne, AList.lookup_erase_ne hne⟩

/-- Clearing leaves no stamp that was not there. -/
theorem of_lookup_clear :
    ((keys.clear c).onset.lookup c' = some x → keys.onset.lookup c' = some x) ∧
      ((keys.clear c).notified.lookup c' = some x → keys.notified.lookup c' = some x) := by
  by_cases hc : c' = c
  · subst hc
    simp [Keys.clear, AList.lookup_erase]
  · obtain ⟨honset, hnotified⟩ := @lookup_clear keys _ _ hc
    rw [honset, hnotified]
    exact ⟨id, id⟩

theorem lookup_setNotified :
    (keys.setNotified c x).notified.lookup c' =
      if c' = c then some x else keys.notified.lookup c' := by
  unfold Keys.setNotified
  split
  next h =>
    subst h
    exact AList.lookup_insert _
  next h => exact AList.lookup_insert_ne h

theorem lookup_of_readStamp {key : Table ℤ ℤ} (h : ¬readStamp key c ≤ 0) :
    key.lookup c = some (readStamp key c) := by
  unfold readStamp at h ⊢
  cases hlookup : key.lookup c with
  | none => simp [hlookup] at h
  | some v => rfl

theorem readStamp_of_lookup {key : Table ℤ ℤ} (h : key.lookup c = some x) : readStamp key c = x := by
  simp [readStamp, h]

/-- The keys after the masked cameras are closed. -/
theorem closed_spec (cameras : List ℤ) (keys : Keys) :
    let closed := cameras.foldl Keys.closeTamperForPrivacy keys
    closed.group = keys.group ∧
      (∀ c x, closed.onset.lookup c = some x → keys.onset.lookup c = some x) ∧
      (∀ c x, closed.notified.lookup c = some x → keys.notified.lookup c = some x) ∧
      ∀ c, c ∉ cameras → closed.onset.lookup c = keys.onset.lookup c ∧
        closed.notified.lookup c = keys.notified.lookup c := by
  induction cameras generalizing keys with
  | nil => exact ⟨rfl, fun _ _ => id, fun _ _ => id, fun _ _ => ⟨rfl, rfl⟩⟩
  | cons camera cameras ih =>
    obtain ⟨hgroup, honset, hnotified, hother⟩ := ih (keys.closeTamperForPrivacy camera)
    simp only [List.foldl_cons]
    unfold Keys.closeTamperForPrivacy at hgroup honset hnotified hother ⊢
    split at hgroup
    next h =>
      simp only [h, if_true] at honset hnotified hother ⊢
      exact ⟨hgroup, honset, hnotified, fun c hc => hother c (List.not_mem_of_not_mem_cons hc)⟩
    next h =>
      simp only [h, if_false] at honset hnotified hother ⊢
      refine ⟨hgroup, fun c x hx => of_lookup_clear.1 (honset c x hx),
        fun c x hx => of_lookup_clear.2 (hnotified c x hx), fun c hc => ?_⟩
      obtain ⟨h₁, h₂⟩ := hother c (List.not_mem_of_not_mem_cons hc)
      obtain ⟨h₃, h₄⟩ := @lookup_clear keys _ _ (List.ne_of_not_mem_cons hc)
      exact ⟨h₁.trans h₃, h₂.trans h₄⟩

end Keys

section Readings

variable {look : Look} {keys : Keys} {reading : TamperReading} {c x : ℤ}

/-- The onset that a followed reading has. -/
def Look.onsetFrom (look : Look) (keys : Keys) (c : ℤ) : ℤ :=
  if readStamp keys.onset c ≤ 0 then look.now else readStamp keys.onset c

/-- A followed reading. -/
theorem observe_followed (hmask : look.cameraMasked reading.cameraId = false)
    (hfollowed : Look.followed reading = true) :
    (look.observe keys reading).2 =
        some (look.tamperingOf reading (look.onsetFrom keys reading.cameraId)) ∧
      (look.observe keys reading).1.notified = keys.notified ∧
      (look.observe keys reading).1.group = keys.group ∧
      ∀ c, (look.observe keys reading).1.onset.lookup c =
        if c = reading.cameraId then some (look.onsetFrom keys reading.cameraId)
        else keys.onset.lookup c := by
  unfold Look.observe Look.onsetFrom
  simp only [hmask, hfollowed, Bool.false_eq_true, Bool.not_true, if_false]
  split
  next h =>
    refine ⟨rfl, rfl, rfl, fun c => ?_⟩
    split
    next hc => rw [hc, AList.lookup_insert]
    next hc => rw [AList.lookup_insert_ne hc]
  next h =>
    refine ⟨rfl, rfl, rfl, fun c => ?_⟩
    split
    next hc => rw [hc, lookup_of_readStamp h]
    next hc => rfl

/-- Any other reading at most clears the keys of its camera. -/
theorem observe_other
    (h : ¬(look.cameraMasked reading.cameraId = false ∧ Look.followed reading = true)) :
    (look.observe keys reading).2 = none ∧
      ((look.observe keys reading).1 = keys ∨
        (look.observe keys reading).1 = keys.clear reading.cameraId) := by
  by_cases hmask : look.cameraMasked reading.cameraId = true
  · simp [Look.observe, hmask]
  · have hfollowed : Look.followed reading = false := by
      by_contra hfollowed
      exact h ⟨Bool.not_eq_true _ ▸ hmask, Bool.not_eq_false _ ▸ hfollowed⟩
    by_cases hover : readStamp keys.onset reading.cameraId > 0 ∧
        look.now - readStamp keys.lastSeen reading.cameraId ≥ look.config.tamperSustainedS
    · simp [Look.observe, hmask, hfollowed, hover.1, hover.2]
    · simp only [Look.observe, hmask, hfollowed, if_neg hover]
      exact ⟨rfl, .inl rfl⟩

/-- What recording a reading leaves alone. -/
theorem observe_spec :
    (look.observe keys reading).1.group = keys.group ∧
      (∀ c x, (look.observe keys reading).1.onset.lookup c = some x →
        x = look.now ∨ keys.onset.lookup c = some x) ∧
      (∀ c x, (look.observe keys reading).1.notified.lookup c = some x →
        keys.notified.lookup c = some x) ∧
      ∀ c, c ≠ reading.cameraId →
        (look.observe keys reading).1.onset.lookup c = keys.onset.lookup c ∧
          (look.observe keys reading).1.notified.lookup c = keys.notified.lookup c := by
  by_cases h : look.cameraMasked reading.cameraId = false ∧ Look.followed reading = true
  · obtain ⟨-, hnotified, hgroup, honset⟩ := @observe_followed look keys reading h.1 h.2
    refine ⟨hgroup, fun c x hx => ?_, fun c x hx => hnotified ▸ hx, fun c hc => ?_⟩
    · rw [honset] at hx
      split at hx
      next hc =>
        unfold Look.onsetFrom at hx
        split at hx
        next => exact .inl (Option.some_inj.1 hx).symm
        next hpos =>
          subst hc
          exact .inr ((lookup_of_readStamp hpos).trans hx)
      next => exact .inr hx
    · rw [honset, if_neg hc, hnotified]
      exact ⟨rfl, rfl⟩
  · obtain ⟨-, heq | heq⟩ := @observe_other look keys reading h
    · rw [heq]
      exact ⟨rfl, fun _ _ => .inr, fun _ _ => id, fun _ _ => ⟨rfl, rfl⟩⟩
    · rw [heq]
      exact ⟨rfl, fun _ _ hx => .inr (of_lookup_clear.1 hx), fun _ _ => of_lookup_clear.2,
        fun _ hc => lookup_clear hc⟩

/-- The first loop keeps what its readings leave alone. -/
theorem observed_spec (readings : List TamperReading) :
    (Pass.run look.observe keys readings).1.group = keys.group ∧
      (∀ c x, (Pass.run look.observe keys readings).1.onset.lookup c = some x →
        x = look.now ∨ keys.onset.lookup c = some x) ∧
      (∀ c x, (Pass.run look.observe keys readings).1.notified.lookup c = some x →
        keys.notified.lookup c = some x) ∧
      ∀ c, (∀ reading ∈ readings, reading.cameraId ≠ c) →
        (Pass.run look.observe keys readings).1.onset.lookup c = keys.onset.lookup c ∧
          (Pass.run look.observe keys readings).1.notified.lookup c = keys.notified.lookup c := by
  refine ⟨Pass.run_frame fun s _ _ => observe_spec.1, ?_, ?_, fun c hc => ⟨?_, ?_⟩⟩
  · refine Pass.run_invariant (J := fun s _ => ∀ c x, s.onset.lookup c = some x →
      x = look.now ∨ keys.onset.lookup c = some x) (fun _ _ => .inr) fun (s : Keys) _ a _ hs c x hx => ?_
    rcases observe_spec.2.1 c x hx with hnow | hbefore
    · exact .inl hnow
    · exact hs c x hbefore
  · exact Pass.run_invariant (J := fun s _ => ∀ c x, s.notified.lookup c = some x →
      keys.notified.lookup c = some x) (fun _ _ => id)
      fun (s : Keys) _ a _ hs c x hx => hs c x (observe_spec.2.2.1 c x hx)
  · exact Pass.run_frame (g := fun s : Keys => s.onset.lookup c)
      fun s a ha => (observe_spec.2.2.2 c (hc a ha).symm).1
  · exact Pass.run_frame (g := fun s : Keys => s.notified.lookup c)
      fun s a ha => (observe_spec.2.2.2 c (hc a ha).symm).2

/-- A camera has one reading. -/
theorem pairwise_fresh : look.fresh.Pairwise fun r r' => r.cameraId ≠ r'.cameraId :=
  List.pairwise_map.2 ((look.ordered.imp ne_of_lt).filter _)

theorem others_of_split {before after : List TamperReading}
    (h : look.fresh = before ++ reading :: after) :
    (∀ r ∈ before, r.cameraId ≠ reading.cameraId) ∧
      ∀ r ∈ after, r.cameraId ≠ reading.cameraId := by
  have hpairwise := @pairwise_fresh look
  rw [h, List.pairwise_append, List.pairwise_cons] at hpairwise
  exact ⟨fun r hr => hpairwise.2.2 r hr _ (List.mem_cons_self ..),
    fun r hr => (hpairwise.2.1.1 r hr).symm⟩

/-- What the first loop makes of a reading. -/
theorem outcome_of_reading {b : Option Tampering}
    (hb : (reading, b) ∈ (Pass.run look.observe keys look.fresh).2) :
    (¬(look.cameraMasked reading.cameraId = false ∧ Look.followed reading = true) → b = none) ∧
    (look.cameraMasked reading.cameraId = false → Look.followed reading = true →
      b = some (look.tamperingOf reading (look.onsetFrom keys reading.cameraId)) ∧
        (Pass.run look.observe keys look.fresh).1.onset.lookup reading.cameraId =
          some (look.onsetFrom keys reading.cameraId) ∧
        (Pass.run look.observe keys look.fresh).1.notified.lookup reading.cameraId =
          keys.notified.lookup reading.cameraId) := by
  obtain ⟨before, after, hsplit, hout, -, hlast⟩ := Pass.exists_of_mem_run hb
  obtain ⟨hbefore, hafter⟩ := others_of_split hsplit
  -- the readings before and after are of other cameras
  obtain ⟨-, -, -, hold⟩ := @observed_spec look keys before
  obtain ⟨hon, hno⟩ := hold _ hbefore
  refine ⟨fun h => hout.trans (observe_other h).1, fun hmask hfollowed => ?_⟩
  obtain ⟨hsome, hnotified, -, honset⟩ :=
    @observe_followed look (Pass.run look.observe keys before).1 reading hmask hfollowed
  have hfrom : look.onsetFrom (Pass.run look.observe keys before).1 reading.cameraId =
      look.onsetFrom keys reading.cameraId := by
    unfold Look.onsetFrom readStamp
    rw [hon]
  obtain ⟨-, -, -, hrest⟩ := @observed_spec look
    (look.observe (Pass.run look.observe keys before).1 reading).1 after
  obtain ⟨hon', hno'⟩ := hrest _ hafter
  rw [hlast, hon', hno', honset, hnotified, hno, if_pos rfl, hfrom]
  exact ⟨hout.trans (hfrom ▸ hsome), rfl, rfl⟩

end Readings

section Groups

variable {look : Look} {tampering : List Tampering} {keys : Keys} {group : TamperGroup} {c : ℤ}

/-- The notified keys of members hold the onsets of their cameras. -/
theorem setMembers_spec (cameraIds : List ℤ) (keys : Keys) :
    (Look.setMembers tampering keys cameraIds).onset = keys.onset ∧
      (Look.setMembers tampering keys cameraIds).group = keys.group ∧
      ∀ c, (Look.setMembers tampering keys cameraIds).notified.lookup c = keys.notified.lookup c ∨
        c ∈ cameraIds ∧ ∃ entry ∈ tampering, entry.reading.cameraId = c ∧
          (Look.setMembers tampering keys cameraIds).notified.lookup c = some entry.onset := by
  induction cameraIds generalizing keys with
  | nil => exact ⟨rfl, rfl, fun _ => .inl rfl⟩
  | cons camera cameraIds ih =>
    cases hfind : tampering.find? (·.reading.cameraId = camera) with
    | none =>
      have hcons : Look.setMembers tampering keys (camera :: cameraIds) =
          Look.setMembers tampering keys cameraIds := by
        simp only [Look.setMembers, List.foldl_cons, hfind]
      rw [hcons]
      obtain ⟨honset, hgroup, hnotified⟩ := ih keys
      exact ⟨honset, hgroup, fun c => (hnotified c).imp id fun h => ⟨.tail _ h.1, h.2⟩⟩
    | some member =>
      have hcons : Look.setMembers tampering keys (camera :: cameraIds) =
          Look.setMembers tampering (keys.setNotified camera member.onset) cameraIds := by
        simp only [Look.setMembers, List.foldl_cons, hfind]
      rw [hcons]
      obtain ⟨honset, hgroup, hnotified⟩ := ih (keys.setNotified camera member.onset)
      refine ⟨honset, hgroup, fun c => ?_⟩
      rcases hnotified c with hsame | hmember
      · rw [lookup_setNotified] at hsame
        split at hsame
        next hc =>
          have hcamera : member.reading.cameraId = camera := by
            simpa using List.find?_some hfind
          exact .inr ⟨hc ▸ List.mem_cons_self .., member, List.mem_of_find?_eq_some hfind,
            hcamera.trans hc.symm, hsame⟩
        next => exact .inl hsame
      · exact .inr ⟨.tail _ hmember.1, hmember.2⟩

/-- What the second loop does at one group. -/
theorem raiseGroup_spec :
    (look.raiseGroup tampering keys group).1.onset = keys.onset ∧
      (∀ env, (look.raiseGroup tampering keys group).1.group.lookup env =
        if (look.raiseGroup tampering keys group).2 = .raised true ∧ group.environmentId = env
        then some group.fingerprint else keys.group.lookup env) ∧
      (∀ c, (look.raiseGroup tampering keys group).1.notified.lookup c = keys.notified.lookup c ∨
        (look.raiseGroup tampering keys group).2 = .raised true ∧ c ∈ group.cameraIds ∧
          ∃ entry ∈ tampering, entry.reading.cameraId = c ∧
            (look.raiseGroup tampering keys group).1.notified.lookup c = some entry.onset) ∧
      ∀ accepted, (look.raiseGroup tampering keys group).2 = .raised accepted →
        keys.group.lookup group.environmentId ≠ some group.fingerprint := by
  unfold Look.raiseGroup
  by_cases hkey : keys.group.lookup group.environmentId = some group.fingerprint
  · simp [hkey]
  · cases hfind : tampering.find? (·.reading.cameraId = group.cameraIds.headD 0) with
    | none => simp [hkey]
    | some first =>
      cases haccepted : look.raiseTamper (look.groupRaise first group) with
      | false => simp [hkey, haccepted]
      | true =>
        simp only [hkey, if_false, haccepted, Bool.not_true, Bool.false_eq_true]
        obtain ⟨honset, hgroup, hnotified⟩ := @setMembers_spec tampering group.cameraIds
          { keys with group := keys.group.insert group.environmentId group.fingerprint }
        refine ⟨honset, fun env => ?_, fun c => (hnotified c).imp id fun h => ⟨trivial, h⟩,
          fun _ _ => hkey⟩
        rw [hgroup]
        by_cases henv : group.environmentId = env
        · simp [henv]
        · simp [henv, AList.lookup_insert_ne (Ne.symm henv)]

/-- The key of an environment after the groups of a log: the one accepted last, else the one it
held before. -/
def latestFrom (key : Option Fingerprint) (log : List (TamperGroup × GroupOutcome)) (env : ℤ) :
    Option Fingerprint :=
  log.foldl (fun key g =>
    if g.2 = .raised true ∧ g.1.environmentId = env then some g.1.fingerprint else key) key

/-- The second loop. -/
theorem groups_spec (groups : List TamperGroup) :
    (Pass.run (look.raiseGroup tampering) keys groups).1.onset = keys.onset ∧
      (∀ env, (Pass.run (look.raiseGroup tampering) keys groups).1.group.lookup env =
        latestFrom (keys.group.lookup env)
          (Pass.run (look.raiseGroup tampering) keys groups).2 env) ∧
      ∀ c, (Pass.run (look.raiseGroup tampering) keys groups).1.notified.lookup c =
          keys.notified.lookup c ∨
        ∃ group, (group, GroupOutcome.raised true) ∈
            (Pass.run (look.raiseGroup tampering) keys groups).2 ∧ c ∈ group.cameraIds ∧
          ∃ entry ∈ tampering, entry.reading.cameraId = c ∧
            (Pass.run (look.raiseGroup tampering) keys groups).1.notified.lookup c =
              some entry.onset := by
  refine ⟨Pass.run_frame (g := Keys.onset) fun s _ _ => raiseGroup_spec.1, fun env => ?_,
    fun c => ?_⟩
  · refine Pass.run_invariant (J := fun s log => s.group.lookup env =
      latestFrom (keys.group.lookup env) log env) rfl fun (s : Keys) log a _ hs => ?_
    rw [raiseGroup_spec.2.1, latestFrom, List.foldl_concat]
    exact congrArg (ite _ _) hs
  · refine Pass.run_invariant (J := fun s log => s.notified.lookup c = keys.notified.lookup c ∨
      ∃ group : TamperGroup, (group, GroupOutcome.raised true) ∈ log ∧ c ∈ group.cameraIds ∧
        ∃ entry ∈ tampering, entry.reading.cameraId = c ∧ s.notified.lookup c = some entry.onset)
      (.inl rfl) fun (s : Keys) log a _ hs => ?_
    rcases (@raiseGroup_spec look tampering s a).2.2.1 c with hsame | ⟨hraised, hin, hentry⟩
    · rw [hsame]
      exact hs.imp id fun ⟨group, hmem, hrest⟩ => ⟨group, List.mem_append_left _ hmem, hrest⟩
    · exact .inr ⟨a, by simp [hraised], hin, hentry⟩

/-- A group that is raised is not the one its environment's key holds. -/
theorem displaced_of_raised {groups : List TamperGroup} {accepted : Bool}
    {first rest : List (TamperGroup × GroupOutcome)}
    (h : (Pass.run (look.raiseGroup tampering) keys groups).2 =
      first ++ (group, .raised accepted) :: rest) :
    latestFrom (keys.group.lookup group.environmentId) first group.environmentId ≠
      some group.fingerprint := by
  have hgroups := @Pass.map_fst_run _ _ _ (look.raiseGroup tampering) keys groups
  rw [h, List.map_append, List.map_cons] at hgroups
  rw [← hgroups, Pass.run_append] at h
  obtain ⟨hfirst, hcons⟩ := List.append_inj h (by
    have := congrArg List.length
      (@Pass.map_fst_run _ _ _ (look.raiseGroup tampering) keys (first.map Prod.fst))
    simpa using this)
  obtain ⟨-, hkey, -⟩ := @groups_spec look tampering keys (first.map Prod.fst)
  have hraised := (Prod.mk.inj (List.cons.inj hcons).1).2
  rw [← hfirst, ← hkey]
  exact raiseGroup_spec.2.2.2 accepted hraised

end Groups

section Cameras

variable {look : Look} {grouped : List ℤ} {keys : Keys} {tampering : List Tampering}
  {entry : Tampering} {c : ℤ}

theorem alarmCamera_spec :
    (look.alarmCamera grouped keys entry).1.onset = keys.onset ∧
      (look.alarmCamera grouped keys entry).1.group = keys.group ∧
      ∀ c, (look.alarmCamera grouped keys entry).1.notified.lookup c =
        if (look.alarmCamera grouped keys entry).2.marks = true ∧ c = entry.reading.cameraId
        then some entry.onset else keys.notified.lookup c := by
  unfold Look.alarmCamera
  cases hmarks : (look.cameraOutcome grouped keys entry).marks with
  | false => simp [hmarks]
  | true =>
    simp only [hmarks, if_true, true_and]
    exact ⟨rfl, rfl, fun c => lookup_setNotified⟩

/-- The third loop. -/
theorem cameras_spec (tampering : List Tampering) :
    (Pass.run (look.alarmCamera grouped) keys tampering).1.onset = keys.onset ∧
      (Pass.run (look.alarmCamera grouped) keys tampering).1.group = keys.group ∧
      (∀ c, (Pass.run (look.alarmCamera grouped) keys tampering).1.notified.lookup c =
          keys.notified.lookup c ∨
        ∃ entry outcome, (entry, outcome) ∈
            (Pass.run (look.alarmCamera grouped) keys tampering).2 ∧
          outcome.marks = true ∧ entry.reading.cameraId = c ∧
          (Pass.run (look.alarmCamera grouped) keys tampering).1.notified.lookup c =
            some entry.onset) ∧
      ∀ c, (∀ entry ∈ tampering, entry.reading.cameraId ≠ c) →
        (Pass.run (look.alarmCamera grouped) keys tampering).1.notified.lookup c =
          keys.notified.lookup c := by
  refine ⟨Pass.run_frame (g := Keys.onset) fun s _ _ => alarmCamera_spec.1,
    Pass.run_frame (g := Keys.group) fun s _ _ => alarmCamera_spec.2.1, fun c => ?_,
    fun c hc => ?_⟩
  · refine Pass.run_invariant (J := fun (s : Keys) log =>
      s.notified.lookup c = keys.notified.lookup c ∨
        ∃ (entry : Tampering) (outcome : CameraOutcome), (entry, outcome) ∈ log ∧
          outcome.marks = true ∧ entry.reading.cameraId = c ∧
            s.notified.lookup c = some entry.onset)
      (.inl rfl) fun (s : Keys) log a _ hs => ?_
    rw [(@alarmCamera_spec look grouped s a).2.2]
    split
    next h => exact .inr ⟨a, _, by simp, h.1, h.2.symm, rfl⟩
    next =>
      exact hs.imp id fun ⟨entry, outcome, hmem, hrest⟩ =>
        ⟨entry, outcome, List.mem_append_left _ hmem, hrest⟩
  · refine Pass.run_frame (g := fun s : Keys => s.notified.lookup c) fun s a ha => ?_
    rw [alarmCamera_spec.2.2, if_neg fun h => hc a ha h.2.symm]

/-- A camera has its turn with the key it had when the loop began. -/
theorem outcome_of_camera {outcome : CameraOutcome}
    (hpairwise : tampering.Pairwise fun e e' => e.reading.cameraId ≠ e'.reading.cameraId)
    (h : (entry, outcome) ∈ (Pass.run (look.alarmCamera grouped) keys tampering).2) :
    ∃ turn : Keys,
      turn.notified.lookup entry.reading.cameraId =
        keys.notified.lookup entry.reading.cameraId ∧
      outcome = look.cameraOutcome grouped turn entry ∧
      (outcome.marks = true →
        (Pass.run (look.alarmCamera grouped) keys tampering).1.notified.lookup
          entry.reading.cameraId = some entry.onset) := by
  obtain ⟨before, after, hsplit, hout, -, hlast⟩ := Pass.exists_of_mem_run h
  rw [hsplit, List.pairwise_append, List.pairwise_cons] at hpairwise
  have hbefore := (@cameras_spec look grouped keys before).2.2.2 entry.reading.cameraId
    fun e he => hpairwise.2.2 e he _ (List.mem_cons_self ..)
  refine ⟨_, hbefore, hout, fun hmarks => ?_⟩
  rw [hlast, (@cameras_spec look grouped _ after).2.2.2 entry.reading.cameraId
    fun e he => (hpairwise.2.1.1 e he).symm, alarmCamera_spec.2.2, ← hout,
    if_pos ⟨hmarks, rfl⟩]

end Cameras

end Tamper

end ArgusBackend
