import ArgusBackend.Library.Chronicles
import ArgusBackend.Tamper.Loops

/-!
# Tamper alarms are neither swallowed nor repeated

* `Sweep.marks` : who marks an onset as notified;
* `Held` : the invariant of an onset whose alarm was accepted;
* `alarms_kept` : with no group displaced and no due onset quieted, every sweep attempts what is
  due and repeats nothing.
-/

namespace ArgusBackend

namespace Tamper

open Maintenance (UserRole MaintenanceWindow)

/-- The camera goes on tampering, as far as the sweep sees: no mask is on it, and no fresh reading
of it says otherwise. -/
def Look.KeepsIndicating (look : Look) (cameraId : ℤ) : Prop :=
  cameraId ∉ look.maskedCameras ∧ look.cameraMasked cameraId = false ∧
    ∀ reading ∈ look.fresh, reading.cameraId = cameraId → Look.followed reading = true

/-- The id of a group's alarm. -/
def TamperGroup.eventId (group : TamperGroup) : EventId :=
  .group group.environmentId group.fingerprint

namespace Sweep

/-- `raiseTamper` was asked for the event, and answered this. -/
inductive Raised (n : Sweep) : EventId → Bool → Prop
  | group {group : TamperGroup} {accepted : Bool} :
      (group, GroupOutcome.raised accepted) ∈ n.groups → Raised n group.eventId accepted
  | camera {entry : Tampering} {accepted : Bool} :
      (entry, CameraOutcome.raised accepted) ∈ n.cameras →
        Raised n (.camera entry.reading.cameraId entry.onset) accepted

variable (n : Sweep)

/-- An alarm for the onset was accepted: the camera's own, or that of a group holding it. -/
def Alarmed (cameraId onset : ℤ) : Prop :=
  n.Raised (.camera cameraId onset) true ∨
    ∃ group, (group, GroupOutcome.raised true) ∈ n.groups ∧ cameraId ∈ group.cameraIds ∧
      ∃ entry ∈ n.tampering, entry.reading.cameraId = cameraId ∧ entry.onset = onset

/-- A camera is in a group of the sweep. -/
def InGroup (cameraId : ℤ) : Prop := ∃ g ∈ n.groups, cameraId ∈ g.1.cameraIds

/-- What the sweep knows of a reading. -/
def entry (reading : TamperReading) : Tampering :=
  n.look.tamperingOf reading (readStamp n.observed.onset reading.cameraId)

/-- The camera's alarm is due at the sweep. -/
structure Due (reading : TamperReading) : Prop where
  fresh : reading ∈ n.look.fresh
  unmasked : n.look.cameraMasked reading.cameraId = false
  uncovered : ∀ window ∈ n.look.windows, window.duress = false →
    covers window reading.cameraId = false
  ungrouped : ¬n.InGroup reading.cameraId
  alarm : (n.look.window (n.entry reading)).action = .alarm
  elapsed : (n.look.window (n.entry reading)).afterS ≤ n.look.now - (n.entry reading).onset
  unasked : n.look.standingAsk (n.entry reading) ≠ some .pending ∧
    n.look.standingAsk (n.entry reading) ≠ some .me

/-- A maintenance window covered the onset, or a lens notice was settled for it. -/
def Quieted (cameraId onset : ℤ) : Prop :=
  ∃ entry ∈ n.tampering, entry.reading.cameraId = cameraId ∧ entry.onset = onset ∧
    ¬n.InGroup cameraId ∧ (n.look.window entry).action ≠ .ignore ∧
      (entry.maintained = true ∨ (n.look.window entry).action = .lensNotice ∧
        (n.look.window entry).afterS ≤ n.look.now - onset ∧
          ((n.look.performEffect cameraId onset).accepted = true ∨
            (n.look.performEffect cameraId onset).resumable = false))

end Sweep

/-- The onset of a camera was alarmed in a sweep before. -/
def AlarmAccepted (before : List Sweep) (cameraId onset : ℤ) : Prop :=
  ∃ m ∈ before, m.Alarmed cameraId onset

/-- No event that was accepted before is raised again while its cameras keep indicating. -/
def NotRepeated (before : List Sweep) (n : Sweep) : Prop :=
  ∀ earlier m since event accepted, before = earlier ++ m :: since → m.Raised event true →
    n.Raised event accepted →
      ¬∀ cameraId ∈ event.cameras, ∀ k ∈ since ++ [n], k.look.KeepsIndicating cameraId

/-- Every alarm that is due is attempted, unless one for that onset was accepted before. -/
def NotSwallowed (before : List Sweep) (n : Sweep) : Prop :=
  ∀ reading, n.Due reading →
    (∃ accepted, n.Raised (.camera reading.cameraId (n.entry reading).onset) accepted) ∨
      AlarmAccepted before reading.cameraId (n.entry reading).onset

/-- The group of an environment that was accepted last. -/
def latestGroup (log : List (TamperGroup × GroupOutcome)) (environmentId : ℤ) :
    Option Fingerprint :=
  latestFrom none log environmentId

/-- Every group found again was the last one accepted in its environment. -/
def NoneDisplaced (before : List Sweep) (n : Sweep) : Prop :=
  ∀ first group outcome rest, n.groups = first ++ (group, outcome) :: rest →
    ∀ earlier m since, before = earlier ++ m :: since → m.Raised group.eventId true →
      (∀ cameraId ∈ group.cameraIds, ∀ k ∈ since ++ [n], k.look.KeepsIndicating cameraId) →
        latestGroup (before.flatMap Sweep.groups ++ first) group.environmentId =
          some group.fingerprint

/-- No alarm is due for an onset that was quieted before, unless one was accepted. -/
def NoneQuieted (before : List Sweep) (n : Sweep) : Prop :=
  ∀ reading, n.Due reading → ∀ m ∈ before,
    m.Quieted reading.cameraId (n.entry reading).onset →
      AlarmAccepted before reading.cameraId (n.entry reading).onset

namespace Sweep

variable {look : Look} {keys : Keys} {entry : Tampering} {reading : TamperReading} {c o : ℤ}

/-- The keys when the masked cameras are closed. -/
abbrev closed (look : Look) (keys : Keys) : Keys :=
  look.maskedCameras.foldl Keys.closeTamperForPrivacy keys

/-- The sweep of a look. -/
abbrev of (look : Look) (keys : Keys) : Sweep := (checkTamperSweep look keys).2

/-- The keys after a sweep. -/
abbrev after (look : Look) (keys : Keys) : Keys := (checkTamperSweep look keys).1

/-- What the sweep follows, it has read, and its onset is recorded. -/
theorem of_mem_tampering (h : entry ∈ (of look keys).tampering) :
    entry.reading ∈ look.fresh ∧ look.cameraMasked entry.reading.cameraId = false ∧
      Look.followed entry.reading = true ∧
      entry.onset = look.onsetFrom (closed look keys) entry.reading.cameraId ∧
      entry = look.tamperingOf entry.reading entry.onset ∧
      (of look keys).observed.onset.lookup entry.reading.cameraId = some entry.onset := by
  obtain ⟨⟨reading, b⟩, hmem, hb⟩ := List.mem_filterMap.1 h
  obtain ⟨hother, hfollowed⟩ := outcome_of_reading hmem
  by_cases hread : look.cameraMasked reading.cameraId = false ∧ Look.followed reading = true
  · obtain ⟨hsome, honset, -⟩ := hfollowed hread.1 hread.2
    obtain rfl : look.tamperingOf reading (look.onsetFrom (closed look keys) reading.cameraId) =
        entry := Option.some_inj.1 (hsome.symm.trans hb)
    exact ⟨Pass.mem_of_mem_run hmem, hread.1, hread.2, rfl, rfl, honset⟩
  · rw [hother hread] at hb
    cases hb

/-- A camera is followed once. -/
theorem pairwise_tampering :
    (of look keys).tampering.Pairwise fun e e' => e.reading.cameraId ≠ e'.reading.cameraId := by
  have hseen : (Pass.run look.observe (closed look keys) look.fresh).2.Pairwise
      fun r r' => r.1.cameraId ≠ r'.1.cameraId := by
    have hfresh := @pairwise_fresh look
    rw [← @Pass.map_fst_run _ _ _ look.observe (closed look keys) look.fresh] at hfresh
    rwa [List.pairwise_map] at hfresh
  refine List.pairwise_filterMap.2 (hseen.imp_of_mem fun {a a'} ha ha' hne b hb b' hb' => ?_)
  have hreading : ∀ {a : TamperReading × Option Tampering} {b},
      a ∈ (Pass.run look.observe (closed look keys) look.fresh).2 → a.2 = some b →
        b.reading = a.1 := by
    intro a b ha hb
    obtain ⟨hother, hfollowed⟩ := outcome_of_reading ha
    by_cases hread : look.cameraMasked a.1.cameraId = false ∧ Look.followed a.1 = true
    · rw [(hfollowed hread.1 hread.2).1, Option.some_inj] at hb
      exact hb ▸ rfl
    · rw [hother hread] at hb
      cases hb
  rw [hreading ha hb, hreading ha' hb']
  exact hne

/-- A fresh, unmasked reading that is followed has its entry. -/
theorem entry_mem (hmem : reading ∈ look.fresh)
    (hmask : look.cameraMasked reading.cameraId = false) (hfollowed : Look.followed reading = true) :
    (of look keys).entry reading ∈ (of look keys).tampering := by
  obtain ⟨b, hb⟩ := @Pass.exists_outcome _ _ _ look.observe (closed look keys) _ _ hmem
  obtain ⟨hsome, honset, -⟩ := (outcome_of_reading hb).2 hmask hfollowed
  refine List.mem_filterMap.2 ⟨_, hb, ?_⟩
  rw [hsome]
  exact congrArg (fun onset => some (look.tamperingOf reading onset))
    (readStamp_of_lookup honset).symm

/-- Recording the readings leaves every notified key as it was, or clears it. -/
theorem notified_of_observed
    (h : (of look keys).observed.notified.lookup c = some o) : keys.notified.lookup c = some o :=
  (closed_spec look.maskedCameras keys).2.2.1 c o (observed_spec look.fresh |>.2.2.1 c o h)

/-- The groups that a sweep finds. -/
def found (look : Look) (keys : Keys) : List TamperGroup :=
  groupsOf (Look.refs (of look keys).tampering) look.config.tamper.groupWindowS

/-- The keys after the group alarms. -/
def raisedKeys (look : Look) (keys : Keys) : Keys :=
  (Pass.run (look.raiseGroup (of look keys).tampering) (of look keys).observed
    (found look keys)).1

/-- The cameras of the groups that a sweep finds. -/
def groupedIds (look : Look) (keys : Keys) : List ℤ := (found look keys).flatMap (·.cameraIds)

theorem groups_eq : (of look keys).groups =
    (Pass.run (look.raiseGroup (of look keys).tampering) (of look keys).observed
      (found look keys)).2 := rfl

theorem cameras_eq : (of look keys).cameras =
    (Pass.run (look.alarmCamera (groupedIds look keys)) (raisedKeys look keys)
      (of look keys).tampering).2 := rfl

theorem after_eq : after look keys =
    (Pass.run (look.alarmCamera (groupedIds look keys)) (raisedKeys look keys)
      (of look keys).tampering).1 := rfl

theorem mem_groupedIds : c ∈ groupedIds look keys ↔ (of look keys).InGroup c := by
  have hfst : (of look keys).groups.map Prod.fst = found look keys := by
    rw [groups_eq, Pass.map_fst_run]
  rw [groupedIds, ← hfst]
  simp only [InGroup, List.mem_flatMap, List.mem_map, exists_exists_and_eq_and]

/-- What the group alarms write to the notified key of a camera. -/
theorem notified_raisedKeys (c : ℤ) :
    (raisedKeys look keys).notified.lookup c = (of look keys).observed.notified.lookup c ∨
      ∃ group, (group, GroupOutcome.raised true) ∈ (of look keys).groups ∧
        c ∈ group.cameraIds ∧ ∃ e ∈ (of look keys).tampering, e.reading.cameraId = c ∧
          (raisedKeys look keys).notified.lookup c = some e.onset := by
  rw [groups_eq]
  exact (groups_spec (found look keys)).2.2 c

/-- The turn of a camera in the third loop. -/
theorem turn_of_camera {outcome : CameraOutcome} (h : (entry, outcome) ∈ (of look keys).cameras) :
    ∃ turn : Keys,
      turn.notified.lookup entry.reading.cameraId =
        (raisedKeys look keys).notified.lookup entry.reading.cameraId ∧
      outcome = look.cameraOutcome (groupedIds look keys) turn entry ∧
      (outcome.marks = true →
        (after look keys).notified.lookup entry.reading.cameraId = some entry.onset) := by
  rw [cameras_eq] at h
  rw [after_eq]
  exact outcome_of_camera pairwise_tampering h

/-- What the third loop writes to the notified key of a camera. -/
theorem notified_after (c : ℤ) :
    (after look keys).notified.lookup c = (raisedKeys look keys).notified.lookup c ∨
      ∃ entry outcome, (entry, outcome) ∈ (of look keys).cameras ∧ outcome.marks = true ∧
        entry.reading.cameraId = c ∧
          (after look keys).notified.lookup c = some entry.onset := by
  rw [after_eq, cameras_eq]
  exact (cameras_spec (of look keys).tampering).2.2.1 c

/-- What marks an onset: an accepted alarm, a maintenance window or a settled notice. -/
theorem marks_outcome {turn : Keys} {grouped : List ℤ}
    (hmarks : (look.cameraOutcome grouped turn entry).marks = true) :
    look.cameraOutcome grouped turn entry = .raised true ∨
      (¬grouped.contains entry.reading.cameraId = true ∧ (look.window entry).action ≠ .ignore ∧
        (entry.maintained = true ∨ (look.window entry).action = .lensNotice ∧
          (look.window entry).afterS ≤ look.now - entry.onset ∧
            ((look.performEffect entry.reading.cameraId entry.onset).accepted = true ∨
              (look.performEffect entry.reading.cameraId entry.onset).resumable = false))) := by
  unfold Look.cameraOutcome at hmarks ⊢
  by_cases hknown : turn.notified.lookup entry.reading.cameraId = some entry.onset
  · simp only [hknown, if_true, CameraOutcome.marks, Bool.false_eq_true] at hmarks
  by_cases hgrouped : grouped.contains entry.reading.cameraId = true
  · simp only [hknown, hgrouped, if_false, if_true, CameraOutcome.marks, Bool.false_eq_true]
      at hmarks
  by_cases hignore : (look.window entry).action = .ignore
  · simp only [hknown, hgrouped, hignore, if_false, if_true, CameraOutcome.marks,
      Bool.false_eq_true] at hmarks
  by_cases hmaintained : entry.maintained = true
  · exact .inr ⟨hgrouped, hignore, .inl hmaintained⟩
  by_cases hlens : (look.window entry).action = .lensNotice
  · by_cases hearly : look.now - entry.onset < (look.window entry).afterS
    · simp only [hknown, hgrouped, hmaintained, hlens, hearly, if_false, if_true, reduceCtorEq,
        CameraOutcome.marks, Bool.false_eq_true] at hmarks
    · refine .inr ⟨hgrouped, hignore, .inr ⟨hlens, not_lt.1 hearly, ?_⟩⟩
      simp only [hknown, hgrouped, hmaintained, hlens, hearly, if_false, if_true, reduceCtorEq,
        CameraOutcome.marks, Bool.false_eq_true] at hmarks
      simpa using hmarks
  · simp only [hknown, hgrouped, hignore, hmaintained, hlens, if_false, Bool.false_eq_true]
      at hmarks ⊢
    unfold Look.askOrRaise at hmarks ⊢
    simp only at hmarks ⊢
    split at hmarks
    next => cases hmarks
    next hasked =>
      rw [if_neg hasked]
      split at hmarks
      next => cases hmarks
      next hdue =>
        rw [if_neg hdue]
        exact .inl (congrArg _ hmarks)

/-- Who marks an onset as notified. -/
theorem marks (h : (after look keys).notified.lookup c = some o) :
    keys.notified.lookup c = some o ∨ (of look keys).Alarmed c o ∨
      (of look keys).Quieted c o := by
  rcases @notified_after look keys c with hsame | ⟨entry, outcome, hmem, hmarks, rfl, hvalue⟩
  · have hlast := hsame.symm.trans h
    rcases @notified_raisedKeys look keys c with hobserved | ⟨group, hraised, hin, e, he, hce, hkey⟩
    · exact .inl (notified_of_observed (hobserved.symm.trans hlast))
    · have honset : e.onset = o := Option.some_inj.1 (hkey.symm.trans hlast)
      exact .inr (.inl (.inr ⟨group, hraised, hin, e, he, hce, honset⟩))
  · obtain rfl : entry.onset = o := Option.some_inj.1 (hvalue.symm.trans h)
    refine .inr ?_
    obtain ⟨turn, -, rfl, -⟩ := turn_of_camera hmem
    have hentry : entry ∈ (of look keys).tampering := by
      rw [cameras_eq] at hmem
      exact Pass.mem_of_mem_run hmem
    rcases marks_outcome hmarks with hraised | ⟨hungrouped, hignore, hquiet⟩
    · exact .inl (.inl (.camera (hraised ▸ hmem)))
    · refine .inr ⟨entry, hentry, rfl, rfl, fun hin => hungrouped ?_, hignore, hquiet⟩
      exact List.contains_iff_mem.2 (mem_groupedIds.2 hin)

theorem raised_camera {n : Sweep} {accepted : Bool} (h : n.Raised (.camera c o) accepted) :
    ∃ entry : Tampering, entry.reading.cameraId = c ∧ entry.onset = o ∧
      (entry, CameraOutcome.raised accepted) ∈ n.cameras := by
  generalize hevent : EventId.camera c o = event at h
  cases h with
  | group hmem => cases hevent
  | camera hmem =>
    cases hevent
    exact ⟨_, rfl, rfl, hmem⟩

theorem mem_tampering_of_cameras {outcome : CameraOutcome}
    (h : (entry, outcome) ∈ (of look keys).cameras) : entry ∈ (of look keys).tampering := by
  rw [cameras_eq] at h
  exact Pass.mem_of_mem_run h

/-- The alarms leave the onsets alone. -/
theorem onset_after : (after look keys).onset = (of look keys).observed.onset := by
  rw [after_eq, (cameras_spec (of look keys).tampering).1]
  exact (groups_spec (found look keys)).1

/-- The group keys after a sweep. -/
theorem group_after (env : ℤ) :
    (after look keys).group.lookup env =
      latestFrom (keys.group.lookup env) (of look keys).groups env := by
  rw [after_eq, (cameras_spec (of look keys).tampering).2.1, groups_eq]
  have hkey := (@groups_spec look (of look keys).tampering (of look keys).observed
    (found look keys)).2.1 env
  have hobserved : (of look keys).observed.group = keys.group :=
    (observed_spec look.fresh).1.trans (closed_spec look.maskedCameras keys).1
  rw [hobserved] at hkey
  exact hkey

/-- No onset lies after the clock. -/
theorem onset_le (hbound : ∀ c x, keys.onset.lookup c = some x → x ≤ look.now)
    (h : (after look keys).onset.lookup c = some o) : o ≤ look.now := by
  rw [onset_after] at h
  rcases (@observed_spec look (closed look keys) look.fresh).2.1 c o h with rfl | hclosed
  · exact le_rfl
  · exact hbound c o ((closed_spec look.maskedCameras keys).2.1 c o hclosed)

/-- A due alarm whose onset is not marked is attempted. -/
theorem attempted (hdue : (of look keys).Due reading)
    (hfree : keys.notified.lookup reading.cameraId ≠ some ((of look keys).entry reading).onset) :
    ∃ accepted,
      (of look keys).Raised
        (.camera reading.cameraId ((of look keys).entry reading).onset) accepted := by
  have hfollowed : Look.followed reading = true := by
    have hindicating : indicating reading.status reading.sudden = true :=
      indicating_of_alarm hdue.alarm
    simp [Look.followed, hindicating]
  have hmem : (of look keys).entry reading ∈ (of look keys).tampering :=
    entry_mem hdue.fresh hdue.unmasked hfollowed
  obtain ⟨outcome, hout⟩ : ∃ outcome,
      ((of look keys).entry reading, outcome) ∈ (of look keys).cameras := by
    rw [cameras_eq]
    exact Pass.exists_outcome hmem
  obtain ⟨turn, hturn, houtcome, -⟩ := turn_of_camera hout
  -- its key is what it was before the sweep, or cleared
  have hknown : ¬turn.notified.lookup reading.cameraId =
      some ((of look keys).entry reading).onset := by
    intro h
    rcases @notified_raisedKeys look keys reading.cameraId with hsame | ⟨g, hraised, hin, -⟩
    · exact hfree (notified_of_observed (hsame.symm.trans (hturn.symm.trans h)))
    · exact hdue.ungrouped ⟨_, hraised, hin⟩
  have hgrouped : ¬(groupedIds look keys).contains reading.cameraId = true := fun h =>
    hdue.ungrouped (mem_groupedIds.1 (List.contains_iff_mem.1 h))
  have hmaintained : ((of look keys).entry reading).maintained = false := by
    refine List.any_eq_false.2 fun window hwindow => ?_
    cases hduress : window.duress with
    | true => simp
    | false => simp [hdue.uncovered window hwindow hduress]
  refine ⟨look.raiseTamper (look.cameraRaise ((of look keys).entry reading)), ?_⟩
  have hraised : outcome = .raised (look.raiseTamper (look.cameraRaise
      ((of look keys).entry reading))) := by
    have halarm : (look.window ((of look keys).entry reading)).action = .alarm := hdue.alarm
    have helapsed : ¬look.now - ((of look keys).entry reading).onset <
        (look.window ((of look keys).entry reading)).afterS := not_lt.2 hdue.elapsed
    have hpending : look.standingAsk ((of look keys).entry reading) ≠ some .pending :=
      hdue.unasked.1
    have hme : look.standingAsk ((of look keys).entry reading) ≠ some .me := hdue.unasked.2
    rw [houtcome]
    unfold Look.cameraOutcome
    have hid : ((of look keys).entry reading).reading.cameraId = reading.cameraId := rfl
    simp only [hid, hgrouped, hmaintained, halarm, if_false, reduceCtorEq, Bool.false_eq_true]
    unfold Look.askOrRaise
    simp only [hpending, hme, helapsed, decide_false, Bool.or_self, Bool.and_false,
      Bool.false_eq_true, if_false]
    exact if_neg hknown
  exact .camera (hraised ▸ hout)

end Sweep

/-- An alarm for the onset was accepted: the camera's onset key is still this one and it is marked,
or a later onset took its place. -/
def Held (clock : ℤ) (keys : Keys) (c o : ℤ) : Prop :=
  ∃ x, keys.onset.lookup c = some x ∧ o ≤ x ∧ x ≤ clock ∧
    (x = o → keys.notified.lookup c = some o)

section Held

open Sweep

variable {look : Look} {keys : Keys} {clock c o : ℤ}

/-- The readings of a camera that keeps indicating. -/
theorem Held.observed (hclock : clock ≤ look.now) (hkeeps : look.KeepsIndicating c)
    (h : Held clock keys c o) : Held look.now (of look keys).observed c o := by
  obtain ⟨hunmasked, hmask, hfollowed⟩ := hkeeps
  obtain ⟨x, honset, hle, hbound, hmarked⟩ := h
  obtain ⟨hon, hno⟩ := (closed_spec look.maskedCameras keys).2.2.2 c hunmasked
  by_cases hread : ∃ reading ∈ look.fresh, reading.cameraId = c
  · obtain ⟨reading, hmem, rfl⟩ := hread
    obtain ⟨b, hb⟩ := @Pass.exists_outcome _ _ _ look.observe (closed look keys) _ _ hmem
    obtain ⟨-, hon', hno'⟩ := (outcome_of_reading hb).2 hmask (hfollowed reading hmem rfl)
    have hstamp : readStamp (closed look keys).onset reading.cameraId = x :=
      readStamp_of_lookup (hon.trans honset)
    refine ⟨_, hon', ?_, ?_, fun heq => ?_⟩
    · unfold Look.onsetFrom
      split <;> omega
    · unfold Look.onsetFrom
      split <;> omega
    · refine hno'.trans (hno.trans (hmarked ?_))
      unfold Look.onsetFrom at heq
      split at heq <;> omega
  · obtain ⟨hon', hno'⟩ := (@observed_spec look (closed look keys) look.fresh).2.2.2 c
      fun reading hmem hc => hread ⟨reading, hmem, hc⟩
    exact ⟨x, hon'.trans (hon.trans honset), hle, hbound.trans hclock,
      fun heq => hno'.trans (hno.trans (hmarked heq))⟩

/-- A sweep keeps the mark and does not raise the alarm again. -/
theorem Held.sweep (hclock : clock ≤ look.now) (hkeeps : look.KeepsIndicating c)
    (h : Held clock keys c o) :
    Held look.now (after look keys) c o ∧
      ∀ accepted, ¬(of look keys).Raised (.camera c o) accepted := by
  obtain ⟨x, honset, hle, hbound, hmarked⟩ := h.observed hclock hkeeps
  have hentry : ∀ entry ∈ (of look keys).tampering, entry.reading.cameraId = c →
      entry.onset = x := by
    rintro entry hmem rfl
    obtain ⟨-, -, -, -, -, hstored⟩ := of_mem_tampering hmem
    exact Option.some_inj.1 (hstored.symm.trans honset)
  have hraised : x = o → (raisedKeys look keys).notified.lookup c = some o := by
    intro heq
    rcases @notified_raisedKeys look keys c with hsame | ⟨-, -, -, e, he, hc, hvalue⟩
    · exact hsame.trans (hmarked heq)
    · rw [hvalue, hentry e he hc, heq]
  refine ⟨⟨x, by rw [onset_after]; exact honset, hle, hbound, fun heq => ?_⟩,
    fun accepted hagain => ?_⟩
  · rcases @notified_after look keys c with hsame | ⟨entry, outcome, hmem, -, hc, hvalue⟩
    · exact hsame.trans (hraised heq)
    · rw [hvalue, hentry entry (mem_tampering_of_cameras hmem) hc, heq]
  · obtain ⟨entry, hc, ho, hmem⟩ := raised_camera hagain
    have heq : x = o := (hentry entry (mem_tampering_of_cameras hmem) hc).symm.trans ho
    obtain ⟨turn, hturn, hout, -⟩ := turn_of_camera hmem
    have hknown : turn.notified.lookup entry.reading.cameraId = some entry.onset := by
      rw [hturn, hc, ho]
      exact hraised heq
    unfold Look.cameraOutcome at hout
    simp only [hknown, if_true, reduceCtorEq] at hout

/-- An accepted alarm is held from then on. -/
theorem held_of_raised (hbound : ∀ c x, keys.onset.lookup c = some x → x ≤ look.now)
    (h : (of look keys).Raised (.camera c o) true) : Held look.now (after look keys) c o := by
  obtain ⟨entry, rfl, rfl, hmem⟩ := raised_camera h
  obtain ⟨-, -, -, -, -, hstored⟩ := of_mem_tampering (mem_tampering_of_cameras hmem)
  obtain ⟨turn, -, -, hmarks⟩ := turn_of_camera hmem
  rw [← onset_after] at hstored
  exact ⟨_, hstored, le_rfl, onset_le hbound hstored, fun _ => hmarks rfl⟩

end Held

/-- No key is stored yet. -/
def start (clock : ℤ) : Db := { clock }

/-- What stands after every sweep. -/
structure Kept (h : List Sweep) (db : Db) : Prop where
  bounded : ∀ c x, db.keys.onset.lookup c = some x → x ≤ db.clock
  marked : ∀ c o, db.keys.notified.lookup c = some o →
    ∃ m ∈ h, m.Alarmed c o ∨ m.Quieted c o
  held : ∀ earlier m since c o, h = earlier ++ m :: since → m.Raised (.camera c o) true →
    (∀ k ∈ since, k.look.KeepsIndicating c) → Held db.clock db.keys c o
  latest : ∀ env, db.keys.group.lookup env = latestGroup (h.flatMap Sweep.groups) env

theorem kept_start (clock : ℤ) : Kept [] (start clock) where
  bounded := fun _ _ h => by cases h
  marked := fun _ _ h => by cases h
  held := fun _ _ _ _ _ h => by simp at h
  latest := fun _ => rfl

theorem latestGroup_append (log log' : List (TamperGroup × GroupOutcome)) (env : ℤ) :
    latestGroup (log ++ log') env = latestFrom (latestGroup log env) log' env :=
  List.foldl_append

section Runs

variable {h : List Sweep} {db : Db} {look : Look}

theorem Kept.sweep (hkept : Kept h db) (hclock : db.clock ≤ look.now) :
    Kept (h ++ [Sweep.of look db.keys]) ⟨Sweep.after look db.keys, look.now⟩ := by
  have hbound : ∀ c x, db.keys.onset.lookup c = some x → x ≤ look.now := fun c x hx =>
    (hkept.bounded c x hx).trans hclock
  refine ⟨fun c x hx => Sweep.onset_le hbound hx, fun c o ho => ?_, ?_, fun env => ?_⟩
  · rcases Sweep.marks ho with hbefore | hnow
    · obtain ⟨m, hm, hcause⟩ := hkept.marked c o hbefore
      exact ⟨m, List.mem_append_left _ hm, hcause⟩
    · exact ⟨_, by simp, hnow⟩
  · intro earlier m since c o heq hraised hkeeps
    rcases List.eq_nil_or_concat since with rfl | ⟨since, last, rfl⟩
    · -- the alarm was accepted in this sweep
      obtain ⟨-, hlast⟩ := List.append_inj' heq rfl
      obtain rfl := List.singleton_inj.1 hlast
      exact held_of_raised hbound hraised
    · rw [List.concat_eq_append, ← List.cons_append, ← List.append_assoc] at heq
      obtain ⟨hbefore, hlast⟩ := List.append_inj' heq rfl
      obtain rfl := List.singleton_inj.1 hlast
      rw [List.concat_eq_append] at hkeeps
      have hold := hkept.held earlier m since c o hbefore hraised
        fun k hk => hkeeps k (List.mem_append_left _ hk)
      exact (hold.sweep hclock (hkeeps (Sweep.of look db.keys) (by simp))).1
  · rw [List.flatMap_append, List.flatMap_singleton, latestGroup_append, ← hkept.latest]
    exact Sweep.group_after env

/-- A camera's alarm that was accepted is not raised again while it keeps indicating, nor is a
group's that was not displaced. -/
theorem Kept.not_repeated (hkept : Kept h db) (hclock : db.clock ≤ look.now)
    (hdisplaced : NoneDisplaced h (Sweep.of look db.keys)) :
    NotRepeated h (Sweep.of look db.keys) := by
  intro earlier m since event accepted heq hraised hagain hkeeps
  cases hagain with
  | @camera entry accepted hmem =>
    have hcamera := hkeeps entry.reading.cameraId (List.mem_singleton_self _)
    have hold := hkept.held earlier m since _ _ heq hraised
      fun k hk => hcamera k (List.mem_append_left _ hk)
    exact (hold.sweep hclock (hcamera (Sweep.of look db.keys) (by simp))).2 _ (.camera hmem)
  | @group group accepted hmem =>
    obtain ⟨first, rest, hsplit⟩ := List.append_of_mem hmem
    have hlatest := hdisplaced first group _ rest hsplit earlier m since heq hraised hkeeps
    rw [latestGroup_append, ← hkept.latest] at hlatest
    rw [Sweep.groups_eq] at hsplit
    have hother := displaced_of_raised hsplit
    have hobserved : (Sweep.of look db.keys).observed.group = db.keys.group :=
      (observed_spec look.fresh).1.trans (closed_spec look.maskedCameras db.keys).1
    rw [hobserved] at hother
    exact hother hlatest

/-- A due alarm whose onset was not quieted is attempted. -/
theorem Kept.not_swallowed (hkept : Kept h db)
    (hquieted : NoneQuieted h (Sweep.of look db.keys)) :
    NotSwallowed h (Sweep.of look db.keys) := by
  intro reading hdue
  by_cases hmarked : db.keys.notified.lookup reading.cameraId =
      some ((Sweep.of look db.keys).entry reading).onset
  · obtain ⟨m, hm, halarmed | hquiet⟩ := hkept.marked _ _ hmarked
    · exact .inr ⟨m, hm, halarmed⟩
    · exact .inr (hquieted reading hdue m hm hquiet)
  · exact .inl (Sweep.attempted hdue hmarked)

/-- In every run of sweeps in which no group alarm is displaced by another one of its environment,
and no alarm falls due for an onset that a maintenance window or a lens notice marked, every due
alarm is attempted and none that was accepted is raised again. -/
theorem alarms_attempted_once {clock : ℤ} (hrun : Run Step (start clock) h db)
    (hsteps : Chronicle (fun before n => NoneDisplaced before n ∧ NoneQuieted before n) h) :
    Chronicle (fun before n => NotRepeated before n ∧ NotSwallowed before n) h := by
  have hkept : Kept h db ∧
      (Chronicle (fun before n => NoneDisplaced before n ∧ NoneQuieted before n) h →
        Chronicle (fun before n => NotRepeated before n ∧ NotSwallowed before n) h) := by
    refine hrun.invariant (J := fun h db => Kept h db ∧
      (Chronicle (fun before n => NoneDisplaced before n ∧ NoneQuieted before n) h →
        Chronicle (fun before n => NotRepeated before n ∧ NotSwallowed before n) h))
      ⟨kept_start clock, fun _ => Chronicle.nil⟩ ?_
    rintro h db notes ⟨keys', clock'⟩ ⟨hkept, hmet⟩ ⟨look, hclock, rfl, rfl, rfl⟩
    refine ⟨hkept.sweep hclock, fun hall => ?_⟩
    obtain ⟨hbefore, hdisplaced, hquieted⟩ := Chronicle.of_concat hall
    have hnow := And.intro (hkept.not_repeated hclock hdisplaced) (hkept.not_swallowed hquieted)
    exact (hmet hbefore).concat hnow
  exact hkept.2 hsteps

end Runs

section Examples

/-- Sweeps one after the other, with their records. -/
def replay (db : Db) : List Look → Db × List Sweep
  | [] => (db, [])
  | look :: rest =>
    let after := replay ⟨(checkTamperSweep look db.keys).1, look.now⟩ rest
    (after.1, (checkTamperSweep look db.keys).2 :: after.2)

theorem run_replay {db₀ db : Db} {h : List Sweep} {looks : List Look}
    (hrun : Run Step db₀ h db) (hclock : (db.clock :: looks.map (·.now)).Pairwise (· ≤ ·)) :
    Run Step db₀ (h ++ (replay db looks).2) (replay db looks).1 := by
  induction looks generalizing h db with
  | nil => simpa [replay] using hrun
  | cons look looks ih =>
    obtain ⟨hbefore, hafter⟩ := List.pairwise_cons.1 hclock
    have hstep : Step db [(checkTamperSweep look db.keys).2]
        ⟨(checkTamperSweep look db.keys).1, look.now⟩ :=
      ⟨look, hbefore _ (List.mem_cons_self ..), rfl, rfl, rfl⟩
    have hrest := ih (hrun.next hstep) hafter
    rwa [List.append_assoc] at hrest

/-- A household that is away: cameras of one environment, those of `covered` covered. -/
def awayLook (now : ℤ) (ids : List ℤ) (hids : ids.Pairwise (· < ·)) (covered : List ℤ)
    (windows : List MaintenanceWindow) : Look where
  now
  health := ids.map fun cameraId =>
    { cameraId, status := if covered.contains cameraId then .covered else .other "ok"
      lastSeenMs := now * 1000 }
  ordered := List.pairwise_map.2 hids
  windows
  environmentOf := fun _ => 1
  mode := fun _ => .away

instance (look : Look) (c : ℤ) : Decidable (look.KeepsIndicating c) :=
  inferInstanceAs (Decidable (_ ∧ _ ∧ _))

/-- A declared window over one camera. -/
def declaredWindow (cameraId : ℤ) : MaintenanceWindow :=
  { id := 1, environmentId := 1, cameraIds := [cameraId], declaredBy := 1, declaredRole := .owner
    declaredName := "", source := .app, duress := false, startedAt := 90, endsAt := 110 }

/-- Three cameras are covered, the third within a window, and uncovered again before the window
ends.  It is covered anew later, and its alarm is due fifteen seconds after that. -/
def coveredLooks : List Look :=
  [awayLook 100 [1, 2, 3] (by decide) [1, 2, 3] [declaredWindow 3],
    awayLook 105 [1, 2, 3] (by decide) [1, 2] [declaredWindow 3],
    awayLook 400 [1, 2, 3] (by decide) [1, 2] [], awayLook 500 [1, 2, 3] (by decide) [1, 2, 3] [],
    awayLook 520 [1, 2, 3] (by decide) [1, 2, 3] [], awayLook 525 [1, 2, 3] (by decide) [1, 2, 3] []]

/-- The sweeps over a camera that is covered. -/
def coveredRun : List Sweep := (replay (start 0) coveredLooks).2

/-- The group of the first two cameras. -/
def coveredPair : TamperGroup := ⟨1, [1, 2], 100⟩

/-- An environment that has one group only keeps that group. -/
theorem latestGroup_of_one {log : List (TamperGroup × GroupOutcome)} {group : TamperGroup}
    (hone : ∀ g ∈ log, g.1 = group) (hraised : (group, .raised true) ∈ log) :
    latestGroup log group.environmentId = some group.fingerprint := by
  induction log using List.reverseRecOn with
  | nil => cases hraised
  | append_singleton log g ih =>
    have hlast : g.1 = group := hone g (by simp)
    rw [latestGroup_append]
    simp only [latestFrom, List.foldl_cons, List.foldl_nil, hlast]
    split
    next => rfl
    next hother =>
      rcases List.mem_append.1 hraised with hbefore | hnow
      · exact ih (fun g hg => hone g (List.mem_append_left _ hg)) hbefore
      · obtain rfl := List.mem_singleton.1 hnow
        exact absurd ⟨rfl, trivial⟩ hother

/-- The pair is raised once.  What the window quieted is over when the third camera falls due. -/
theorem alarms_attempted_once_covered :
    Chronicle (fun before n => NotRepeated before n ∧ NotSwallowed before n) coveredRun ∧
      coveredRun.map (fun n => n.groups.map (·.2)) =
        [[.raised true], [.known], [.known], [.known], [.known], [.known]] ∧
      coveredRun.map (fun n => (n.cameras.filter (·.1.reading.cameraId = 3)).map (·.2)) =
        [[.maintained], [], [], [.waiting], [.raised true], [.known]] := by
  refine ⟨alarms_attempted_once (@run_replay _ _ [] coveredLooks .start (by decide) :
    Run Step (start 0) coveredRun _) ?_, by decide +kernel, by decide +kernel⟩
  have hpair : ∀ n ∈ coveredRun, ∀ g ∈ n.groups, g.1 = coveredPair := by decide +kernel
  have hquiet : ∀ n ∈ coveredRun, ∀ entry ∈ n.tampering, (entry.maintained = true ∨
      (n.look.window entry).action = .lensNotice) →
        entry.reading.cameraId = 3 ∧ entry.onset = 100 := by decide +kernel
  have hover : ∀ n ∈ coveredRun, ∀ reading ∈ n.look.fresh, reading.cameraId = 3 →
      (n.entry reading).onset = 100 → ∃ window ∈ n.look.windows, window.duress = false ∧
        covers window 3 = true := by decide +kernel
  rintro before n after heq
  have hbefore : ∀ m ∈ before, m ∈ coveredRun := fun m hm => heq ▸ List.mem_append_left _ hm
  have hn : n ∈ coveredRun := heq ▸ by simp
  refine ⟨fun first group outcome rest hsplit earlier m since hm hraised _ => ?_,
    fun reading hdue m hm hquieted => ?_⟩
  · -- all groups of the run are the pair
    obtain rfl : group = coveredPair := hpair n hn (group, outcome) (by rw [hsplit]; simp)
    have hmem : m ∈ before := hm ▸ by simp
    refine latestGroup_of_one (fun g hg => ?_) (List.mem_append_left _ ?_)
    · rcases List.mem_append.1 hg with hold | hnow
      · obtain ⟨k, hk, hg⟩ := List.mem_flatMap.1 hold
        exact hpair k (hbefore k hk) g hg
      · exact hpair n hn g (by rw [hsplit]; exact List.mem_append_left _ hnow)
    · generalize hevent : coveredPair.eventId = event at hraised
      cases hraised with
      | camera => cases hevent
      | @group raised accepted hgroup =>
        obtain rfl := hpair m (hbefore m hmem) _ hgroup
        exact List.mem_flatMap.2 ⟨m, hmem, hgroup⟩
  · -- the onset that was quieted is that of the window, which covers the camera as long as it lasts
    obtain ⟨entry, hentry, hcamera, honset, -, -, hcause⟩ := hquieted
    obtain ⟨hthird, hfirst⟩ := hquiet m (hbefore m hm) entry hentry (hcause.imp id And.left)
    have hreading : reading.cameraId = 3 := hcamera.symm.trans hthird
    obtain ⟨window, hwindow, hduress, hcovers⟩ :=
      hover n hn reading hdue.fresh hreading (honset.symm.trans hfirst)
    have hfree := hdue.uncovered window hwindow hduress
    rw [hreading, hcovers] at hfree
    cases hfree

/-- Two cameras are covered, and later two others of the same environment. -/
def twoGroupsLooks : List Look :=
  [awayLook 100 [1, 2, 3, 4] (by decide) [1, 2] [],
    awayLook 200 [1, 2, 3, 4] (by decide) [1, 2, 3, 4] [],
    awayLook 205 [1, 2, 3, 4] (by decide) [1, 2, 3, 4] []]

/-- The sweeps over two groups of one environment. -/
def twoGroupsRun : List Sweep := (replay (start 0) twoGroupsLooks).2

/-- The second group takes the key of the environment, and the first one is raised again. -/
theorem group_alarm_repeated :
    ¬∀ (clock : ℤ) (h : List Sweep) (db : Db), Run Step (start clock) h db →
      Chronicle (fun before n => NotRepeated before n ∧ NotSwallowed before n) h := by
  intro hall
  have hmet := hall 0 twoGroupsRun _ (@run_replay _ _ [] twoGroupsLooks .start (by decide))
  let pair : TamperGroup := ⟨1, [1, 2], 100⟩
  refine (hmet [_, _] _ [] rfl).1 [] _ [_] pair.eventId true rfl (@Sweep.Raised.group _ pair _ ?_)
    (@Sweep.Raised.group _ pair _ ?_) ?_
  · decide
  · decide
  · decide

/-- The camera is covered within the window, and stays covered after it. -/
def endedWindowLooks : List Look :=
  [awayLook 100 [1] (by decide) [1] [declaredWindow 1], awayLook 120 [1] (by decide) [1] []]

/-- The sweeps over a maintenance that ends. -/
def endedWindowRun : List Sweep := (replay (start 0) endedWindowLooks).2

/-- The window marks the onset, and the alarm that is due after it is never attempted. -/
theorem alarm_swallowed : ¬Chronicle NotSwallowed endedWindowRun := by
  intro hmet
  have hdue : (endedWindowRun.getLast (by decide)).Due { cameraId := 1, status := .covered } :=
    { fresh := by decide
      unmasked := rfl
      uncovered := by decide
      ungrouped := by
        unfold Sweep.InGroup
        decide
      alarm := by decide
      elapsed := by decide
      unasked := by decide }
  have hcalm : ∀ n ∈ endedWindowRun, n.groups = [] ∧
      ∀ camera ∈ n.cameras, camera.2 = .maintained ∨ camera.2 = .known := by decide
  have hnone : ∀ n ∈ endedWindowRun, ∀ c o accepted, ¬n.Raised (.camera c o) accepted := by
    intro n hn c o accepted hraised
    obtain ⟨entry, -, -, hmem⟩ := Sweep.raised_camera hraised
    rcases (hcalm n hn).2 _ hmem with h | h <;> cases h
  rcases hmet [_] _ [] rfl _ hdue with ⟨accepted, hraised⟩ | ⟨m, hm, halarmed | ⟨group, hgroup, -⟩⟩
  · exact hnone _ (List.getLast_mem (by decide)) _ _ _ hraised
  · exact hnone m (List.mem_append_left [_] hm) _ _ _ halarmed
  · rw [(hcalm m (List.mem_append_left [_] hm)).1] at hgroup
    cases hgroup

end Examples

end Tamper

end ArgusBackend
