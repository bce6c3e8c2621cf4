import ArgusBackend.Guard.Notifying
import ArgusBackend.Library.Places

/-!
# Notifications of an encounter climb

* `Climbs` : a notification of an encounter has a higher rank than all before, or its command has
  gone out before;
* `Exclusive` : an escalation does not read the encounter while another try may notify of it, and no
  try reads it while an escalation may;
* `notifications_climb` : notifications climb in every run whose readers are exclusive.
-/

namespace ArgusBackend

namespace Guard

open Places

/-- Notifications of one encounter climb, each command counted once. -/
def Climbs (h : List NotificationDispatch) : Prop :=
  Chronicle (fun before d => 0 < d.encounterId →
    (∃ d' ∈ before, d'.encounterId = d.encounterId ∧ d'.commandId = d.commandId) ∨
      ∀ d' ∈ before, d'.encounterId = d.encounterId → d'.rank < d.rank) h

/-- It may be about to notify without the lease, or has and not recorded that. -/
def Stand.escalates (k : Stand) (encounterId : ℤ) : Bool :=
  k.notifies encounterId && !k.holds encounterId

/-- Nobody notifies of the encounter when an escalation reads it, and no escalation when a try does
that has the lease; and what is notified of has an event's id. -/
def Exclusive (_ : ThreadStore) (ks : List (ThreadRequest × ThreadPhase)) (k : ThreadPhase) :
    ThreadOp → Prop
  | .findEncounter encounterId =>
    (k.stand = .late → ∀ r ∈ ks, r.2.stand.notifies encounterId = false) ∧
      (k.stand = .leased encounterId → ∀ r ∈ ks, r.2.stand.escalates encounterId = false)
  | .notified dispatch => dispatch.eventId ≠ ""
  | _ => True

instance (s : ThreadStore) (ks : List (ThreadRequest × ThreadPhase)) (k : ThreadPhase)
    (op : ThreadOp) : Decidable (Exclusive s ks k op) := by
  cases op <;> dsimp only [Exclusive] <;> infer_instance

/-! ### What every run keeps -/

/-- The command has a row, found under its id. -/
def HasRow (s : ThreadStore) (id : String) : Prop :=
  ∃ row, s.guard.outbox.lookup id = some row ∧ row.commandId = id

/-- A notification of the encounter has gone out under this command. -/
def Sent (h : List NotificationDispatch) (encounterId : ℤ) (commandId : String) : Prop :=
  ∃ d ∈ h, d.encounterId = encounterId ∧ d.commandId = commandId

/-- What the encounter's row says of what has gone out: it was opened by a command that did, and
nothing of a higher rank did. -/
structure Tells (h : List NotificationDispatch) (s : ThreadStore) (encounterId : ℤ)
    (encounter : GuardEncounter) : Prop where
  opener : 0 < encounter.notifyCount →
    HasRow s encounter.notifyCommandId ∧ Sent h encounterId encounter.notifyCommandId
  highest : ∀ d ∈ h, d.encounterId = encounterId →
    0 < encounter.notifyCount ∧ d.rank ≤ encounter.notifyHighestRank

/-- The invariant of the outbox rows, the tries and the encounters: what a row says has gone out, and
at most one try at a time may notify of an encounter. -/
structure Upright (h : List NotificationDispatch) (s : ThreadStore)
    (ks : List (ThreadRequest × ThreadPhase)) : Prop where
  rows : ∀ id row, s.guard.outbox.lookup id = some row → row.commandId = id ∧ id ≠ ""
  planned : ∀ r ∈ ks, ∀ id, r.2.commandId = some id → HasRow s id
  single : ∀ e, ks.countP (fun r => r.2.stand.notifies e) ≤ 1
  leases : ∀ e, ks.countP (fun r => r.2.stand.holds e) ≤ if e ∈ s.executing_ then 1 else 0
  announced : ∀ r ∈ ks, ∀ held d, r.2.stand = .announced held d →
    d.eventId ≠ "" ∧ HasRow s d.commandId ∧ d ∈ h
  opener : ∀ e, 0 < e →
    (0 < (s.encounters e).notifyCount ∨ (s.encounters e).notifyCommandId ≠ "") →
    HasRow s (s.encounters e).notifyCommandId ∧ Sent h e (s.encounters e).notifyCommandId
  highest : ∀ d ∈ h, 0 < d.encounterId →
    (0 < (s.encounters d.encounterId).notifyCount ∧
      d.rank ≤ (s.encounters d.encounterId).notifyHighestRank) ∨
    ∃ r ∈ ks, ∃ held, r.2.stand = .announced held d
  reads : ∀ r ∈ ks, ∀ held e encounter, r.2.stand = .read held e encounter → 0 < e →
    Tells h s e encounter
  climbs : Climbs h

section Steps

variable {h : List NotificationDispatch} {s s' : ThreadStore}
  {ks : List (ThreadRequest × ThreadPhase)} {i : ℕ} {req : ThreadRequest} {k k' : ThreadPhase}
  {e : ℤ} {id : String} {env : Outside}

theorem Tells.mono {encounter : GuardEncounter} (hS : Tells h s e encounter)
    (hrows : ∀ id, HasRow s id → HasRow s' id) : Tells h s' e encounter :=
  ⟨fun hcount => ⟨hrows _ (hS.opener hcount).1, (hS.opener hcount).2⟩, hS.highest⟩

/-- How many stand somewhere is the same when one stays where it was. -/
theorem countP_same {p : Stand → Bool} (hi : ks[i]? = some (req, k)) (h : p k'.stand = p k.stand) :
    (ks.set i (req, k')).countP (fun r => p r.2.stand) = ks.countP fun r => p r.2.stand := by
  have hcount := @countP_replace _ _ _ _ (req, k') (fun r => p r.2.stand) hi
  simp only [h] at hcount
  omega

/-- An effect writes the outbox, and the stand is the same. -/
theorem Upright.effect (hU : Upright h s ks) (hi : ks[i]? = some (req, k))
    (hrows : ∀ id row, s'.guard.outbox.lookup id = some row → row.commandId = id ∧ id ≠ "")
    (hmore : ∀ id, HasRow s id → HasRow s' id) (hencounters : s'.encounters = s.encounters)
    (hexecuting : s'.executing_ = s.executing_) (hstand : k'.stand = k.stand)
    (hcommand : ∀ id, k'.commandId = some id → k'.commandId = k.commandId ∨ HasRow s' id) :
    Upright (h ++ []) s' (ks.set i (req, k')) := by
  have hk := List.mem_of_getElem? hi
  -- every stand is one of before
  have hold : ∀ r ∈ ks.set i (req, k'), ∃ r' ∈ ks, r.2.stand = r'.2.stand := by
    intro r hr
    rcases mem_replaced hr with rfl | ⟨j, -, hj⟩
    · exact ⟨_, hk, hstand⟩
    · exact ⟨r, List.mem_of_getElem? hj, rfl⟩
  rw [List.append_nil]
  refine ⟨hrows, fun r hr id hid => ?_, fun e => ?_, fun e => ?_, fun r hr held d hd => ?_,
    fun e hpos hcount => ?_, fun d hd hpos => ?_, fun r hr held e encounter hread hpos => ?_,
    hU.climbs⟩
  · -- the command id is the old one, or its row was just written
    rcases mem_replaced hr with rfl | ⟨j, -, hj⟩
    · rcases hcommand id hid with hsame | hnew
      · exact hmore id (hU.planned _ hk id (hsame ▸ hid))
      · exact hnew
    · exact hmore id (hU.planned r (List.mem_of_getElem? hj) id hid)
  · rw [countP_same (p := fun k => k.notifies e) hi (by rw [hstand])]
    exact hU.single e
  · rw [countP_same (p := fun k => k.holds e) hi (by rw [hstand]), hexecuting]
    exact hU.leases e
  · obtain ⟨r', hr', heq⟩ := hold r hr
    obtain ⟨hnamed, hrow, hmem⟩ := hU.announced r' hr' held d (heq ▸ hd)
    exact ⟨hnamed, hmore _ hrow, hmem⟩
  · rw [hencounters] at hcount ⊢
    obtain ⟨hrow, hsent⟩ := hU.opener e hpos hcount
    exact ⟨hmore _ hrow, hsent⟩
  · rw [hencounters]
    refine (hU.highest d hd hpos).imp_right ?_
    rintro ⟨r, hr, held, hannounced⟩
    rcases eq_or_ne r (req, k) with rfl | hne
    · exact ⟨_, mem_set_self hi, held, hstand.trans hannounced⟩
    · exact ⟨r, mem_set_of_ne hi hr hne, held, hannounced⟩
  · obtain ⟨r', hr', heq⟩ := hold r hr
    exact (hU.reads r' hr' held e encounter (heq ▸ hread) hpos).mono hmore

/-- A try goes elsewhere, and neither waited for a record nor does now. -/
theorem Upright.move (hU : Upright h s ks) (hi : ks[i]? = some (req, k))
    (hguard : s'.guard = s.guard) (hencounters : s'.encounters = s.encounters)
    (hcommand : k'.commandId = k.commandId) (hbefore : ∀ held d, k.stand ≠ .announced held d)
    (hafter : ∀ held d, k'.stand ≠ .announced held d)
    (hsingle : ∀ e, k'.stand.notifies e = true →
      k.stand.notifies e = true ∨ ∀ r ∈ ks, r.2.stand.notifies e = false)
    (hleases : ∀ e, (ks.set i (req, k')).countP (fun r => r.2.stand.holds e) ≤
      if e ∈ s'.executing_ then 1 else 0)
    (hreads : ∀ held e encounter, k'.stand = .read held e encounter → 0 < e →
      Tells h s e encounter) :
    Upright (h ++ []) s' (ks.set i (req, k')) := by
  have hk := List.mem_of_getElem? hi
  have hmore : ∀ id, HasRow s id → HasRow s' id := fun id hrow => by rwa [HasRow, hguard]
  rw [List.append_nil]
  refine ⟨by rw [hguard]; exact hU.rows, fun r hr id hid => ?_, fun e => ?_, hleases,
    fun r hr held d hd => ?_, fun e hpos hcount => ?_, fun d hd hpos => ?_,
    fun r hr held e encounter hread hpos => ?_, hU.climbs⟩
  · rcases mem_replaced hr with rfl | ⟨j, -, hj⟩
    · exact hmore id (hU.planned _ hk id (hcommand ▸ hid))
    · exact hmore id (hU.planned r (List.mem_of_getElem? hj) id hid)
  · -- at most one try may notify: it was this one, or no other may
    have hcount := @countP_replace _ _ _ _ (req, k') (fun r => r.2.stand.notifies e) hi
    have hone := hU.single e
    cases hnew : k'.stand.notifies e with
    | false =>
      simp only [hnew, Bool.false_eq_true, if_false] at hcount
      omega
    | true =>
      rcases hsingle e hnew with hold | hnone
      · simp only [hnew, hold] at hcount
        omega
      · have hzero : ks.countP (fun r => r.2.stand.notifies e) = 0 :=
          List.countP_eq_zero.2 fun r hr => by simp [hnone r hr]
        simp only [hnew, if_true] at hcount
        omega
  · rcases mem_replaced hr with rfl | ⟨j, -, hj⟩
    · exact absurd hd (hafter held d)
    · obtain ⟨hnamed, hrow, hmem⟩ := hU.announced r (List.mem_of_getElem? hj) held d hd
      exact ⟨hnamed, hmore _ hrow, hmem⟩
  · rw [hencounters] at hcount ⊢
    exact ⟨hmore _ (hU.opener e hpos hcount).1, (hU.opener e hpos hcount).2⟩
  · rw [hencounters]
    refine (hU.highest d hd hpos).imp_right ?_
    rintro ⟨r, hr, held, hannounced⟩
    refine ⟨r, mem_set_of_ne hi hr ?_, held, hannounced⟩
    -- the one that waits for its record is another
    rintro rfl
    exact hbefore held d hannounced
  · rcases mem_replaced hr with rfl | ⟨j, -, hj⟩
    · exact (hreads held e encounter hread hpos).mono hmore
    · exact (hU.reads r (List.mem_of_getElem? hj) held e encounter hread hpos).mono hmore

theorem holds_unique {stand : Stand} {e e' : ℤ} (h : stand.holds e = true)
    (h' : stand.holds e' = true) : e = e' := by
  unfold Stand.holds at h h'
  split at h <;> simp_all

/-- A member of the crew waits for no record, unless its event has an id. -/
theorem Upright.still (hU : Upright h s ks) (hi : ks[i]? = some (req, k)) (hclear : k.stand.Clear) :
    ∀ held d, k.stand ≠ .announced held d := fun held d hd =>
  (hU.announced _ (List.mem_of_getElem? hi) held d hd).1 (hclear held d hd)

theorem Upright.acquire (hU : Upright h s ks) (hi : ks[i]? = some (req, k))
    (hearly : k.stand = .early) :
    Upright (h ++ []) { s with executing_ := insert e s.executing_ }
      (ks.set i (req, k.after (.acquireLease e) (some (decide (e ∉ s.executing_))))) := by
  by_cases he : e ∈ s.executing_
  · refine hU.effect hi hU.rows (fun _ hrow => hrow) rfl (Finset.insert_eq_of_mem he) ?_
      fun _ _ => .inl rfl
    simp [ThreadPhase.after, Stand.after, he]
  · set k' := k.after (.acquireLease e) (some (decide (e ∉ s.executing_))) with hk'
    have hleased : k'.stand = .leased e := by simp [hk', ThreadPhase.after, Stand.after, he]
    refine hU.move hi rfl rfl rfl (by simp [hearly]) (by simp [hleased])
      (fun e' hnew => by simp [hleased, Stand.notifies] at hnew) (fun e' => ?_)
      (fun _ _ _ hread => by simp [hleased] at hread)
    have hcount := @countP_replace _ _ _ _ (req, k') (fun r => r.2.stand.holds e') hi
    have hone := hU.leases e'
    have hfree : k.stand.holds e' = false := by rw [hearly]; rfl
    simp only [hfree, Bool.false_eq_true, if_false] at hcount
    by_cases heq : e' = e
    · subst heq
      simp only [he, if_false] at hone
      have hmem : e' ∈ insert e' s.executing_ := Finset.mem_insert_self _ _
      simp only [hmem, if_true]
      split at hcount <;> omega
    · have hother : k'.stand.holds e' = false := by simp [hleased, Stand.holds, Ne.symm heq]
      simp only [hother, Bool.false_eq_true, if_false] at hcount
      have hmem : e' ∈ insert e s.executing_ ↔ e' ∈ s.executing_ := by
        simp [Finset.mem_insert, heq]
      simp only [hmem]
      omega

theorem Upright.release (hU : Upright h s ks) (hi : ks[i]? = some (req, k))
    (hholds : k.stand.holds e = true) (hclear : k.stand.Clear) :
    Upright (h ++ []) { s with executing_ := s.executing_.erase e }
      (ks.set i (req, k.after (.releaseLease e) (some ()))) := by
  set k' := k.after (.releaseLease e) (some ()) with hk'
  have hearly : k'.stand = .early := rfl
  refine hU.move hi rfl rfl rfl (hU.still hi hclear) (by simp [hearly])
    (fun e' hnew => by simp [hearly, Stand.notifies] at hnew) (fun e' => ?_)
    (fun _ _ _ hread => by simp [hearly] at hread)
  have hcount := @countP_replace _ _ _ _ (req, k') (fun r => r.2.stand.holds e') hi
  have hone := hU.leases e'
  have hfree : k'.stand.holds e' = false := by rw [hearly]; rfl
  simp only [hfree, Bool.false_eq_true, if_false] at hcount
  by_cases heq : e' = e
  · subst heq
    simp only [hholds, if_true] at hcount
    split at hone <;> omega
  · have hother : k.stand.holds e' = false := by
      by_contra hheld
      exact heq (holds_unique (by simpa using hheld) hholds)
    simp only [hother, Bool.false_eq_true, if_false] at hcount
    have hmem : e' ∈ s.executing_.erase e ↔ e' ∈ s.executing_ := by
      simp [Finset.mem_erase, heq]
    simp only [hmem]
    omega

theorem Upright.conclude (hU : Upright h s ks) (hi : ks[i]? = some (req, k))
    (hfree : ∀ e, k.stand.holds e = false) (hclear : k.stand.Clear) :
    Upright (h ++ []) s (ks.set i (req, k.after .concludeTry (some ()))) := by
  set k' := k.after .concludeTry (some ()) with hk'
  have hearly : k'.stand = .early := rfl
  refine hU.move hi rfl rfl rfl (hU.still hi hclear) (by simp [hearly])
    (fun e' hnew => by simp [hearly, Stand.notifies] at hnew) (fun e' => ?_)
    (fun _ _ _ hread => by simp [hearly] at hread)
  rw [countP_same (p := fun k => k.holds e') hi (by rw [hfree, hearly]; rfl)]
  exact hU.leases e'

/-- Where nobody notifies, the row says all that has gone out. -/
theorem Upright.tells (hU : Upright h s ks) (hpos : 0 < e)
    (hnone : ∀ r ∈ ks, r.2.stand.notifies e = false) : Tells h s e (s.encounters e) := by
  refine ⟨fun hcount => hU.opener e hpos (.inl hcount), fun d hd heq => ?_⟩
  subst heq
  rcases hU.highest d hd hpos with hrecorded | ⟨r, hr, held, hannounced⟩
  · exact hrecorded
  · have hnotifies : r.2.stand.notifies d.encounterId = true := by
      rw [hannounced]
      simp [Stand.notifies]
    simp [hnone r hr] at hnotifies

/-- A try that has the lease reads the encounter where no escalation notifies of it. -/
theorem Upright.alone (hU : Upright h s ks) (hi : ks[i]? = some (req, k))
    (hleased : k.stand = .leased e) (hok : ∀ r ∈ ks, r.2.stand.escalates e = false) :
    ∀ r ∈ ks, r.2.stand.notifies e = false := by
  intro r hr
  by_contra hnotifies
  have hheld : r.2.stand.holds e = true := by
    have hnot := hok r hr
    simp only [Stand.escalates] at hnot
    simp_all
  obtain ⟨j, hj⟩ := List.mem_iff_getElem?.1 hr
  have hone : ks.countP (fun r => r.2.stand.holds e) ≤ 1 := (hU.leases e).trans (by split <;> omega)
  have hown : k.stand.holds e = true := by
    rw [hleased]
    simp [Stand.holds]
  obtain rfl := eq_of_countP_le_one hone hi hown hj hheld
  obtain rfl : (req, k) = r := Option.some.inj (hi.symm.trans hj)
  simp [hleased, Stand.notifies] at hnotifies

theorem Upright.find (hU : Upright h s ks) (hi : ks[i]? = some (req, k))
    (hstand : k.stand = .early ∨ k.stand = .late ∨ k.stand = .leased e)
    (hok : Exclusive s ks k (.findEncounter e)) :
    Upright (h ++ []) s (ks.set i (req, k.after (.findEncounter e) (some (s.encounters e)))) := by
  set k' := k.after (.findEncounter e) (some (s.encounters e)) with hk'
  have hread : ∀ held, k'.stand = .read held e (s.encounters e) →
      (∀ held d, k.stand ≠ .announced held d) →
      (∀ e, k'.stand.holds e = k.stand.holds e) → (∀ r ∈ ks, r.2.stand.notifies e = false) →
      Upright (h ++ []) s (ks.set i (req, k')) := by
    intro held hread hbefore hholds hnone
    refine hU.move hi rfl rfl rfl hbefore (by simp [hread]) (fun e' hnew => ?_) (fun e' => ?_)
      (fun held' e' encounter heq hpos' => ?_)
    · obtain rfl : e = e' := by simpa [hread, Stand.notifies] using hnew
      exact .inr hnone
    · rw [countP_same (p := fun k => k.holds e') hi (hholds e')]
      exact hU.leases e'
    · rw [hread] at heq
      obtain ⟨-, rfl, rfl⟩ := by simpa using heq
      exact hU.tells hpos' hnone
  rcases hstand with hearly | hlate | hleased
  · refine hU.effect hi hU.rows (fun _ hrow => hrow) rfl rfl ?_ fun _ _ => .inl rfl
    simp [hk', ThreadPhase.after, Stand.after, hearly]
  · refine hread false ?_ (by simp [hlate]) (fun e' => ?_) (hok.1 hlate)
    · simp [hk', ThreadPhase.after, Stand.after, hlate]
    · simp [hk', ThreadPhase.after, Stand.after, hlate, Stand.holds]
  · refine hread true ?_ (by simp [hleased]) (fun e' => ?_) (hU.alone hi hleased (hok.2 hleased))
    · simp [hk', ThreadPhase.after, Stand.after, hleased]
    · simp [hk', ThreadPhase.after, Stand.after, hleased, Stand.holds]

/-- What goes out at an encounter that lets it pass, climbs. -/
theorem Tells.climbs {encounter : GuardEncounter} {d : NotificationDispatch}
    (hS : Tells h s d.encounterId encounter)
    (hpass : encounter.repeats d.rank = false ∨ d.commandId = encounter.notifyCommandId) :
    (∃ d' ∈ h, d'.encounterId = d.encounterId ∧ d'.commandId = d.commandId) ∨
      ∀ d' ∈ h, d'.encounterId = d.encounterId → d'.rank < d.rank := by
  cases hrepeats : encounter.repeats d.rank with
  | true =>
    rcases hpass with hfalse | hown
    · simp [hfalse] at hrepeats
    · simp only [GuardEncounter.repeats, Bool.and_eq_true, decide_eq_true_eq] at hrepeats
      rw [hown]
      exact .inl (hS.opener hrepeats.1).2
  | false =>
    refine .inr fun d' hd' heq => ?_
    obtain ⟨hcount, hrank⟩ := hS.highest d' hd' heq
    simp only [GuardEncounter.repeats, Bool.and_eq_false_iff, decide_eq_false_iff_not] at hrepeats
    omega

theorem Tells.concat {encounter : GuardEncounter} {d : NotificationDispatch}
    (hS : Tells h s e encounter) (hne : d.encounterId ≠ e) : Tells (h ++ [d]) s e encounter := by
  refine ⟨fun hcount => ?_, fun d' hd' heq => ?_⟩
  · obtain ⟨hrow, d', hd', hsent⟩ := hS.opener hcount
    exact ⟨hrow, d', List.mem_append_left _ hd', hsent⟩
  · rcases List.mem_append.1 hd' with hold | hnew
    · exact hS.highest d' hold heq
    · exact absurd heq (List.mem_singleton.1 hnew ▸ hne)

theorem Upright.notified {d : NotificationDispatch} (hU : Upright h s ks)
    (hi : ks[i]? = some (req, k)) (hat : k.stand.At d.encounterId) (hnamed : d.eventId ≠ "")
    (hcommand : k.commandId = some d.commandId) (hpasses : k.stand.Passes d.rank d.commandId) :
    Upright (h ++ [d]) s (ks.set i (req, k.after (.notified d) (some ()))) := by
  set k' := k.after (.notified d) (some ()) with hk'
  have hk := List.mem_of_getElem? hi
  have hsent : ∀ e, 0 < e →
      (0 < (s.encounters e).notifyCount ∨ (s.encounters e).notifyCommandId ≠ "") →
      HasRow s (s.encounters e).notifyCommandId ∧
        Sent (h ++ [d]) e (s.encounters e).notifyCommandId := by
    intro e hpos hopen
    obtain ⟨hrow, d', hd', hsent⟩ := hU.opener e hpos hopen
    exact ⟨hrow, d', List.mem_append_left _ hd', hsent⟩
  have hplanned : ∀ r ∈ ks.set i (req, k'), ∀ id, r.2.commandId = some id → HasRow s id := by
    intro r hr id hid
    rcases mem_replaced hr with rfl | ⟨j, -, hj⟩
    · exact hU.planned _ hk id hid
    · exact hU.planned r (List.mem_of_getElem? hj) id hid
  rcases hat with ⟨hpos, hstand⟩ | ⟨held, encounter, hread⟩
  · -- no encounter, so nothing is said about it
    have hsame : k'.stand = k.stand := by
      rcases hstand with h | h <;> simp [hk', ThreadPhase.after, Stand.after, h]
    have hquiet : Upright (h ++ []) s (ks.set i (req, k')) := hU.effect hi hU.rows
      (fun _ hrow => hrow) rfl rfl hsame fun _ _ => .inl rfl
    rw [List.append_nil] at hquiet
    refine ⟨hU.rows, hplanned, hquiet.single, hquiet.leases, fun r hr held d' hd' => ?_, hsent,
      fun d' hd' hpos' => ?_, fun r hr held e encounter hread hpos' => ?_,
      hU.climbs.concat fun hpos' => absurd hpos' (by omega)⟩
    · obtain ⟨hn, hrow, hmem⟩ := hquiet.announced r hr held d' hd'
      exact ⟨hn, hrow, List.mem_append_left _ hmem⟩
    · rcases List.mem_append.1 hd' with hold | hnew
      · exact hquiet.highest d' hold hpos'
      · rw [List.mem_singleton.1 hnew] at hpos'
        omega
    · exact (hquiet.reads r hr held e encounter hread hpos').concat (by omega)
  · -- an encounter that this try has read: now it waits for its record
    have hannounced : k'.stand = .announced held d := by
      simp [hk', ThreadPhase.after, Stand.after, hread]
    have hnotifies : k.stand.notifies d.encounterId = true := by
      rw [hread]
      simp [Stand.notifies]
    refine ⟨hU.rows, hplanned, fun e => ?_, fun e => ?_, fun r hr held' d' hd' => ?_, hsent,
      fun d' hd' hpos => ?_, fun r hr held' e encounter' hread' hpos => ?_,
      hU.climbs.concat fun hpos => ?_⟩
    · rw [countP_same (p := fun k => k.notifies e) hi (by rw [hannounced, hread]; rfl)]
      exact hU.single e
    · rw [countP_same (p := fun k => k.holds e) hi
        (by rw [hannounced, hread]; cases held <;> rfl)]
      exact hU.leases e
    · rcases mem_replaced hr with rfl | ⟨j, -, hj⟩
      · rw [hannounced] at hd'
        obtain ⟨-, rfl⟩ := by simpa using hd'
        exact ⟨hnamed, hU.planned _ hk _ hcommand, List.mem_append_right _ List.mem_cons_self⟩
      · obtain ⟨hn, hrow, hmem⟩ := hU.announced r (List.mem_of_getElem? hj) held' d' hd'
        exact ⟨hn, hrow, List.mem_append_left _ hmem⟩
    · rcases List.mem_append.1 hd' with hold | hnew
      · refine (hU.highest d' hold hpos).imp_right ?_
        rintro ⟨r, hr, held', hd'⟩
        refine ⟨r, mem_set_of_ne hi hr ?_, held', hd'⟩
        rintro rfl
        simp [hread] at hd'
      · rw [List.mem_singleton.1 hnew]
        exact .inr ⟨_, mem_set_self hi, held, hannounced⟩
    · rcases mem_replaced hr with rfl | ⟨j, hij, hj⟩
      · simp [hannounced] at hread'
      · refine (hU.reads r (List.mem_of_getElem? hj) held' e encounter' hread' hpos).concat ?_
        rintro rfl
        -- another reader of it could notify as well, but only one may
        have hother : r.2.stand.notifies d.encounterId = true := by
          rw [hread']
          simp [Stand.notifies]
        exact hij (eq_of_countP_le_one (hU.single d.encounterId) hj hother hi hnotifies)
    · exact (hU.reads _ hk held d.encounterId encounter hread hpos).climbs
        (hpasses held d.encounterId encounter hread)

/-- What recording a dispatch makes of the encounter. -/
structure Records (d : NotificationDispatch) (encounter encounter' : GuardEncounter) : Prop where
  open_ : 0 < encounter'.notifyCount
  rank : d.rank ≤ encounter'.notifyHighestRank
  highest : encounter.notifyHighestRank ≤ encounter'.notifyHighestRank
  opener : encounter'.notifyCommandId = d.commandId ∨
    (encounter'.notifyCommandId = encounter.notifyCommandId ∧
      (0 < encounter.notifyCount ∨ encounter.notifyCommandId ≠ ""))

section Record

variable {d : NotificationDispatch}

theorem records_encounter :
    Records d (s.encounters d.encounterId)
      ((s.recordEncounterNotification d).encounters d.encounterId) := by
  unfold ThreadStore.recordEncounterNotification
  simp only [Function.update_self]
  refine ⟨Nat.succ_pos _, le_max_left _ _, le_max_right _ _, ?_⟩
  split
  next => exact .inl rfl
  next hne => exact .inr ⟨rfl, .inr hne⟩

theorem recordEncounterNotification_ne (hne : e ≠ d.encounterId) :
    (s.recordEncounterNotification d).encounters e = s.encounters e :=
  Function.update_of_ne hne _ _

theorem recordNotificationDispatch_guard :
    (s.recordNotificationDispatch d).guard = s.guard ∧
      (s.recordNotificationDispatch d).executing_ = s.executing_ := by
  unfold ThreadStore.recordNotificationDispatch ThreadStore.recordEncounterNotification
  split
  · exact ⟨rfl, rfl⟩
  · simp only
    split <;> split <;> exact ⟨rfl, rfl⟩

theorem recordNotificationDispatch_ne (hne : e ≠ d.encounterId ∨ d.encounterId ≤ 0) :
    (s.recordNotificationDispatch d).encounters e = s.encounters e := by
  unfold ThreadStore.recordNotificationDispatch
  split
  next => rfl
  next =>
    simp only
    split
    next hrecorded =>
      have hother : e ≠ d.encounterId := hne.resolve_right (by omega)
      rw [recordEncounterNotification_ne hother]
      split <;> rfl
    next => split <;> rfl

theorem records_dispatch (hnamed : d.eventId ≠ "") (hcommand : d.commandId ≠ "")
    (hpos : 0 < d.encounterId) :
    Records d (s.encounters d.encounterId)
      ((s.recordNotificationDispatch d).encounters d.encounterId) := by
  unfold ThreadStore.recordNotificationDispatch
  rw [if_neg (by simp [hnamed, hcommand])]
  simp only
  split
  next =>
    split
    · exact records_encounter (s := { s with journal := _ })
    · exact records_encounter
  next hnot =>
    -- nothing is recorded where the row says as much already
    have hold : 0 < (s.encounters d.encounterId).notifyCount ∧
        d.rank ≤ (s.encounters d.encounterId).notifyHighestRank := by
      simp only [hpos, decide_true, Bool.true_and, and_true, Bool.or_eq_true, not_or,
        decide_eq_true_eq, not_lt] at hnot
      exact ⟨by omega, hnot.2.2⟩
    split <;> exact ⟨hold.1, hold.2, le_rfl, .inr ⟨rfl, .inl hold.1⟩⟩

end Record

theorem Upright.record {d : NotificationDispatch} (hU : Upright h s ks)
    (hi : ks[i]? = some (req, k)) (hnamed : d.eventId ≠ "")
    (hstand : (∃ held, k.stand = .announced held d) ∨
      (d.encounterId ≤ 0 ∧ (k.stand = .early ∨ k.stand = .late))) :
    Upright (h ++ []) (s.recordNotificationDispatch d)
      (ks.set i (req, k.after (.recordNotificationDispatch d) (some ()))) := by
  set k' := k.after (.recordNotificationDispatch d) (some ()) with hk'
  set s' := s.recordNotificationDispatch d with hs'
  obtain ⟨hguard, hexecuting⟩ := recordNotificationDispatch_guard (s := s) (d := d)
  have hrows : s'.guard.outbox = s.guard.outbox := by rw [hs', hguard]
  have hmore : ∀ id, HasRow s id → HasRow s' id := fun id hrow => by rwa [HasRow, hrows]
  rcases hstand with ⟨held, hannounced⟩ | ⟨hpos, hstand⟩
  · have hk := List.mem_of_getElem? hi
    obtain ⟨-, hrow, hmem⟩ := hU.announced _ hk held d hannounced
    have hcommand : d.commandId ≠ "" := by
      obtain ⟨row, hlookup, -⟩ := hrow
      exact (hU.rows _ _ hlookup).2
    -- the try has done its notifying
    have hafter : (∀ e, k'.stand.notifies e = false) ∧ (∀ e, k'.stand.holds e = k.stand.holds e) ∧
        (∀ held d', k'.stand ≠ .announced held d') ∧
        ∀ held e encounter, k'.stand ≠ .read held e encounter := by
      cases held <;> simp [hk', ThreadPhase.after, Stand.after, hannounced, Stand.notifies, Stand.holds]
    obtain ⟨hquiet, hholds, hunannounced, hunread⟩ := hafter
    rw [List.append_nil]
    refine ⟨by rw [hrows]; exact hU.rows, fun r hr id hid => ?_, fun e => ?_, fun e => ?_,
      fun r hr held' d' hd' => ?_, fun e hpos hopen => ?_, fun d' hd' hpos => ?_,
      fun r hr held' e encounter hread hpos => ?_, hU.climbs⟩
    · rcases mem_replaced hr with rfl | ⟨j, -, hj⟩
      · exact hmore _ (hU.planned _ hk id hid)
      · exact hmore _ (hU.planned r (List.mem_of_getElem? hj) id hid)
    · -- so no try may notify of the encounter
      have hcount := @countP_replace _ _ _ _ (req, k') (fun r => r.2.stand.notifies e) hi
      simp only [hquiet, Bool.false_eq_true, if_false] at hcount
      have hone := hU.single e
      omega
    · rw [countP_same (p := fun k => k.holds e) hi (hholds e), hs', hexecuting]
      exact hU.leases e
    · rcases mem_replaced hr with rfl | ⟨j, -, hj⟩
      · exact absurd hd' (hunannounced held' d')
      · obtain ⟨hn, hrow', hmem'⟩ := hU.announced r (List.mem_of_getElem? hj) held' d' hd'
        exact ⟨hn, hmore _ hrow', hmem'⟩
    · -- the command that opened the thread: this one, or the one it had
      by_cases heq : e = d.encounterId
      · subst heq
        have hrecords := records_dispatch (s := s) hnamed hcommand hpos
        rcases hrecords.opener with hnew | ⟨hsame, hopen'⟩
        · rw [← hs'] at hnew
          rw [hnew]
          exact ⟨hmore _ hrow, d, hmem, rfl, rfl⟩
        · rw [← hs'] at hsame
          rw [hsame]
          obtain ⟨hrow', hsent⟩ := hU.opener _ hpos hopen'
          exact ⟨hmore _ hrow', hsent⟩
      · rw [hs', recordNotificationDispatch_ne (.inl heq)] at hopen ⊢
        obtain ⟨hrow', hsent⟩ := hU.opener e hpos hopen
        exact ⟨hmore _ hrow', hsent⟩
    · -- the highest rank now covers the dispatch recorded
      by_cases heq : d'.encounterId = d.encounterId
      · have hrecords := records_dispatch (s := s) hnamed hcommand (heq ▸ hpos)
        rcases hU.highest d' hd' hpos with ⟨-, hrank⟩ | ⟨r, hr, held', hd''⟩
        · rw [heq] at hrank ⊢
          exact .inl ⟨hrecords.open_, hrank.trans hrecords.highest⟩
        · by_cases hsame : d' = d
          · subst hsame
            exact .inl ⟨hrecords.open_, hrecords.rank⟩
          · refine .inr ⟨r, mem_set_of_ne hi hr ?_, held', hd''⟩
            rintro rfl
            rw [hannounced] at hd''
            obtain ⟨-, rfl⟩ := by simpa using hd''
            exact hsame rfl
      · rw [hs', recordNotificationDispatch_ne (.inl heq)]
        refine (hU.highest d' hd' hpos).imp_right ?_
        rintro ⟨r, hr, held', hd''⟩
        refine ⟨r, mem_set_of_ne hi hr ?_, held', hd''⟩
        rintro rfl
        rw [hannounced] at hd''
        obtain ⟨-, rfl⟩ := by simpa using hd''
        exact heq rfl
    · rcases mem_replaced hr with rfl | ⟨j, -, hj⟩
      · exact absurd hread (hunread held' e encounter)
      · exact (hU.reads r (List.mem_of_getElem? hj) held' e encounter hread hpos).mono hmore
  · refine hU.effect hi (by rw [hrows]; exact hU.rows) hmore ?_ (by rw [hs', hexecuting]) ?_
      fun _ _ => .inl rfl
    · -- without an encounter nothing is recorded
      funext e
      rw [hs', recordNotificationDispatch_ne (.inr hpos)]
    · rcases hstand with h | h <;> simp [hk', ThreadPhase.after, Stand.after, h]

/-- What an effect does to the outbox: nothing, or a row is written under its id. -/
theorem exec_outbox (env : Outside) {g : GuardStore} {op : Op}
    (hrows : ∀ id row, g.outbox.lookup id = some row → row.commandId = id ∧ id ≠ "")
    (hinsert : ∀ id, op = .insertOutbox id → id ≠ "") :
    (exec env op g).2.2.outbox = g.outbox ∨ ∃ id row, row.commandId = id ∧ id ≠ "" ∧
      (exec env op g).2.2.outbox = g.outbox.insert id row := by
  cases op with
  | insertOutbox id =>
    simp only [exec, execNow, GuardStore.insertOutbox, GuardStore.letGo]
    split
    next => exact .inl rfl
    next => exact .inr ⟨id, _, rfl, hinsert id rfl, rfl⟩
  | setOutboxPayload id p =>
    simp only [exec, execNow, GuardStore.setOutboxPayload, GuardStore.letGo]
    split
    next => exact .inl rfl
    next row hrow =>
      split
      · refine .inr ⟨id, _, ?_, (hrows id row hrow).2, rfl⟩
        exact (hrows id row hrow).1
      · exact .inl rfl
  | updateOutbox id result =>
    simp only [exec, execNow, GuardStore.updateOutbox, GuardStore.letGo]
    split
    next => exact .inl rfl
    next row hrow =>
      refine .inr ⟨id, _, ?_, (hrows id row hrow).2, rfl⟩
      exact (hrows id row hrow).1
  | insertAction action =>
    simp only [exec, execNow, GuardStore.insertAction]
    split <;> exact .inl rfl
  | camera id kind =>
    simp only [exec, execNow, taken_outbox]
    exact .inl rfl
  | createNotifications id request =>
    simp only [exec, execNow, taken_outbox]
    exact .inl rfl
  | _ => exact .inl rfl

theorem rows_exec (env : Outside) {g : GuardStore} {op : Op}
    (hrows : ∀ id row, g.outbox.lookup id = some row → row.commandId = id ∧ id ≠ "")
    (hinsert : ∀ id, op = .insertOutbox id → id ≠ "") :
    (∀ id row, (exec env op g).2.2.outbox.lookup id = some row → row.commandId = id ∧ id ≠ "") ∧
      ∀ id row, g.outbox.lookup id = some row →
        ∃ row, (exec env op g).2.2.outbox.lookup id = some row ∧ row.commandId = id := by
  rcases exec_outbox env hrows hinsert with hsame | ⟨id', row', hname, hne, hwritten⟩
  · rw [hsame]
    exact ⟨hrows, fun id row hrow => ⟨row, hrow, (hrows id row hrow).1⟩⟩
  · rw [hwritten]
    refine ⟨fun id row hrow => ?_, fun id row hrow => ?_⟩
    · by_cases heq : id = id'
      · subst heq
        rw [AList.lookup_insert] at hrow
        obtain rfl := Option.some.inj hrow
        exact ⟨hname, hne⟩
      · rw [AList.lookup_insert_ne heq] at hrow
        exact hrows id row hrow
    · by_cases heq : id = id'
      · subst heq
        exact ⟨row', AList.lookup_insert _, hname⟩
      · exact ⟨row, by rwa [AList.lookup_insert_ne heq], (hrows id row hrow).1⟩

theorem letGo_outbox {g : GuardStore} {gone : List String} : (g.letGo gone).outbox = g.outbox := rfl

theorem Upright.guard {op : Op} (hU : Upright h s ks) (hi : ks[i]? = some (req, k))
    (hallowed : threadProtocol.allowed k (.effect op)) :
    Upright (h ++ []) { s with guard := (exec env op s.guard).2.2 }
      (ks.set i (req, k.after (.effect op) (some (exec env op s.guard).1))) := by
  have hinsert : ∀ id, op = .insertOutbox id → id ≠ "" := by
    rintro id rfl
    exact hallowed
  obtain ⟨hrows, hmore⟩ := rows_exec env hU.rows hinsert
  have hgrow : ∀ id, HasRow s id → HasRow { s with guard := (exec env op s.guard).2.2 } id := by
    rintro id ⟨row, hrow, -⟩
    exact hmore id row hrow
  refine hU.effect hi hrows hgrow rfl rfl rfl fun id hid => ?_
  cases op with
  | selectOutbox id' =>
    simp only [ThreadPhase.after, exec, execNow, letGo_outbox] at hid ⊢
    cases hrow : s.guard.outbox.lookup id' with
    | none => exact .inl rfl
    | some row =>
      simp only [hrow, Option.some.injEq] at hid
      refine .inr ⟨row, ?_, hid⟩
      rw [← hid, (hU.rows id' row hrow).1]
      exact hrow
  | selectSibling parts id' =>
    simp only [ThreadPhase.after, exec, execNow] at hid ⊢
    cases hrow : (s.guard.letGo env.gone).sibling parts id' with
    | none => exact .inl rfl
    | some row =>
      simp only [hrow, Option.some.injEq] at hid
      have hfound := sibling_mem hrow fun id row hrow => (hU.rows id row hrow).1
      exact .inr ⟨row, hid ▸ hfound, hid⟩
  | _ => exact .inl rfl

/-- The command that opened the thread which was read is found under its id. -/
theorem Upright.finds (hU : Upright h s ks) (hi : ks[i]? = some (req, k)) {op : ThreadOp} :
    Finds k.stand op (some (threadExec env op s).1) := by
  cases op with
  | effect op =>
    cases op with
    | selectOutbox id =>
      rintro held e encounter hread hpos hcount rfl
      have htells := hU.reads _ (List.mem_of_getElem? hi) held e encounter hread hpos
      exact (htells.opener hcount).1
    | _ => trivial
  | _ => trivial

theorem finds_none {stand : Stand} {op : ThreadOp} : Finds stand op none := by
  cases op with
  | effect op => cases op <;> trivial
  | _ => trivial

theorem Upright.exec {op : ThreadOp} (hU : Upright h s ks) (hi : ks[i]? = some (req, k))
    (hallowed : threadProtocol.allowed k op) (hok : Exclusive s ks k op) :
    Upright (h ++ (threadExec env op s).2.1) (threadExec env op s).2.2
      (ks.set i (req, k.after op (some (threadExec env op s).1))) := by
  cases op with
  | effect op => exact hU.guard hi hallowed
  | acquireLease e => exact hU.acquire hi hallowed
  | releaseLease e => exact hU.release hi hallowed.1 hallowed.2
  | findEncounter e => exact hU.find hi hallowed.2 hok
  | journalDecision eventId =>
    have hsame : (s.journalDecision eventId).guard = s.guard ∧
        (s.journalDecision eventId).encounters = s.encounters ∧
        (s.journalDecision eventId).executing_ = s.executing_ := by
      unfold ThreadStore.journalDecision
      split <;> exact ⟨rfl, rfl, rfl⟩
    obtain ⟨hguard, hencounters, hexecuting⟩ := hsame
    refine hU.effect hi ?_ (fun id hrow => ?_) hencounters hexecuting rfl fun _ _ => .inl rfl
    · simp only [threadExec, hguard]
      exact hU.rows
    · simp only [threadExec, HasRow, hguard]
      exact hrow
  | notified d =>
    obtain ⟨hcommand, hpasses⟩ := hallowed.2 hok
    exact hU.notified hi hallowed.1 hok hcommand hpasses
  | recordNotificationDispatch d => exact hU.record hi hallowed.1 hallowed.2
  | concludeTry => exact hU.conclude hi hallowed.1 hallowed.2

theorem Upright.spawn (hU : Upright h s ks) (hfree : ∀ e, k.stand.notifies e = false)
    (hholds : ∀ e, k.stand.holds e = false) (hcommand : k.commandId = none)
    (hunannounced : ∀ held d, k.stand ≠ .announced held d)
    (hunread : ∀ held e encounter, k.stand ≠ .read held e encounter) :
    Upright h s (ks ++ [(req, k)]) := by
  refine ⟨hU.rows, fun r hr id hid => ?_, fun e => ?_, fun e => ?_, fun r hr held d hd => ?_,
    hU.opener, fun d hd hpos => ?_, fun r hr held e encounter hread hpos => ?_, hU.climbs⟩
  · rcases List.mem_append.1 hr with hold | hnew
    · exact hU.planned r hold id hid
    · rw [List.mem_singleton.1 hnew, hcommand] at hid
      cases hid
  · rw [List.countP_append]
    simp only [List.countP_singleton, hfree, Bool.false_eq_true, if_false, add_zero]
    exact hU.single e
  · rw [List.countP_append]
    simp only [List.countP_singleton, hholds, Bool.false_eq_true, if_false, add_zero]
    exact hU.leases e
  · rcases List.mem_append.1 hr with hold | hnew
    · exact hU.announced r hold held d hd
    · rw [List.mem_singleton.1 hnew] at hd
      exact absurd hd (hunannounced held d)
  · refine (hU.highest d hd hpos).imp_right ?_
    rintro ⟨r, hr, hannounced⟩
    exact ⟨r, List.mem_append_left _ hr, hannounced⟩
  · rcases List.mem_append.1 hr with hold | hnew
    · exact hU.reads r hold held e encounter hread hpos
    · rw [List.mem_singleton.1 hnew] at hread
      exact absurd hread (hunread held e encounter)

end Steps

/-! ### Every run -/

/-- An empty store and no try under way. -/
def threadStart : Crew ThreadStore ThreadPhase ThreadRequest ThreadOp ThreadOp.Ans := ⟨{}, []⟩

theorem upright_start : Upright [] {} [] where
  rows _ _ hrow := nomatch hrow
  planned _ hr := absurd hr List.not_mem_nil
  single _ := Nat.zero_le _
  leases _ := Nat.zero_le _
  announced _ hr := absurd hr List.not_mem_nil
  opener _ _ hopen := by simp at hopen
  highest _ hd := absurd hd List.not_mem_nil
  reads _ hr := absurd hr List.not_mem_nil
  climbs := Chronicle.nil

/-- Notifications of every encounter climb, in every run whose readers are exclusive. -/
theorem notifications_climb (config : GuardConfig) {h : List NotificationDispatch}
    {c : Crew ThreadStore ThreadPhase ThreadRequest ThreadOp ThreadOp.Ans}
    (hrun : Run (Crew.Step (threadWorkshop config) Exclusive) threadStart h c) : Climbs h := by
  refine (Crew.invariant (fun _ => threadProtocol) (J := Upright) hrun upright_start
    obeys_threadProgram ?_ ?_ ?_).1.climbs
  · intro h s ks req hU
    cases req <;> exact hU.spawn (fun _ => rfl) (fun _ => rfl) rfl (by simp [threadWorkshop])
      (by simp [threadWorkshop])
  · intro h s ks i req k env op hU hi hallowed hok
    exact ⟨⟨fun heq => (nomatch heq), hU.finds hi⟩, hU.exec hi hallowed hok⟩
  · intro h s ks i req k op hU hi _ hfallible
    have hsame : (threadWorkshop config).after k op none = k := by
      cases op with
      | effect op => cases op <;> rfl
      | _ => rfl
    rw [hsame, set_self hi]
    exact ⟨⟨fun _ => hfallible, finds_none⟩, hU⟩

/-! ### An escalation and another camera -/

/-- One member of the household, who takes every notification. -/
def household : Outside where
  recipients := .planned [⟨1, .en, false⟩] none
  created := { outcome := .success, created := 1 }

/-- An event of danger high at the front door, in encounter 5. -/
def frontDoor : Observation :=
  { eventId := "a", cameraId := 1, encounterId := 5, danger := .high, now := 0 }

/-- The garden's camera sees a critical danger in the same encounter. -/
def garden : Observation :=
  { eventId := "b", cameraId := 2, encounterId := 5, danger := .critical, now := 0 }

/-- The garden's camera comes while the front door's try has the lease and is turned away; it comes
again and notifies of the higher danger, and an escalation finds that danger announced. -/
theorem notifications_climb_twice :
    ∃ h c, Run (Crew.Step (threadWorkshop {}) Exclusive) threadStart h c ∧
      h = [⟨"a", 5, "a:notify:1", 3⟩, ⟨"b", 5, "b:notify:1", 4⟩] ∧ Climbs h := by
  have hplay : (Crew.playIf (threadWorkshop {}) Exclusive threadStart
      (Turn.spawn (.observe frontDoor) :: List.replicate 5 (Turn.run 0 household) ++
        Turn.spawn (.observe garden) :: List.replicate 4 (Turn.run 1 household) ++
        List.replicate 13 (Turn.run 0 household) ++
        Turn.spawn (.observe garden) :: List.replicate 18 (Turn.run 2 household) ++
        Turn.spawn (.escalate { frontDoor with danger := .critical }) ::
        List.replicate 2 (Turn.run 3 household))).map (fun r => r.2) =
      some [⟨"a", 5, "a:notify:1", 3⟩, ⟨"b", 5, "b:notify:1", 4⟩] := by
    decide +kernel
  obtain ⟨⟨c, h⟩, hrun, heq⟩ := Option.map_eq_some_iff.1 hplay
  obtain rfl : h = _ := heq
  have hrun' := Crew.run_of_playIf hrun .start
  exact ⟨_, c, hrun', rfl, notifications_climb {} hrun'⟩

/-- The front door's event escalates to critical and reads the encounter; before it notifies, the
garden's camera reads the encounter under the lease, and both announce a critical danger. -/
theorem escalation_repeats_tier :
    ∃ h c, Run (Crew.Step (threadWorkshop {}) Crew.Free) threadStart h c ∧ ¬Climbs h := by
  have hplay : (Crew.play (threadWorkshop {}) threadStart
      (Turn.spawn (.observe frontDoor) :: List.replicate 18 (Turn.run 0 household) ++
        Turn.spawn (.escalate { frontDoor with danger := .critical }) ::
        Turn.spawn (.observe garden) :: Turn.run 1 household :: List.replicate 18 (Turn.run 2 household) ++
        List.replicate 13 (Turn.run 1 household))).map (fun r => r.2) =
      some [⟨"a", 5, "a:notify:1", 3⟩, ⟨"b", 5, "b:notify:1", 4⟩,
        ⟨"a:escalation", 5, "a:escalation:notify:1", 4⟩] := by
    decide +kernel
  obtain ⟨⟨c, h⟩, hrun, heq⟩ := Option.map_eq_some_iff.1 hplay
  obtain rfl : h = _ := heq
  refine ⟨_, c, Crew.run_of_play hrun .start, fun hclimbs => ?_⟩
  have hlast := hclimbs [⟨"a", 5, "a:notify:1", 3⟩, ⟨"b", 5, "b:notify:1", 4⟩]
    ⟨"a:escalation", 5, "a:escalation:notify:1", 4⟩ [] rfl (by decide)
  revert hlast
  decide

end Guard

end ArgusBackend
