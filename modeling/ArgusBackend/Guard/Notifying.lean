import ArgusBackend.Guard.Settling
import ArgusBackend.Guard.Thread

/-!
# What a try that notifies keeps to

* `threadProtocol` : the lease is taken once and given back, a notification goes out only at an
  encounter that was read and lets it pass, and it is recorded next;
* `obeys_performNotify` : an effect keeps to that where the thread that was read is open for it;
* `obeys_threadProgram` : so do the tries.
-/

namespace ArgusBackend

namespace Guard

namespace Stand

/-- A notification of the encounter may go out. -/
def At (k : Stand) (encounterId : ℤ) : Prop :=
  (encounterId ≤ 0 ∧ (k = .early ∨ k = .late)) ∨ ∃ held encounter, k = .read held encounterId encounter

/-- The encounter that was read lets the command pass. -/
def Passes (k : Stand) (rank : ℕ) (commandId : String) : Prop :=
  ∀ held encounterId encounter, k = .read held encounterId encounter →
    encounter.repeats rank = false ∨ commandId = encounter.notifyCommandId

/-- No notification of an event with an id waits for its record. -/
def Clear (k : Stand) : Prop := ∀ held dispatch, k = .announced held dispatch → dispatch.eventId = ""

end Stand

/-- The row of the command that was recorded is found under its id. -/
def Finds (k : Stand) : (op : ThreadOp) → Option op.Ans → Prop
  | .effect (.selectOutbox commandId), some ans => ∀ held encounterId encounter,
      k = .read held encounterId encounter → 0 < encounterId → 0 < encounter.notifyCount →
        commandId = encounter.notifyCommandId → ∃ row, ans = some row ∧ row.commandId = commandId
  | _, _ => True

/-- The operations that each phase allows, and what they answer. -/
def threadProtocol : Protocol ThreadPhase.after where
  allowed k op :=
    match op with
    | .effect (.insertOutbox commandId) => commandId ≠ ""
    | .acquireLease _ => k.stand = .early
    | .releaseLease encounterId => k.stand.holds encounterId = true ∧ k.stand.Clear
    | .findEncounter encounterId => 0 < encounterId ∧
        (k.stand = .early ∨ k.stand = .late ∨ k.stand = .leased encounterId)
    | .notified dispatch => k.stand.At dispatch.encounterId ∧ (dispatch.eventId ≠ "" →
        k.commandId = some dispatch.commandId ∧ k.stand.Passes dispatch.rank dispatch.commandId)
    | .recordNotificationDispatch dispatch => dispatch.eventId ≠ "" ∧
        ((∃ held, k.stand = .announced held dispatch) ∨
          (dispatch.encounterId ≤ 0 ∧ (k.stand = .early ∨ k.stand = .late)))
    | .concludeTry => (∀ encounterId, k.stand.holds encounterId = false) ∧ k.stand.Clear
    | _ => True
  answers k op r := (r = none → mayThrow op = true) ∧ Finds k.stand op r

section Protocol

variable {config : GuardConfig} {k : ThreadPhase} {input : EffectInput} {encounterId : ℤ}

/-- The parts of an effect that only call and write. -/
def Plain : Op → Prop
  | .selectOutbox _ | .selectSibling _ _ | .insertOutbox _ => False
  | _ => True

theorem obeys_plain {α : Type} {t : GuardTask α} (h : t.Asks Plain) :
    (onEffect t).Obeys threadProtocol (fun _ k' => k' = k) k := by
  refine Task.obeys_lift (J := fun k' => k' = k) rfl h fun op k' hop hk' => ?_
  subst hk'
  cases op with
  | selectOutbox id => cases hop
  | selectSibling parts id => cases hop
  | insertOutbox id => cases hop
  | _ => exact ⟨trivial, fun r _ => by cases r <;> rfl⟩

theorem asks_deliver {id : String} {p : Payload} {l : List Delivery} :
    (deliver id p l).Asks Plain := by
  induction l with
  | nil => trivial
  | cons d l ih =>
    refine Task.asks_bind (Task.asks_call.2 trivial) fun result => ?_
    split
    next => trivial
    next =>
      split
      next => trivial
      next => exact ih

theorem asks_notify {intent : OutboxRow} {content : NotifyContent} :
    (notify config intent content).Asks Plain := by
  unfold notify
  split
  next => trivial
  next =>
    split
    next =>
      split
      next => exact asks_deliver
      next => trivial
    next =>
      refine Task.asks_bind (Task.asks_call.2 trivial) fun resolution => ?_
      cases resolution with
      | unavailable => trivial
      | planned users plan =>
        simp only
        split
        next => trivial
        next =>
          refine Task.asks_bind (Task.asks_call.2 trivial) fun persisted => ?_
          split
          next => exact asks_deliver
          next => trivial

theorem asks_withinBudget {decision : GuardActionDecision} :
    (withinBudget config input decision).Asks Plain := by
  unfold withinBudget
  split
  next =>
    refine Task.asks_bind (Task.asks_call.2 trivial) fun used => ?_
    split <;> trivial
  next => trivial

theorem asks_settle {intent : OutboxRow} {result : EffectResult} :
    (settle intent input result).Asks Plain := by
  refine Task.asks_bind (Task.asks_call.2 trivial) fun _ =>
    Task.asks_bind (Task.asks_call.2 trivial) fun updated => ?_
  split <;> trivial

/-- The id that a command of the guard is asked for. -/
def Named (input : EffectInput) (id : String) : Prop :=
  id ≠ "" ∧ (input.correlationId ≠ "" →
    id = input.correlationId ++ ":" ++ guardActionKindToString input.kind ++ ":" ++
      toString input.sequence)

theorem append_ne_empty {a b : String} (hb : b ≠ "") : a ++ b ≠ "" := by
  intro heq
  have hlist := congrArg String.toList heq
  simp at hlist
  exact hb hlist.2

theorem toString_ne_empty (n : ℕ) : toString n ≠ "" := by
  intro heq
  have hlist := congrArg String.toList heq
  simp at hlist

theorem obeys_ownCommand : (onEffect (makeCommandId input)).Obeys threadProtocol
    (fun r k' => k' = k ∧ ∀ id, r = some id → Named input id) k := by
  unfold makeCommandId
  split
  next hnamed =>
    refine ⟨rfl, fun id hid => ?_⟩
    obtain rfl := Option.some.inj hid
    exact ⟨append_ne_empty (toString_ne_empty _), fun _ => rfl⟩
  next hempty =>
    refine Task.obeys_lift_call trivial (fun _ => ⟨rfl, fun _ h => (nomatch h)⟩) fun n _ =>
      ⟨rfl, fun id hid => ?_⟩
    obtain rfl := Option.some.inj hid
    exact ⟨append_ne_empty (toString_ne_empty _), fun hne => absurd hne hempty⟩

/-- The intent that a plan comes to: its command is in the phase, and the recorded command is
planned as it is. -/
def Intends (k : ThreadPhase) (id : String) (r : Option (Option OutboxRow)) (k' : ThreadPhase) :
    Prop :=
  k'.stand = k.stand ∧ ∀ row, r = some (some row) → k'.commandId = some row.commandId ∧
    ∀ held encounterId encounter, k.stand = .read held encounterId encounter → 0 < encounterId →
      0 < encounter.notifyCount → id = encounter.notifyCommandId → row.commandId = id

/-- The row that was found is that of the command in the phase. -/
def Adopts (k : ThreadPhase) (r : Option (Option OutboxRow)) (k' : ThreadPhase) : Prop :=
  k'.stand = k.stand ∧ ∀ row, r = some (some row) → k'.commandId = some row.commandId

theorem adopts_other {r : Option (Option OutboxRow)} {k' : ThreadPhase}
    (hr : ∀ row, r ≠ some (some row)) (hk' : k'.stand = k.stand) : Adopts k r k' :=
  ⟨hk', fun row h => absurd h (hr row)⟩

theorem adopts_row {row : OutboxRow} {k' : ThreadPhase} (hk' : k'.stand = k.stand)
    (hcommand : k'.commandId = some row.commandId) : Adopts k (some (some row)) k' := by
  refine ⟨hk', fun row' hrow' => ?_⟩
  obtain rfl : row = row' := by simpa using hrow'
  exact hcommand

theorem obeys_adopted {id : String} : (onEffect (adopt id)).Obeys threadProtocol (Adopts k) k := by
  unfold adopt
  split
  next parts _ =>
    split
    next =>
      refine Task.obeys_last trivial fun r _ => ?_
      match r with
      | none => exact adopts_other (fun _ h => (nomatch h)) rfl
      | some none => exact adopts_other (fun _ h => (nomatch h)) rfl
      | some (some row) => exact adopts_row rfl rfl
    next => exact adopts_other (fun _ h => (nomatch h)) rfl
  next => exact adopts_other (fun _ h => (nomatch h)) rfl

theorem obeys_intent {id : String} (hid : id ≠ "") :
    (onEffect (planIntent id)).Obeys threadProtocol (Intends k id) k := by
  have hthrow : ∀ k', k'.stand = k.stand → Intends k id none k' :=
    fun k' hk' => ⟨hk', fun _ h => (nomatch h)⟩
  have hnone : ∀ k', k'.stand = k.stand → Intends k id (some none) k' :=
    fun k' hk' => ⟨hk', fun _ h => (nomatch h)⟩
  refine Task.obeys_lift_call trivial (fun _ => hthrow _ rfl) fun row hrow => ?_
  cases row with
  | some row =>
    refine ⟨rfl, fun row' hrow' => ?_⟩
    obtain rfl : row = row' := by simpa using hrow'
    refine ⟨rfl, fun held e encounter hread hpos hcount heq => ?_⟩
    obtain ⟨found, hfound, hname⟩ := hrow.2 held e encounter hread hpos hcount heq
    obtain rfl : row = found := by simpa using hfound
    exact hname
  | none =>
    -- the recorded command has a row, so this one is another
    have hother : ∀ held e encounter, k.stand = .read held e encounter → 0 < e →
        0 < encounter.notifyCount → id ≠ encounter.notifyCommandId := by
      intro held e encounter hread hpos hcount heq
      obtain ⟨found, hfound, -⟩ := hrow.2 held e encounter hread hpos hcount heq
      cases hfound
    have hadopts : ∀ r k', Adopts k r k' → Intends k id r k' := by
      rintro r k' ⟨hstand, hcommand⟩
      exact ⟨hstand, fun row hrow => ⟨hcommand row hrow, fun held e encounter hread hpos hcount heq =>
        absurd heq (hother held e encounter hread hpos hcount)⟩⟩
    change (onEffect (adopt id >>= _)).Obeys threadProtocol _ k
    rw [onEffect, Task.lift_bind]
    refine Task.obeys_bind obeys_adopted (fun k' hk' => hadopts _ _ ⟨hk'.1, fun _ h => (nomatch h)⟩)
      fun legacy k' hk' => ?_
    cases legacy with
    | some row => exact hadopts _ _ hk'
    | none =>
      refine Task.obeys_lift_call hid (fun _ => hthrow _ hk'.1) fun _ _ => ?_
      refine Task.obeys_last trivial fun r _ => hadopts _ _ ?_
      match r with
      | none => exact adopts_other (fun _ h => (nomatch h)) hk'.1
      | some none => exact adopts_other (fun _ h => (nomatch h)) hk'.1
      | some (some row) => exact adopts_row hk'.1 rfl

/-- A try has left its notification: nothing waits for its record, and it holds what it held. -/
def Leaves (k k' : ThreadPhase) : Prop :=
  k'.stand.Clear ∧ ∀ encounterId, k'.stand.holds encounterId = k.stand.holds encounterId

theorem leaves_same {k' : ThreadPhase} (hclear : k.stand.Clear) (h : k'.stand = k.stand) :
    Leaves k k' := by
  unfold Leaves
  rw [h]
  exact ⟨hclear, fun _ => rfl⟩

theorem Leaves.same {k' k'' : ThreadPhase} (hk : Leaves k k') (h : k''.stand = k'.stand) :
    Leaves k k'' := by
  unfold Leaves
  rw [h]
  exact hk

theorem clear_of_at {stand : Stand} (h : stand.At encounterId) : stand.Clear := by
  rintro held dispatch rfl
  rcases h with ⟨-, h | h⟩ | ⟨held, encounter, h⟩ <;> cases h

/-- The thread that was read is not open for the danger, or it was opened by the command itself. -/
def Opens (stand : Stand) (input : EffectInput) : Prop :=
  ∀ held encounterId encounter, stand = .read held encounterId encounter →
    0 < encounterId ∧ (encounter.repeats (guardDangerRank input.danger) = false ∨
      (0 < encounter.notifyCount ∧ (input.correlationId ≠ "" → Named input encounter.notifyCommandId)))

theorem obeys_notifyThread {intent : OutboxRow} (hat : k.stand.At encounterId)
    (hcommand : k.commandId = some intent.commandId)
    (hpasses : input.correlationId ≠ "" →
      k.stand.Passes (guardDangerRank input.danger) intent.commandId) :
    (notifyThread config intent input encounterId).Obeys threadProtocol (fun _ => Leaves k) k := by
  have hstay : Leaves k k := leaves_same (clear_of_at hat) rfl
  refine Task.obeys_bind (obeys_plain asks_notify) (fun _ hk' => hk' ▸ hstay) fun sent k' hk' => ?_
  subst hk'
  split
  next =>
    refine Task.obeys_call ⟨hat, fun hne => ⟨hcommand, hpasses hne⟩⟩ (fun hr => nomatch hr.1 rfl)
      fun _ _ => ?_
    rcases hat with ⟨hpos, hstand⟩ | ⟨held, encounter, hread⟩
    · -- there is no encounter, so the stand is the same throughout
      have hsame : ∀ d, (k'.after (.notified d) (some ())).stand = k'.stand := by
        intro d
        rcases hstand with h | h <;> simp [ThreadPhase.after, Stand.after, h]
      split
      next hne =>
        refine Task.obeys_call ⟨hne, .inr ⟨hpos, by rwa [hsame]⟩⟩ (fun hr => nomatch hr.1 rfl)
          fun _ _ => hstay.same ?_
        simp only [ThreadPhase.after, Stand.after]
        rcases hstand with h | h <;> simp [h]
      next => exact hstay.same (hsame _)
    · split
      next hne =>
        refine Task.obeys_call ⟨hne, .inl ⟨held, by simp [ThreadPhase.after, Stand.after, hread]⟩⟩
          (fun hr => nomatch hr.1 rfl) fun _ _ => ⟨?_, fun e => ?_⟩
        · cases held <;> simp [ThreadPhase.after, Stand.after, hread, Stand.Clear]
        · cases held <;> simp [ThreadPhase.after, Stand.after, hread, Stand.holds]
      next hempty =>
        refine ⟨?_, fun e => ?_⟩
        · simp only [ThreadPhase.after, Stand.after, hread]
          rintro held' dispatch heq
          obtain ⟨-, rfl⟩ := by simpa using heq
          simpa using hempty
        · cases held <;> simp [ThreadPhase.after, Stand.after, hread, Stand.holds]
  next => exact hstay

theorem obeys_attemptThread {intent : OutboxRow} (hat : k.stand.At encounterId)
    (hcommand : k.commandId = some intent.commandId)
    (hpasses : input.correlationId ≠ "" →
      k.stand.Passes (guardDangerRank input.danger) intent.commandId) :
    (attemptThread config intent input encounterId).Obeys threadProtocol (fun _ => Leaves k) k := by
  have hstay : Leaves k k := leaves_same (clear_of_at hat) rfl
  refine Task.obeys_bind (obeys_plain (Task.asks_call.2 trivial)) (fun _ hk' => hk' ▸ hstay)
    fun nowMs k' hk' => ?_
  subst hk'
  split
  next => exact hstay
  next =>
    refine Task.obeys_bind (obeys_plain asks_withinBudget) (fun _ hk' => hk' ▸ hstay)
      fun decision k' hk' => ?_
    subst hk'
    split
    next =>
      refine Task.obeys_bind (obeys_notifyThread hat hcommand hpasses) (fun _ hk' => hk')
        fun sent k' hk' => ?_
      exact (obeys_plain asks_settle).mono fun _ k'' hk'' => hk'' ▸ hk'
    next => exact (obeys_plain asks_settle).mono fun _ k' hk' => hk' ▸ hstay

theorem obeys_performNotify (hat : k.stand.At encounterId) (hopens : Opens k.stand input) :
    (performNotify config input encounterId).Obeys threadProtocol (fun _ => Leaves k) k := by
  have hstay : Leaves k k := leaves_same (clear_of_at hat) rfl
  refine Task.obeys_bind obeys_ownCommand (fun _ hk' => hk'.1 ▸ hstay) fun id k' hk' => ?_
  obtain ⟨rfl, hid⟩ := hk'
  have hnamed := hid id rfl
  refine Task.obeys_bind (obeys_intent hnamed.1) (fun k' hk' => hstay.same hk'.1)
    fun intent k' hk' => ?_
  cases intent with
  | none => exact hstay.same hk'.1
  | some intent =>
    simp only
    split
    next => exact hstay.same hk'.1
    next =>
      obtain ⟨hcommand, hfound⟩ := hk'.2 intent rfl
      have hrest : (attemptThread config intent input encounterId).Obeys threadProtocol
          (fun _ => Leaves k') k' := by
        refine obeys_attemptThread (by rwa [hk'.1]) hcommand fun hne held e encounter hread => ?_
        rw [hk'.1] at hread
        obtain ⟨hpos, hfresh | ⟨hcount, hown⟩⟩ := hopens held e encounter hread
        · exact .inl hfresh
        · -- the thread was opened by this command, whose row is found
          have heq : id = encounter.notifyCommandId := by
            rw [hnamed.2 hne, (hown hne).2 hne]
          exact .inr ((hfound held e encounter hread hpos hcount heq).trans heq)
      refine hrest.mono fun _ k'' hk'' => ⟨hk''.1, fun e => ?_⟩
      rw [hk''.2 e, hk'.1]

/-- A try may be concluded. -/
def Idle (k : ThreadPhase) : Prop := (∀ encounterId, k.stand.holds encounterId = false) ∧ k.stand.Clear

theorem Leaves.idle {k' : ThreadPhase} (hk : Leaves k k') (hfree : ∀ e, k.stand.holds e = false) :
    Idle k' :=
  ⟨fun e => (hk.2 e).trans (hfree e), hk.1⟩

theorem idle_early (h : k.stand = .early) : Idle k := by
  unfold Idle
  rw [h]
  exact ⟨fun _ => rfl, fun _ _ heq => (nomatch heq)⟩

theorem idle_late (h : k.stand = .late) : Idle k := by
  unfold Idle
  rw [h]
  exact ⟨fun _ => rfl, fun _ _ heq => (nomatch heq)⟩

variable {o : Observation}

theorem obeys_threadRepeat (h : k.stand = .early) :
    (o.threadRepeat config).Obeys threadProtocol (fun _ k' => k'.stand = .early) k := by
  unfold Observation.threadRepeat
  split
  next hpos =>
    refine Task.obeys_call ⟨hpos.2, .inl h⟩ (fun _ => ?_) fun encounter _ => ?_ <;>
      simp [ThreadPhase.after, Stand.after, h, Task.obeys_pure]
  next => exact h

theorem obeys_underLease (hpos : 0 < o.encounterId) (h : k.stand = .leased o.encounterId) :
    (o.underLease config).Obeys threadProtocol (fun _ => Leaves k) k := by
  have hclear : k.stand.Clear := by
    rw [h]
    exact fun _ _ heq => (nomatch heq)
  refine Task.obeys_call ⟨hpos, .inr (.inr h)⟩ (fun _ => leaves_same hclear ?_) fun encounter _ => ?_
  · simp [ThreadPhase.after, Stand.after]
  set k' := k.after (.findEncounter o.encounterId) (some encounter) with hk'
  have hread : k'.stand = .read true o.encounterId encounter := by
    simp [hk', ThreadPhase.after, Stand.after, h]
  have hat : k'.stand.At o.encounterId := .inr ⟨true, encounter, hread⟩
  have hleaves : ∀ k'', Leaves k' k'' → Leaves k k'' := by
    rintro k'' ⟨hclear', hholds⟩
    refine ⟨hclear', fun e => ?_⟩
    rw [hholds, hread, h]
    rfl
  have hstay : Leaves k k' := hleaves k' (leaves_same (clear_of_at hat) rfl)
  refine Task.obeys_bind obeys_ownCommand (fun _ hk'' => hk''.1 ▸ hstay) fun own k'' hk'' => ?_
  obtain ⟨rfl, hown⟩ := hk''
  split
  next => exact hstay
  next hpass =>
    refine Task.obeys_bind (obeys_performNotify hat ?_) (fun k'' hk'' => hleaves k'' hk'')
      fun _ k'' hk'' => hleaves k'' hk''
    intro held e enc heq
    rw [hread] at heq
    obtain ⟨rfl, rfl, rfl⟩ := by simpa using heq
    refine ⟨hpos, ?_⟩
    cases hrepeats : encounter.repeats (guardDangerRank o.danger) with
    | false => exact .inl hrepeats
    | true =>
      have hcommand : encounter.notifyCommandId = own := by
        by_contra hne
        exact hpass ⟨hrepeats, hne⟩
      have hcount : 0 < encounter.notifyCount := by
        simp only [GuardEncounter.repeats, Bool.and_eq_true, decide_eq_true_eq] at hrepeats
        exact hrepeats.1
      exact .inr ⟨hcount, fun _ => hcommand ▸ hown own rfl⟩

theorem obeys_observe (h : k.stand = .early) :
    (o.observe config).Obeys threadProtocol (fun _ => Idle) k := by
  refine Task.obeys_bind (obeys_threadRepeat h) (fun _ hk' => idle_early hk') fun repeated k hk => ?_
  refine Task.obeys_call trivial (fun _ => idle_early hk) fun _ _ => ?_
  set k' := k.after (.journalDecision o.eventId) (some ()) with hk'
  have hearly : k'.stand = .early := hk
  split
  next =>
    split
    next hpos =>
      refine Task.obeys_call hearly (fun hr => nomatch hr.1 rfl) fun owned _ => ?_
      cases owned with
      | false => exact idle_early hearly
      | true =>
        have hleased : (k'.after (.acquireLease o.encounterId) (some true)).stand =
            .leased o.encounterId := rfl
        set k'' := k'.after (.acquireLease o.encounterId) (some true)
        have hbody : (o.underLease config).attempt.Obeys threadProtocol
            (fun r k''' => (∃ result, r = some result) ∧ Leaves k'' k''') k'' :=
          Task.obeys_attempt ((obeys_underLease hpos hleased).mono fun r _ hk => ⟨⟨r, rfl⟩, hk⟩)
        refine Task.obeys_bind hbody (fun _ hk => nomatch hk.1) fun result k''' hk => ?_
        obtain ⟨-, hclear, hholds⟩ := hk
        refine Task.obeys_call ⟨?_, hclear⟩ (fun hr => nomatch hr.1 rfl) fun _ _ => ?_
        · rw [hholds, hleased]
          simp [Stand.holds]
        · cases result <;> exact idle_early rfl
    next hpos =>
      have hat : k'.stand.At o.encounterId := .inl ⟨by omega, .inl hearly⟩
      have hopens : Opens k'.stand (o.effectInput o.eventId false) := by
        rw [hearly]
        exact fun _ _ _ heq => (nomatch heq)
      refine Task.obeys_bind (obeys_performNotify hat hopens) (fun k'' hk'' => ?_) fun _ k'' hk'' => ?_
      all_goals exact hk''.idle fun e => by rw [hearly]; rfl
  next => exact idle_early hearly

theorem obeys_escalate (h : k.stand = .late) :
    (o.escalate config).Obeys threadProtocol (fun _ => Idle) k := by
  unfold Observation.escalate
  split
  next hpos =>
    refine Task.obeys_call ⟨hpos, .inr (.inl h)⟩ (fun _ => ?_) fun encounter _ => ?_
    · exact idle_late h
    set k' := k.after (.findEncounter o.encounterId) (some encounter) with hk'
    have hread : k'.stand = .read false o.encounterId encounter := by
      simp [hk', ThreadPhase.after, Stand.after, h]
    have hfree : ∀ e, k'.stand.holds e = false := fun e => by rw [hread]; rfl
    have hat : k'.stand.At o.encounterId := .inr ⟨false, encounter, hread⟩
    change Task.Obeys threadProtocol (fun _ => Idle) k' (if config.notifyLevel ≤ o.rank ∧
      encounter.repeats o.rank = false then _ else _)
    split
    next hrank =>
      have hopens : Opens k'.stand (o.effectInput (o.eventId ++ ":escalation") true) := by
        intro held e enc heq
        rw [hread] at heq
        obtain ⟨rfl, rfl, rfl⟩ := by simpa using heq
        exact ⟨hpos, .inl hrank.2⟩
      refine Task.obeys_bind (obeys_performNotify hat hopens) (fun _ hk => hk.idle hfree)
        fun _ _ hk => hk.idle hfree
    next => exact ⟨hfree, clear_of_at hat⟩
  next hpos =>
    have hat : k.stand.At o.encounterId := .inl ⟨by omega, .inr h⟩
    have hopens : Opens k.stand (o.effectInput (o.eventId ++ ":escalation") true) := by
      rw [h]
      exact fun _ _ _ heq => (nomatch heq)
    have hfree : ∀ e, k.stand.holds e = false := fun e => by rw [h]; rfl
    change Task.Obeys threadProtocol (fun _ => Idle) k (if config.notifyLevel ≤ o.rank ∧
      false = false then _ else _)
    split
    next =>
      refine Task.obeys_bind (obeys_performNotify hat hopens) (fun _ hk => hk.idle hfree)
        fun _ _ hk => hk.idle hfree
    next => exact idle_late h

theorem obeys_threadProgram (request : ThreadRequest) :
    ((threadWorkshop config).program request).Obeys threadProtocol (fun _ _ => True)
      ((threadWorkshop config).first request) := by
  have hbody : ∀ {t : ThreadTask Unit} {k}, t.Obeys threadProtocol (fun _ => Idle) k →
      (t.attempt >>= fun _ => askThread .concludeTry).Obeys threadProtocol (fun _ _ => True) k := by
    intro t k ht
    have hattempt : t.attempt.Obeys threadProtocol (fun _ => Idle) k := Task.obeys_attempt ht
    exact Task.obeys_bind hattempt (fun _ _ => trivial) fun _ k hk =>
      Task.obeys_last hk fun _ _ => trivial
  cases request with
  | observe o => exact hbody (obeys_observe rfl)
  | escalate o => exact hbody (obeys_escalate rfl)

end Protocol

end Guard

end ArgusBackend
