import ArgusBackend.Presence.Service
import ArgusBackend.Library.Duties
import ArgusBackend.Library.Places

/-!
# Withdrawn consent

What is left of a user's presence after `forget` has marked the withdrawal in the cache.  As long
as the mark stays, a signal that writes a row sees it afterwards and is bound to remove the row
again; the mark is lost to an older answer of identity, or when the full cache is cleared.

* `Withdrawing` : the invariant from the mark on;
* `withdrawn_for_good` : once all is quiet no row is left, if the mark was not lost to a signal.
-/

namespace ArgusBackend

namespace Presence

/-- A row of the user is stored. -/
def Stored (userId : ℤ) (db : Db) : Prop :=
  ∃ environmentId row, db.rows.lookup (userId, environmentId) = some row

/-- What answers say once the withdrawal of a user is marked; whether the cache still holds it. -/
def facts (userId : ℤ) (held : Bool) : (op : Op) → op.Ans → Prop
  | .cached user _, consent => user = userId → consent ≠ some true
  | .remember user consent, _ => ¬(user = userId ∧ consent = true)
  | .withdrawn user, withdrawn => held = true → user = userId → withdrawn = true
  | _, _ => True

/-- The operation neither writes presence of the user nor checks what was written. -/
def Unexposed (userId : ℤ) : Op → Prop
  | .transition signal => signal.userId ≠ userId
  | .withdrawn user => user ≠ userId
  | _ => True

/-- A signal has written a row of the user. -/
def writes (userId : ℤ) : (op : Op) → op.Ans → Prop
  | .transition signal, decision => signal.userId = userId ∧ decision.write = true
  | _, _ => False

/-- The statement deletes the rows of a user. -/
def removes (userId : ℤ) : Op → Prop
  | .removeUser user => user = userId
  | _ => False

/-- Without a new consent the task does not come to write presence of the user: it is not a signal
of that user that has passed its consent check. -/
def Settled {α : Type} (userId : ℤ) (t : PresenceTask α) : Prop :=
  t.Within (facts userId false) (Unexposed userId) fun _ => True

/-- A signal that writes a row of the user while the mark is held is bound to remove it. -/
def Cautious {α : Type} (userId : ℤ) (t : PresenceTask α) : Prop :=
  t.Repays (facts userId true) (writes userId) (removes userId)

/-! ### The handlers -/

section Handlers

open ArgusBackend.Task PresenceService

variable {userId user : ℤ} {held : Bool}

theorem Unexposed.not_writes {op : Op} {ans : op.Ans} (h : Unexposed userId op) :
    ¬writes userId op ans := by
  cases op with
  | transition signal => exact fun hw => h hw.1
  | _ => exact id

theorem settled_of_asks {α : Type} {t : PresenceTask α} (h : t.Asks (Unexposed userId)) :
    Settled userId t :=
  within_of_asks h

theorem cautious_of_asks {α : Type} {t : PresenceTask α} (h : t.Asks (Unexposed userId)) :
    Cautious userId t :=
  repays_of_asks h fun _ _ hop => hop.not_writes

theorem asks_forget : (forget user).Asks (Unexposed userId) := by
  refine asks_bind (asks_call.2 trivial) fun _ => ?_
  refine asks_bind (asks_call.2 trivial) fun _ => ?_
  refine asks_bind (asks_call.2 trivial) fun _ => ?_
  exact asks_each fun _ _ => asks_call.2 trivial

theorem asks_announce {row : PresenceRow} : (announce row).Asks (Unexposed userId) :=
  asks_bind (asks_call.2 trivial) fun _ => asks_call.2 trivial

theorem asks_sweep {rules : PresenceRules} {now : ℤ} : (sweep rules now).Asks (Unexposed userId) := by
  refine asks_bind (asks_call.2 trivial) fun _ => ?_
  exact asks_bind (asks_each fun _ _ => asks_announce) fun _ => asks_call.2 trivial

theorem asks_reconcileConsent : reconcileConsent.Asks (Unexposed userId) := by
  refine asks_bind (asks_call.2 trivial) fun consenting => ?_
  cases consenting with
  | none => exact asks_pure
  | some allowed =>
    refine asks_bind (asks_each fun _ _ => asks_call.2 trivial) fun _ => ?_
    exact asks_bind (asks_call.2 trivial) fun _ => asks_each fun _ _ => asks_forget

theorem asks_onIdentityChange {isActive : Bool} {privacy : Option (Bool × Bool)} :
    (onIdentityChange user isActive privacy).Asks (Unexposed userId) := by
  unfold onIdentityChange
  split
  · exact asks_pure
  split
  · exact asks_bind asks_forget fun _ => asks_call.2 trivial
  split
  · exact asks_pure
  split
  · exact asks_call.2 trivial
  · exact asks_forget

theorem asks_consented : (consented user).Asks (Unexposed userId) := by
  refine asks_bind (asks_call.2 trivial) fun now => ?_
  refine asks_bind (asks_call.2 trivial) fun cached => ?_
  cases cached with
  | some consent => exact asks_pure
  | none =>
    refine asks_bind (asks_call.2 trivial) fun answer => ?_
    cases answer with
    | none => exact asks_pure
    | some answer => exact asks_bind (asks_call.2 trivial) fun _ => asks_pure

/-- Forgetting is bound to remove the rows. -/
theorem owes_forget : (forget userId).Owes (facts userId held) (removes userId) :=
  .inr fun _ _ => .inl rfl

/-- The signals of another user. -/
theorem asks_applyEach {input : PresenceIngestInput} (hother : input.userId ≠ userId) :
    ∀ environments, (applyEach input environments).Asks (Unexposed userId)
  | [] => asks_pure
  | environmentId :: rest => by
    refine asks_bind (asks_call.2 hother) fun decision => ?_
    split
    · exact asks_applyEach hother rest
    refine asks_bind (asks_call.2 hother) fun withdrawn => ?_
    split
    · exact asks_forget
    split
    · exact asks_bind asks_announce fun _ => asks_applyEach hother rest
    · exact asks_applyEach hother rest

/-- What a signal writes it checks, and removes when the mark is held. -/
theorem cautious_applyEach {input : PresenceIngestInput} :
    ∀ environments, Cautious userId (applyEach input environments)
  | [] => repays_pure
  | environmentId :: rest => by
    refine repays_call (fun decision => ?_) fun decision hwrites => ?_
    · split
      · exact cautious_applyEach rest
      refine repays_call (fun withdrawn => ?_) fun _ hw => hw.elim
      split
      · exact cautious_of_asks asks_forget
      split
      · exact repays_bind (cautious_of_asks asks_announce) fun _ => cautious_applyEach rest
      · exact cautious_applyEach rest
    · obtain ⟨huser, hwrite⟩ := hwrites
      simp only [hwrite, Bool.true_eq_false, if_false]
      refine .inr fun withdrawn hheld => ?_
      obtain rfl : withdrawn = true := hheld rfl huser
      exact huser ▸ owes_forget

/-- Nobody new is let in. -/
theorem within_consented : (consented user).Within (facts userId false) (Unexposed userId)
    fun consent => consent = true → user ≠ userId := by
  refine within_call trivial fun now _ => within_call trivial fun cached hcached => ?_
  cases cached with
  | some consent => exact within_pure fun hconsent huser => hcached huser (by rw [hconsent])
  | none =>
    refine within_call trivial fun answer _ => ?_
    cases answer with
    | none => exact within_pure fun h => nomatch h
    | some answer =>
      refine within_call trivial fun _ hremember => within_pure fun hanswer huser => ?_
      exact hremember ⟨huser, hanswer⟩

theorem settled_ingest {input : PresenceIngestInput} : Settled userId (ingest input) := by
  unfold ingest
  split
  · exact within_pure trivial
  refine within_bind within_consented fun consent hconsent => ?_
  split
  · exact within_pure trivial
  rename_i hyes
  have hother := hconsent (by simpa using hyes)
  split
  · exact settled_of_asks (asks_applyEach hother _)
  · exact within_call trivial fun environments _ =>
      settled_of_asks (asks_applyEach hother environments)

theorem cautious_ingest {input : PresenceIngestInput} : Cautious userId (ingest input) := by
  unfold ingest
  split
  · exact repays_pure
  refine repays_bind (cautious_of_asks asks_consented) fun consent => ?_
  split
  · exact repays_pure
  split
  · exact cautious_applyEach _
  · exact repays_call (fun environments => cautious_applyEach environments) fun _ hw => hw.elim

theorem settled_program {rules : PresenceRules} (request : Request) :
    Settled userId (program rules request) := by
  cases request with
  | ingest input => exact settled_ingest
  | knownSeen passerby personId environmentId at_ =>
    simp only [program, onKnownSeen]
    split
    · exact within_pure trivial
    refine within_call trivial fun found _ => ?_
    cases found with
    | none => exact within_pure trivial
    | some user => exact settled_ingest
  | identityChange user isActive privacy => exact settled_of_asks asks_onIdentityChange
  | sweep now => exact settled_of_asks asks_sweep
  | reconcileConsent => exact settled_of_asks asks_reconcileConsent

theorem cautious_program {rules : PresenceRules} (request : Request) :
    Cautious userId (program rules request) := by
  cases request with
  | ingest input => exact cautious_ingest
  | knownSeen passerby personId environmentId at_ =>
    simp only [program, onKnownSeen]
    split
    · exact repays_pure
    refine repays_call (fun found => ?_) fun _ hw => hw.elim
    cases found with
    | none => exact repays_pure
    | some user => exact cautious_ingest
  | identityChange user isActive privacy => exact cautious_of_asks asks_onIdentityChange
  | sweep now => exact cautious_of_asks asks_sweep
  | reconcileConsent => exact cautious_of_asks asks_reconcileConsent

end Handlers

/-! ### The state -/

section State

variable {userId : ℤ} {db : Db} {env : Outside} {held : Bool}

theorem lookup_keep {p : ℤ × ℤ → Bool} {k : ℤ × ℤ} {row : PresenceRow}
    (h : (db.keep p).rows.lookup k = some row) : p k = true ∧ db.rows.lookup k = some row := by
  rw [Db.keep, Table.lookup_foldl_erase] at h
  split at h
  · cases h
  · rename_i hkept
    have hmem : k ∈ db.rows.keys := by
      rw [← AList.mem_keys, ← AList.lookup_isSome, h]
      rfl
    exact ⟨by simpa [hmem] using hkept, h⟩

/-- What may store a row of the user: a row that was stored, or a signal that writes one. -/
theorem stored_effect {op : Op} (h : Stored userId (effect env db op)) :
    Stored userId db ∧ ¬removes userId op ∨ writes userId op (answer env db op) := by
  obtain ⟨environmentId, row, hrow⟩ := h
  cases op with
  | transition signal =>
    simp only [effect] at hrow
    split at hrow
    · rename_i hwrite
      by_cases huser : signal.userId = userId
      · exact .inr ⟨huser, hwrite⟩
      · rw [AList.lookup_insert_ne (by simpa using fun h => absurd h.symm huser)] at hrow
        exact .inl ⟨⟨environmentId, row, hrow⟩, id⟩
    · exact .inl ⟨⟨environmentId, row, hrow⟩, id⟩
  | removeUser user =>
    obtain ⟨hkept, hold⟩ := lookup_keep hrow
    refine .inl ⟨⟨environmentId, row, hold⟩, fun hremoves => ?_⟩
    simp only [removes] at hremoves
    simp [hremoves] at hkept
  | expireHome homeBefore now =>
    simp only [effect, Db.expireHome, Table.lookup_mapEntries] at hrow
    obtain ⟨old, hold, -⟩ := Option.map_eq_some_iff.1 hrow
    exact .inl ⟨⟨environmentId, old, hold⟩, id⟩
  | purgeStale signalBefore =>
    exact .inl ⟨⟨environmentId, row, (lookup_keep hrow).2⟩, id⟩
  | remember user consent => exact .inl ⟨⟨environmentId, row, hrow⟩, id⟩
  | _ => exact .inl ⟨⟨environmentId, row, hrow⟩, id⟩

/-- No consent of the user is cached. -/
def Unconsented (userId : ℤ) (db : Db) : Prop :=
  ∀ entry, db.consent.lookup userId = some entry → entry.consent = false

/-- The full cache is cleared of what it says of the user. -/
def Clears (userId : ℤ) (db : Db) : Op → Prop
  | .remember user _ => db.full user = true ∧ user ≠ userId
  | _ => False

theorem lookup_remember {user : ℤ} {consent : Bool} {now : ℤ} :
    (db.remember user consent now).consent.lookup userId =
      if userId = user then some ⟨consent, now + kConsentCacheSeconds⟩
      else if db.full user then none else db.consent.lookup userId := by
  by_cases huser : userId = user
  · subst huser
    simp [Db.remember]
  · simp only [Db.remember, AList.lookup_insert_ne huser, huser, if_false]
    split <;> rfl

theorem consent_effect {op : Op} (hop : ∀ user consent, op ≠ .remember user consent) :
    (effect env db op).consent = db.consent := by
  cases op with
  | remember user consent => exact absurd rfl (hop user consent)
  | transition signal =>
    simp only [effect]
    split <;> rfl
  | _ => rfl

theorem unconsented_effect {op : Op} (hnone : Unconsented userId db)
    (hop : op ≠ .remember userId true) : Unconsented userId (effect env db op) := by
  by_cases hremember : ∃ user consent, op = .remember user consent
  · obtain ⟨user, consent, rfl⟩ := hremember
    intro entry hentry
    simp only [effect, lookup_remember] at hentry
    split at hentry
    · rename_i huser
      subst huser
      obtain rfl := Option.some.inj hentry
      cases consent with
      | false => rfl
      | true => exact absurd rfl hop
    · split at hentry
      · cases hentry
      · exact hnone entry hentry
  · rw [Unconsented, consent_effect fun user consent hop => hremember ⟨user, consent, hop⟩]
    exact hnone

theorem held_effect {op : Op} (hheld : (db.consent.lookup userId).isSome)
    (hclears : ¬Clears userId db op) : ((effect env db op).consent.lookup userId).isSome := by
  by_cases hremember : ∃ user consent, op = .remember user consent
  · obtain ⟨user, consent, rfl⟩ := hremember
    simp only [effect, lookup_remember]
    split
    · rfl
    · rename_i huser
      rw [if_neg fun hfull => hclears ⟨hfull, Ne.symm huser⟩]
      exact hheld
  · rwa [consent_effect fun user consent hop => hremember ⟨user, consent, hop⟩]

/-- The answers meet the facts, as long as no consent of the user is remembered. -/
theorem facts_answer {op : Op} (hnone : Unconsented userId db)
    (hheld : held = true → (db.consent.lookup userId).isSome) (hop : op ≠ .remember userId true) :
    facts userId held op (answer env db op) := by
  cases op with
  | cached user now =>
    rintro rfl
    simp only [answer, Db.cached]
    cases hlookup : db.consent.lookup user with
    | none => simp
    | some entry => simp [hnone entry hlookup]
  | remember user consent => exact fun h => hop (by rw [h.1, h.2])
  | withdrawn user =>
    rintro hyes rfl
    obtain ⟨entry, hentry⟩ := Option.isSome_iff_exists.1 (hheld hyes)
    simp [answer, Db.withdrawn, hentry, hnone entry hentry]
  | _ => trivial

end State

/-! ### Runs after the mark -/

/-- The steps that keep the mark: no answer of identity that the user consents is remembered, and
the full cache is not cleared while a signal of the user is past its consent check.  Nothing
fails. -/
def Calm (userId : ℤ) (p : Pool Db Op Op.Ans) : Event Outside Request → Prop
  | .spawn _ => True
  | .run i _ => ∀ op next, p.tasks[i]? = some (.await op next) →
      op ≠ .remember userId true ∧
        (Clears userId p.shared op → ∀ t ∈ p.tasks, Settled userId t)
  | .fail _ | .drop _ => False

/-- A step in which nothing brings a consent of the user back. -/
def CalmStep (rules : PresenceRules) (userId : ℤ) (p : Pool Db Op Op.Ans) (notes : List Empty)
    (p' : Pool Db Op Op.Ans) : Prop :=
  ∃ ev, Calm userId p ev ∧ Pool.act exec (program rules) p ev = some (p', notes)

/-- What holds from the mark on; `held` as long as the cache keeps it. -/
structure Withdrawing (userId : ℤ) (held : Bool) (p : Pool Db Op Op.Ans) : Prop where
  cautious : ∀ t ∈ p.tasks, Cautious userId t
  unconsented : Unconsented userId p.shared
  marked : held = true → (p.shared.consent.lookup userId).isSome
  settled : held = false → ∀ t ∈ p.tasks, Settled userId t
  owed : Stored userId p.shared → ∃ t ∈ p.tasks, t.Owes (facts userId held) (removes userId)

section Runs

variable {rules : PresenceRules} {userId : ℤ} {held : Bool} {p p' : Pool Db Op Op.Ans}

theorem Withdrawing.spawn {request : Request} (hw : Withdrawing userId held p) :
    Withdrawing userId held { p with tasks := p.tasks ++ [program rules request] } where
  cautious t ht := (List.mem_append.1 ht).elim (hw.cautious t) fun ht =>
    List.mem_singleton.1 ht ▸ cautious_program request
  unconsented := hw.unconsented
  marked := hw.marked
  settled hheld t ht := (List.mem_append.1 ht).elim (hw.settled hheld t) fun ht =>
    List.mem_singleton.1 ht ▸ settled_program request
  owed hstored := (hw.owed hstored).imp fun _ ht => ⟨List.mem_append_left _ ht.1, ht.2⟩

/-- One operation of a task, in a calm step. -/
theorem Withdrawing.run {i : ℕ} {env : Outside} {op : Op}
    {next : Option op.Ans → PresenceTask Unit} (hw : Withdrawing userId held p)
    (hi : p.tasks[i]? = some (.await op next)) (hop : op ≠ .remember userId true)
    (hclears : Clears userId p.shared op → ∀ t ∈ p.tasks, Settled userId t) :
    ∃ held', Withdrawing userId held'
      ⟨effect env p.shared op, p.tasks.set i (next (some (answer env p.shared op)))⟩ := by
  have hself := List.mem_of_getElem? hi
  have hfacts : facts userId held op (answer env p.shared op) :=
    facts_answer hw.unconsented hw.marked hop
  have hweak : facts userId false op (answer env p.shared op) :=
    facts_answer hw.unconsented (fun h => nomatch h) hop
  have hset : ∀ {K : PresenceTask Unit → Prop}, (∀ t ∈ p.tasks, K t) →
      K (next (some (answer env p.shared op))) →
      ∀ t ∈ p.tasks.set i (next (some (answer env p.shared op))), K t := fun hall hnew t ht =>
    (List.mem_or_eq_of_mem_set ht).elim (hall t) (fun heq => heq ▸ hnew)
  have hcautious := hset hw.cautious ((hw.cautious _ hself).1 _)
  have hsettled : (∀ t ∈ p.tasks, Settled userId t) →
      ∀ t ∈ p.tasks.set i (next (some (answer env p.shared op))), Settled userId t :=
    fun hall => hset hall ((hall _ hself).2 _ hweak)
  -- a row that is stored now was stored before, or the task has just written it
  have howed : Stored userId (effect env p.shared op) →
      ∃ t ∈ p.tasks.set i (next (some (answer env p.shared op))),
        t.Owes (facts userId held) (removes userId) := by
    intro hstored
    rcases stored_effect hstored with ⟨hold, hremoves⟩ | hwrites
    · obtain ⟨t, ht, howes⟩ := hw.owed hold
      rcases Places.eq_or_mem_set hi ht with rfl | hstill
      · exact ⟨_, Places.mem_set_self hi, (howes.resolve_left hremoves) _ hfacts⟩
      · exact ⟨t, hstill, howes⟩
    · cases held with
      | true => exact ⟨_, Places.mem_set_self hi, (hw.cautious _ hself).2 _ hwrites⟩
      | false =>
        exact absurd hwrites (Unexposed.not_writes (hw.settled rfl _ hself).1)
  by_cases hclear : Clears userId p.shared op
  · -- the mark is lost, but every task is settled
    have hall := hsettled (hclears hclear)
    refine ⟨false, hcautious, unconsented_effect hw.unconsented hop, (fun h => nomatch h),
      fun _ => hall, fun hstored => ?_⟩
    obtain ⟨t, ht, howes⟩ := howed hstored
    refine ⟨t, ht, Task.Owes.of_within howes (hall t ht) fun op ans hunexposed hans => ?_⟩
    cases op with
    | withdrawn user => exact fun _ huser => absurd huser hunexposed
    | _ => exact hans
  · refine ⟨held, hcautious, unconsented_effect hw.unconsented hop,
      fun hheld => held_effect (hw.marked hheld) hclear, fun hheld => hsettled (hw.settled hheld),
      howed⟩

theorem Withdrawing.step {notes : List Empty} (hw : ∃ held, Withdrawing userId held p)
    (hstep : CalmStep rules userId p notes p') : ∃ held, Withdrawing userId held p' := by
  obtain ⟨held, hw⟩ := hw
  obtain ⟨ev, hcalm, hact⟩ := hstep
  cases ev with
  | spawn request =>
    obtain ⟨rfl, rfl⟩ : _ = p' ∧ [] = notes := by simpa [Pool.act] using hact
    exact ⟨held, hw.spawn⟩
  | run i env =>
    simp only [Pool.act] at hact
    split at hact
    · rename_i op next hi
      obtain ⟨rfl, rfl⟩ : _ = p' ∧ _ = notes := by simpa using hact
      obtain ⟨hop, hclears⟩ := hcalm op next hi
      exact hw.run hi hop hclears
    · cases hact
  | fail i => exact hcalm.elim
  | drop i => exact hcalm.elim

/-- **Withdrawn consent removes presence for good**: some task, in any run, is about to forget the
user, and marks the withdrawal.  If all steps from there are calm, no presence of the user is
stored once all tasks are done. -/
theorem withdrawn_for_good {db : Db} {p₁ p₂ : Pool Db Op Op.Ans} {h h' notes : List Empty} {i : ℕ}
    {env : Outside} {rest : Unit → PresenceTask Unit}
    (hrun : Run (Step rules) (start db) h p₁)
    (hforget : p₁.tasks[i]? = some (PresenceService.forget userId >>= rest))
    (hmark : Pool.act exec (program rules) p₁ (.run i env) = some (p₂, notes))
    (hcalm : Run (CalmStep rules userId) p₂ h' p) (hquiet : p.quiet = true) :
    ∀ environmentId, p.shared.rows.lookup (userId, environmentId) = none := by
  have hcautious : ∀ t ∈ p₁.tasks, Cautious userId t :=
    Pool.tasks_invariant hrun (by simp [start]) cautious_program fun op next ht r => ht.1 r
  have hmarked : Withdrawing userId true p₂ := by
    rw [PresenceService.forget] at hforget
    simp only [Pool.act, ask, Task.call, bind, Task.bind] at hforget hmark
    simp only [hforget, Option.some.injEq, Prod.mk.injEq] at hmark
    obtain ⟨rfl, -⟩ := hmark
    have hlookup : (p₁.shared.remember userId false env.now).consent.lookup userId =
        some ⟨false, env.now + kConsentCacheSeconds⟩ := by
      rw [lookup_remember, if_pos rfl]
    refine ⟨fun t ht => ?_, fun entry hentry => ?_, fun _ => ?_, (fun h => by cases h), fun _ => ?_⟩
    · rcases List.mem_or_eq_of_mem_set ht with hold | rfl
      · exact hcautious t hold
      · exact (hcautious _ (List.mem_of_getElem? hforget)).1 _
    · change (p₁.shared.remember userId false env.now).consent.lookup userId = some entry at hentry
      rw [hlookup] at hentry
      rw [← Option.some.inj hentry]
    · change ((p₁.shared.remember userId false env.now).consent.lookup userId).isSome
      rw [hlookup]
      rfl
    · exact ⟨_, Places.mem_set_self hforget, .inl rfl⟩
  obtain ⟨held, hw⟩ := hcalm.invariant (J := fun _ p => ∃ held, Withdrawing userId held p)
    ⟨true, hmarked⟩ fun _ _ _ _ hw hstep => Withdrawing.step hw hstep
  intro environmentId
  by_contra hne
  obtain ⟨row, hrow⟩ := Option.ne_none_iff_exists'.1 hne
  obtain ⟨t, ht, howes⟩ := hw.owed ⟨environmentId, row, hrow⟩
  -- a task that is done owes nothing
  have hdone := List.all_eq_true.1 hquiet t ht
  cases t with
  | done result => exact howes
  | await op next => cases hdone

/-- Whether a step keeps the mark in any case. -/
def keepsMark (userId : ℤ) (p : Pool Db Op Op.Ans) : Event Outside Request → Bool
  | .spawn _ => true
  | .run i _ =>
    match p.tasks[i]? with
    | some (.await (.remember user consent) _) =>
      !(user = userId && consent) && !(p.shared.full user && user ≠ userId)
    | _ => true
  | .fail _ | .drop _ => false

theorem calm_of_keepsMark {ev : Event Outside Request} (h : keepsMark userId p ev = true) :
    Calm userId p ev := by
  cases ev with
  | run i env =>
    intro op next hi
    simp only [keepsMark, hi] at h
    cases op with
    | remember user consent =>
      simp only [Bool.and_eq_true, Bool.not_eq_true', Bool.and_eq_false_iff, decide_eq_false_iff_not,
        ne_eq, not_not] at h
      refine ⟨fun heq => ?_, fun hclears => ?_⟩
      · cases heq
        simp at h
      · have hfull : p.shared.full user = true ∧ user ≠ userId := hclears
        simp [hfull.1, hfull.2] at h
    | _ => exact ⟨(fun heq => nomatch heq), fun hclears => hclears.elim⟩
  | spawn request => trivial
  | fail i => cases h
  | drop i => cases h

/-- Play events that keep the mark. -/
def play (rules : PresenceRules) (userId : ℤ) (p : Pool Db Op Op.Ans) :
    List (Event Outside Request) → Option (Pool Db Op Op.Ans)
  | [] => some p
  | ev :: rest =>
    if keepsMark userId p ev then
      (Pool.act exec (program rules) p ev).bind fun r => play rules userId r.1 rest
    else none

theorem run_of_play {p₀ : Pool Db Op Op.Ans} {events : List (Event Outside Request)}
    {h : List Empty} (hrun : Run (CalmStep rules userId) p₀ h p)
    (hplay : play rules userId p events = some p') :
    ∃ h', Run (CalmStep rules userId) p₀ h' p' := by
  induction events generalizing p h with
  | nil => exact ⟨h, Option.some.inj hplay ▸ hrun⟩
  | cons ev rest ih =>
    simp only [play] at hplay
    split at hplay
    · rename_i hkeeps
      obtain ⟨⟨p'', notes⟩, hact, hrest⟩ := Option.bind_eq_some_iff.1 hplay
      exact ih (hrun.next ⟨ev, calm_of_keepsMark hkeeps, hact⟩) hrest
    · cases hplay

end Runs

/-! ### Two runs -/

/-- A sign of the user 7 from the house's network. -/
def homeSignal : PresenceIngestInput := ⟨7, 5, .lanSession, 100⟩

/-- A signal of user 7 passes its consent check, and then the change feed reports a withdrawal. -/
def checked : List (Event Outside Request) :=
  [.spawn (.ingest homeSignal), .run 0 {}, .run 0 {}, .run 0 { consent := some true }, .run 0 {},
   .spawn (.identityChange 7 true (some (true, false)))]

/-- The signal writes the row, sees the mark and removes the row, and the handler finishes. -/
def finished : List (Event Outside Request) :=
  List.replicate 6 (.run 0 {}) ++ List.replicate 2 (.run 1 {})

/-- Where the handler of the change feed is about to forget the user. -/
def checkedPool : Pool Db Op Op.Ans :=
  ((Pool.replay exec (program {}) (start {}) [] checked).map (·.1)).getD (start {})

/-- Once the handler has marked the withdrawal. -/
def markedPool : Pool Db Op Op.Ans :=
  ((Pool.act exec (program {}) checkedPool (.run 1 {})).map (·.1)).getD (start {})

theorem run_checkedPool : Run (Step {}) (start {}) [] checkedPool :=
  Pool.run_of_replay .start (show Pool.replay exec (program {}) (start {}) [] checked =
    some (checkedPool, []) from rfl)

theorem checkedPool_forgets :
    checkedPool.tasks[1]? = some (PresenceService.forget 7 >>= pure) := by
  rw [Task.bind_pure_self]
  rfl

theorem act_checkedPool :
    Pool.act exec (program {}) checkedPool (.run 1 {}) = some (markedPool, []) := rfl

/-- The signal was let in before the withdrawal, and removes what it writes. -/
theorem withdrawn_for_good_checked : ∃ p h, Run (CalmStep {} 7) markedPool h p ∧
    p.quiet = true ∧ ∀ environmentId, p.shared.rows.lookup (7, environmentId) = none := by
  obtain ⟨p, hplay, hquiet⟩ := Option.any_eq_true _ _ |>.1
    (show ((play {} 7 markedPool finished).any fun p => p.quiet) = true from by decide)
  obtain ⟨h, hcalm⟩ := run_of_play .start hplay
  exact ⟨p, h, hcalm, hquiet, withdrawn_for_good run_checkedPool checkedPool_forgets
    act_checkedPool hcalm hquiet⟩

/-- Whether identity reports in this step that the user consents. -/
def reports (userId : ℤ) : Event Outside Request → Bool
  | .spawn (.identityChange user _ privacy) => user = userId && privacy = some (true, true)
  | .run _ env => env.consent = some true || env.consenting.any fun users => users.contains userId
  | _ => false

/-- Identity confirms the consent of user 7, but the answer is not remembered yet. -/
def asked : List (Event Outside Request) :=
  [.spawn (.ingest homeSignal), .run 0 {}, .run 0 {}, .run 0 { consent := some true },
   .spawn (.identityChange 7 true (some (true, false)))]

/-- Where the handler of the change feed is about to forget the user. -/
def askedPool : Pool Db Op Op.Ans :=
  ((Pool.replay exec (program {}) (start {}) [] asked).map (·.1)).getD (start {})

theorem askedPool_forgets : askedPool.tasks[1]? = some (PresenceService.forget 7 >>= pure) := by
  rw [Task.bind_pure_self]
  rfl

/-- The older answer comes after the withdrawal, and the row it lets in stays. -/
theorem old_answer_revives : ¬∀ (rules : PresenceRules) (db : Db) (userId : ℤ)
    (p₁ p₂ p₃ p : Pool Db Op Op.Ans) (h notes h₃ h₄ : List Empty) (i : ℕ) (env : Outside)
    (rest : Unit → PresenceTask Unit) (during after : List (Event Outside Request)),
    Run (Step rules) (start db) h p₁ →
    p₁.tasks[i]? = some (PresenceService.forget userId >>= rest) →
    Pool.act exec (program rules) p₁ (.run i env) = some (p₂, notes) →
    Pool.replay exec (program rules) p₂ [] during = some (p₃, h₃) →
    (p₃.tasks[i]?.any Task.isDone) = true →
    (∀ ev ∈ after, reports userId ev = false) →
    Pool.replay exec (program rules) p₃ [] after = some (p, h₄) → p.quiet = true →
    ∀ environmentId, p.shared.rows.lookup (userId, environmentId) = none := by
  intro hall
  have hrun : Run (Step {}) (start {}) [] askedPool := Pool.run_of_replay .start
    (show Pool.replay exec (program {}) (start {}) [] asked = some (askedPool, []) from rfl)
  have hnone := hall {} {} 7 askedPool _ _ _ [] [] [] [] 1 {} pure
    (List.replicate 2 (.run 1 {})) (List.replicate 5 (.run 0 {})) hrun askedPool_forgets rfl rfl
    rfl (by decide) rfl rfl 5
  exact nomatch hnone

end Presence

end ArgusBackend
