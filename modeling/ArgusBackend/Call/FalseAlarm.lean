import ArgusBackend.Call.Requests

/-!
# A false alarm stops the ringing

The verdict of a false alarm closes the response and then cancels what rings for its key
(`CallEngine.silence`).  A request that read the response before may still open a call.

* `false_alarm_silences` : if the other requests at work when the verdict cancels spare the key
  (`Spares`), no call rings for it afterwards, as long as the response is kept;
* `false_alarm_rings` : an escalation that entered a step before the verdict rings after it.
-/

namespace ArgusBackend

namespace Call

/-- The end of `verdict` for a false alarm that was recorded. -/
def CallEngine.silence (fresh : ResponseRow) (now : ℤ) : Io Unit := do
  cancelRinging { response := fresh, exceptUserId := 0, onlyUserId := 0,
                  reason := "resolved", now := now }
  emitResponse fresh.id
  note (.judged fresh.id .falseAlarm)

/-- The response of the key is a false alarm. -/
structure Sealed (id : ℕ) (key : String) (db : Db) : Prop where
  coherent : ∀ r ∈ db.responses, Coherent r.data r.dedupeKey
  closed : ∃ r ∈ db.responses, r.id = id ∧ r.dedupeKey = key ∧ r.state = .falseAlarm

/-- The task opens no call for the key, whatever it is answered while the response of the key is a
false alarm. -/
def Spares {α : Type} (id : ℕ) (key : String) : Io α → Prop
  | .done _ => True
  | .await op next => (∀ row now, op = .write (.openRinging row now) → row.dedupeKey ≠ key) ∧
    Spares id key (next none) ∧
    ∀ env db, Sealed id key db → Spares id key (next (some (exec env op db).1))

section Spares

variable {α β : Type} {id : ℕ} {key : String}

theorem spares_bind {t : Io α} {f : α → Io β} (ht : Spares id key t)
    (hf : ∀ a, Spares id key (f a)) : Spares id key (t >>= f) := by
  induction t with
  | done result =>
    cases result with
    | none => trivial
    | some a => exact hf a
  | await op next ih =>
    exact ⟨ht.1, ih none ht.2.1, fun env db hsealed => ih (some _) (ht.2.2 env db hsealed)⟩

theorem spares_call {op : Op}
    (h : ∀ row now, op = .write (.openRinging row now) → row.dedupeKey ≠ key) :
    Spares id key (Task.call op : Io op.Ans) :=
  ⟨h, trivial, fun _ _ _ => trivial⟩

theorem spares_each {f : α → Io Unit} {l : List α} (h : ∀ a ∈ l, Spares id key (f a)) :
    Spares id key (Task.each f l) := by
  induction l with
  | nil => trivial
  | cons a l ih =>
    exact spares_bind (h a List.mem_cons_self) fun _ =>
      ih fun b hb => h b (List.mem_cons_of_mem _ hb)

theorem spares_emitResponse (responseId : ℕ) :
    Spares id key (CallEngine.emitResponse responseId) := by
  refine spares_bind (spares_call (by simp)) fun found => ?_
  split
  · trivial
  · refine spares_bind (spares_call (by simp)) fun members => spares_each fun m _ => ?_
    split
    · exact spares_bind (spares_call (by simp)) fun _ => trivial
    · trivial

theorem spares_silence (fresh : ResponseRow) (now : ℤ) :
    Spares id key (CallEngine.silence fresh now) := by
  refine spares_bind ?_ fun _ => spares_bind (spares_emitResponse _) fun _ =>
    spares_call (by simp)
  refine spares_bind (spares_call (by simp)) fun cancelled => spares_each fun call _ => ?_
  exact spares_bind (spares_call (by simp)) fun _ => trivial

end Spares

/-! ### The contract once the response is closed -/

/-- The response was purged. -/
def Gone (id : ℕ) (w : World) : Prop :=
  id < w.2.responses.nextId ∧ ∀ r ∈ w.2.responses, r.id ≠ id

theorem Gone.later {id : ℕ} {w w' : World} (h : Gone id w) (hw : Later w w') : Gone id w' := by
  refine ⟨h.1.trans_le hw.lasting.nextId, fun r' hr' hid => ?_⟩
  obtain ⟨r, hr, hid', -⟩ := hw.lasting.same r' hr' (hid ▸ h.1)
  exact h.2 r hr (hid'.trans hid)

/-- No call is opened for the key while the response is kept. -/
def closedPermit (id : ℕ) (key : String) : Permit where
  may w key' := key' = key → Gone id w
  later := fun hw h hkey => (h hkey).later hw

/-- What an answer tells: the response is purged, or was still there as a false alarm. -/
def closedFact (id : ℕ) (key : String) (w : World) (op : Op) (ans : op.Ans) : Prop :=
  fact (closedPermit id key) w op ans ∧
    (Gone id w ∨ ∃ env db, Sealed id key db ∧ ans = (exec env op db).1)

/-- The contract of the engine, with what a closed response allows. -/
def closedContract (id : ℕ) (key : String) : Contract World Op Op.Ans (Multiset Credit) :=
  { contract (closedPermit id key) with fact := closedFact id key }

section Closed

variable {α : Type} {id : ℕ} {key : String} {permit : Permit} {w : World}

theorem need_of_all {op : Op} (h : need .all w op)
    (hmay : ∀ row now, op = .write (.openRinging row now) → permit.may w row.dedupeKey) :
    need permit w op := by
  cases op with
  | write write =>
    cases write with
    | openRinging row now => exact ⟨h.1, hmay row now rfl, h.2.2⟩
    | _ => exact h
  | note n => cases n <;> exact h
  | _ => exact h

theorem fact_all {op : Op} {ans : op.Ans} (h : fact permit w op ans) : fact .all w op ans := by
  cases op with
  | read r =>
    cases r with
    | responseById id =>
      exact fun r hr => ⟨(h r hr).1, (h r hr).2.1, fun _ => trivial⟩
    | responseByKey key =>
      exact fun r hr => ⟨(h r hr).1, (h r hr).2.1, fun _ => trivial⟩
    | _ => exact h
  | write write =>
    cases write with
    | advance id fromStep toStep deadline now =>
      intro hadvanced
      obtain ⟨r, hr, hid, -⟩ := h hadvanced
      exact ⟨r, hr, hid, trivial⟩
    | verdict id given userId name now =>
      exact fun hrecorded hreal => ⟨(h hrecorded hreal).1, fun _ _ _ => trivial⟩
    | _ => exact h
  | _ => exact h

/-- A request at work that spares the key keeps to the contract of the closed response. -/
theorem safe_of_spares {Q : Option α → Multiset Credit → World → Prop} {t : Io α}
    {m : Multiset Credit} (h : t.Safe (contract .all) Q m w)
    (hspares : Spares id key t ∨ Gone id w) : t.Safe (closedContract id key) Q m w := by
  induction t generalizing m w with
  | done result => exact h
  | await op next ih =>
    obtain ⟨hheld, hneed, hnone, rest, hm, hsome⟩ := h
    refine ⟨hheld, need_of_all hneed fun row now hop hkey => ?_, fun w' hw => ?_, rest, hm,
      fun w' hw ans hans => ?_⟩
    · rcases hspares with hspares | hgone
      · exact absurd hkey (hspares.1 row now hop)
      · exact hgone
    · exact ih none (hnone w' hw) (hspares.imp (fun h => h.2.1) fun h => h.later hw)
    · obtain ⟨hfact, hgone | ⟨env, db, hsealed, rfl⟩⟩ := hans
      · exact ih (some ans) (hsome w' hw ans (fact_all hfact)) (.inr hgone)
      · refine ih (some _) (hsome w' hw _ (fact_all hfact)) ?_
        exact hspares.imp (fun h => h.2.2 env db hsealed) fun h => h.later hw

end Closed

/-! ### From the cancel on -/

/-- No call of the key rings. -/
def Silent (key : String) (db : Db) : Prop :=
  ∀ c ∈ db.calls, c.dedupeKey = key → c.state ≠ .ringing

/-- The response was purged, or it is a false alarm and nothing rings for its key. -/
def Quiet (id : ℕ) (key : String) (h : List Note) (db : Db) : Prop :=
  Gone id (h, db) ∨ (Sealed id key db ∧ Silent key db)

section Exec

variable {id : ℕ} {key : String} {h : List Note} {db : Db} {m : Multiset Credit}

theorem Evolved.falseAlarm {notes : List Note} {r r' : ResponseRow} (h : Evolved notes r r')
    (hfalse : r.state = .falseAlarm) : r'.state = .falseAlarm := by
  rcases h.state with hstate | hmoves
  · exact hstate.trans hfalse
  · simp [hfalse, responseMoves] at hmoves

/-- The response of the key is a false alarm after an operation, or it is purged. -/
theorem Sealed.later (hsealed : Sealed id key db) {op : Op}
    (hneed : need (closedPermit id key) (h, db) op) (env : Env)
    (hsettled' : Settled (h ++ (exec env op db).2.1) (exec env op db).2.2 m) :
    Gone id (h ++ (exec env op db).2.1, (exec env op db).2.2) ∨
      Sealed id key (exec env op db).2.2 := by
  obtain ⟨r, hr, hid, hkey, hfalse⟩ := hsealed.closed
  by_cases hkept : ∃ r' ∈ (exec env op db).2.2.responses, r'.id = id
  · obtain ⟨r', hr', hid'⟩ := hkept
    refine .inr ⟨hsettled'.coherent, r', hr', hid', ?_⟩
    have hevolved : Evolved (exec env op db).2.1 r r' := by
      cases op with
      | write w =>
        rcases evolved_run (climbs_of_need hneed) hr' with ⟨r₀, hr₀, hevolved⟩ | ⟨hnew, -⟩
        · exact Rows.eq_of_id hr₀ hr (hevolved.id.symm.trans (hid'.trans hid.symm)) ▸ hevolved
        · have := Rows.id_lt hr
          omega
      | _ => exact Rows.eq_of_id hr' hr (hid'.trans hid.symm) ▸ Evolved.refl _ r'
    exact ⟨hevolved.dedupeKey.trans hkey, hevolved.falseAlarm hfalse⟩
  · refine .inl ⟨?_, fun r' hr' hid' => hkept ⟨r', hr', hid'⟩⟩
    exact (hid ▸ Rows.id_lt hr).trans_le (later_exec hneed env).lasting.nextId

/-- Nothing starts to ring for the key of the closed response. -/
theorem Silent.later (hsilent : Silent key db) (hkept : ¬Gone id (h, db)) {op : Op}
    (hneed : need (closedPermit id key) (h, db) op) (env : Env) :
    Silent key (exec env op db).2.2 := by
  cases op with
  | write w =>
    intro c' hc' hkey hringing
    rcases (effect_run db (allowed_of_need hneed)).of_mem hc' with
      ⟨c, hc, hsame, hbecame⟩ | ⟨-, hinserted⟩
    · exact hsilent c hc (hsame.dedupeKey.symm.trans hkey) (hbecame.of_ringing hringing)
    · cases hinserted with
      | ringing row now hw _ _ hrow _ _ _ =>
        subst hw
        exact hkept (hneed.2.1 (hrow.symm.trans hkey))
      | queued hqueued => simp [hqueued] at hringing
      | injected hinjected => simp [hinjected] at hringing
  | _ => exact hsilent

/-- An open response of the key is not the closed one. -/
theorem Sealed.not_open (hsealed : Sealed id key db) {r : ResponseRow} (hr : r ∈ db.responses)
    (hkey : r.dedupeKey = key) : responseOpen r.state = false := by
  obtain ⟨r₀, hr₀, -, hkey₀, hfalse⟩ := hsealed.closed
  rw [Rows.eq_of_key hr hr₀ (hkey.trans hkey₀.symm), hfalse]
  rfl

/-- The step lemma: every operation keeps the key quiet. -/
theorem Quiet.later (hquiet : Quiet id key h db) {op : Op}
    (hsettled : Settled h db (m + cost op)) (hneed : need (closedPermit id key) (h, db) op)
    (env : Env) :
    Quiet id key (h ++ (exec env op db).2.1) (exec env op db).2.2 ∧
      closedFact id key (h ++ (exec env op db).2.1, (exec env op db).2.2) op
        (exec env op db).1 := by
  have hlater := later_exec hneed env
  rcases hquiet with hgone | ⟨hsealed, hsilent⟩
  · have hgone' := hgone.later hlater
    exact ⟨.inl hgone', fact_exec hsettled hneed env fun _ _ _ _ => hgone', .inl hgone'⟩
  have hkept : ¬Gone id (h, db) := by
    obtain ⟨r, hr, hid, -⟩ := hsealed.closed
    exact fun hgone => hgone.2 r hr hid
  have hsealed' := hsealed.later hneed env (settled_exec hsettled hneed env)
  refine ⟨hsealed'.imp (fun h => h) fun h => ⟨h, hsilent.later hkept hneed env⟩,
    fact_exec hsettled hneed env fun r hr hopen hkey => ?_, .inr ⟨env, db, hsealed, rfl⟩⟩
  rcases hsealed' with hgone | hsealed'
  · exact hgone
  · rw [hsealed'.not_open hr hkey] at hopen
    cases hopen

end Exec

section Runs

variable {e : CallEngine} {clock now : ℤ} {h notes h' : List Note} {p p' p'' : Pool Db Op Op.Ans}

/-- The cancel of a verdict leaves nothing ringing for the key. -/
theorem Settled.silent_cancel {db : Db} {m : Multiset Credit} (hsettled : Settled h db m)
    (key reason : String) (now : ℤ) :
    Silent key (Write.run db (.cancelRingingForKey key 0 0 reason now)).2.2 := by
  intro c hc hkey hringing
  obtain ⟨hmem, hnot⟩ := ringing_of_setCalls (by decide) (ringing_of_cancel hc hringing) hringing
  have huser := hsettled.owned c hmem hringing
  simp [Db.ringingForKey, hkey, hringing, huser.ne'] at hnot

/-- **A false alarm stops the ringing**, if the other requests at work when the verdict cancels
spare the key, and no later request brings it itself. -/
theorem false_alarm_silences (hclock : 0 < clock) (hrun : Run (Step e) (start clock) h p)
    {i : ℕ} {env : Env} {response fresh : ResponseRow} (hresponse : response ∈ p.shared.responses)
    (hfalse : response.state = .falseAlarm) (hkey : fresh.dedupeKey = response.dedupeKey)
    (hverdict : p.tasks[i]? = some (CallEngine.silence fresh now))
    (hcancel : Pool.act exec (program e) p (.run i env) = some (p', notes))
    (hspares : ∀ j ≠ i, ∀ t, p.tasks[j]? = some t → Spares response.id response.dedupeKey t)
    (hrun' : Run (Pool.Step exec fun request : { request : Request //
      ¬request.Brings response.dedupeKey } => program e request) p' h' p'')
    (hkept : ∃ r ∈ p''.shared.responses, r.id = response.id) :
    Silent response.dedupeKey p''.shared := by
  obtain ⟨ms, lost, htended, hlost, hsettled, -⟩ := tended_of_run (J := fun _ _ => True) hclock
    (hrun.next ⟨_, hcancel⟩) (fun _ _ => trivial) trivial (fun _ _ _ _ _ _ _ _ => trivial)
    fun _ _ _ _ _ _ _ _ => trivial
  obtain ⟨m, -, hsettled₀⟩ := settled_of_run hclock hrun
  have hsealed : Sealed response.id response.dedupeKey p.shared :=
    ⟨hsettled₀.coherent, response, hresponse, rfl, rfl, hfalse⟩
  obtain ⟨next, hsilence⟩ : ∃ next, CallEngine.silence fresh now =
      .await (.write (.cancelRingingForKey fresh.dedupeKey 0 0 "resolved" now)) next := ⟨_, rfl⟩
  have hspare : Spares response.id response.dedupeKey (CallEngine.silence fresh now) :=
    spares_silence fresh now
  rw [hsilence] at hverdict hspare
  rw [Pool.act, hverdict] at hcancel
  obtain ⟨rfl, rfl⟩ : _ = p' ∧ _ = notes := by simpa using hcancel
  -- once it has cancelled, every request at work spares the key
  have hall : ∀ t ∈ p.tasks.set i (next (some (exec env _ p.shared).1)),
      Spares response.id response.dedupeKey t := by
    intro t ht
    obtain ⟨j, hj⟩ := List.mem_iff_getElem?.1 ht
    rw [List.getElem?_set] at hj
    split_ifs at hj with hji hlt
    · exact Option.some.inj hj ▸ hspare.2.2 env p.shared hsealed
    · exact hspares j (Ne.symm hji) t hj
  have hquiet₀ : Quiet response.id response.dedupeKey (h ++ (Write.run p.shared
      (.cancelRingingForKey fresh.dedupeKey 0 0 "resolved" now)).2.1) (Write.run p.shared
      (.cancelRingingForKey fresh.dedupeKey 0 0 "resolved" now)).2.2 := by
    refine .inr ⟨⟨hsettled.coherent, response, ?_, rfl, rfl, hfalse⟩, ?_⟩
    · have hsame : (Write.run p.shared (.cancelRingingForKey fresh.dedupeKey 0 0 "resolved"
          now)).2.2.responses = p.shared.responses := (foldl_settle _ _).2.1
      exact hsame ▸ hresponse
    · exact hkey ▸ hsettled₀.silent_cancel fresh.dedupeKey "resolved" now
  have hprogram : ∀ (request : { request : Request // ¬request.Brings response.dedupeKey }) w,
      (program e request).Safe (contract (closedPermit response.id response.dedupeKey))
        (fun _ _ _ => True) 0 w := fun request w =>
    safe_program e request fun dedupeKey hbrings hsame => absurd (hsame ▸ hbrings) request.2
  obtain ⟨-, -, -, -, -, hquiet⟩ := Pool.invariant
    (C := closedContract response.id response.dedupeKey)
    (I := fun h db m => Settled h db m ∧ Quiet response.id response.dedupeKey h db) hrun'
    (fun _ _ => trivial)
    (htended.imp fun m t ht hsafe => safe_of_spares hsafe (.inl (hall t ht)))
    hlost ⟨hsettled, hquiet₀⟩
    (fun h db m env op hboth hneed _ =>
      have hafter := hboth.2.later hboth.1 hneed env
      ⟨⟨settled_exec hboth.1 hneed env, hafter.1⟩, hafter.2, later_exec hneed env⟩)
    fun request w => (hprogram request w).of_fact fun _ _ _ h => h.1
  rcases hquiet with hgone | ⟨-, hsilent⟩
  · obtain ⟨r, hr, hid⟩ := hkept
    exact absurd hid (hgone.2 r hr)
  · exact hsilent

/-- A guard calls one user, who reports a false alarm; the verdict is about to cancel. -/
def closing : Option (Pool Db Op Op.Ans × List Note) :=
  Pool.replay exec (program plainEngine) (start 100) []
    (requested (.respond { data := guardData "a" "critical", userIds := [7],
                           plan := some (ladder [7]) }) 0 20 ++
      requested (.verdict { responseId := 1, userId := 7, verdict := .falseAlarm }) 1 5)

/-- The call of a user who reports a false alarm stops ringing. -/
theorem false_alarm_silences_once : ∃ p : Pool Db Op Op.Ans,
    (∃ r ∈ p.shared.responses, r.id = 1 ∧ r.state = .falseAlarm) ∧
      p.shared.calls.rows.length = 1 ∧ Silent "a" p.shared := by
  -- the tables and the requests when the verdict cancels
  have hclosing : (closing.any fun r => r.1.shared.responses.rows.head?.any
      fun response => response.id = 1 ∧ response.state = .falseAlarm ∧
        response.dedupeKey = "a") = true := by
    decide +kernel
  have htasks : (closing.map fun r => r.1.tasks[1]?) = closing.map fun r =>
      r.1.shared.responses.rows.head?.map fun fresh => CallEngine.silence fresh 100 := rfl
  have hothers : (closing.map fun r => r.1.tasks[0]?) = closing.map fun _ =>
      some (.done (some ())) := rfl
  have hlength : (closing.map fun r => r.1.tasks.length) = closing.map fun _ => 2 := rfl
  have hrest : ((closing.bind fun r => Pool.act exec (program plainEngine) r.1 (.run 1 {})).bind
      fun r => Pool.replay exec (fun request : { request : Request // ¬request.Brings "a" } =>
        program plainEngine request) r.1 [] (List.replicate 5 (.run 1 {}))).any (fun r =>
          r.1.shared.responses.rows.any (fun response => response.id = 1 ∧
            response.state = .falseAlarm) ∧ r.1.shared.calls.rows.length = 1) = true := by
    decide +kernel
  obtain ⟨⟨p, h⟩, hp, hfalse⟩ := (Option.any_eq_true _ _).1 hclosing
  simp only [hp, Option.map_some, Option.some.injEq, Option.bind_some] at htasks hothers hlength hrest
  obtain ⟨response, hhead, hstate⟩ := (Option.any_eq_true _ _).1 hfalse
  obtain ⟨hone', hstate, hkey⟩ := of_decide_eq_true hstate
  obtain ⟨⟨p'', h'⟩, hbind, hend⟩ := (Option.any_eq_true _ _).1 hrest
  obtain ⟨⟨p', notes⟩, hcancel, hreplay⟩ := Option.bind_eq_some_iff.1 hbind
  simp only [decide_eq_true_eq, List.any_eq_true] at hend
  obtain ⟨⟨r, hr, hid, hclosed⟩, hone⟩ := hend
  rw [hhead] at htasks
  have hresponse : response ∈ p.shared.responses := List.mem_of_mem_head? hhead
  refine ⟨p'', ⟨r, hr, hid, hclosed⟩, hone, ?_⟩
  rw [← hkey] at hreplay ⊢
  refine false_alarm_silences (by decide) (Pool.run_of_replay .start hp) hresponse hstate rfl htasks
    hcancel (fun j hj t ht => ?_) (Pool.run_of_replay .start hreplay) ⟨r, hr, hid.trans hone'.symm⟩
  obtain rfl : j = 0 := by
    have := (List.getElem?_eq_some_iff.1 ht).1
    omega
  obtain rfl := Option.some.inj (hothers.symm.trans ht)
  trivial

/-- An escalation that entered a step before a false alarm rings after it. -/
theorem false_alarm_rings : ¬∀ (e : CallEngine) (clock : ℤ) (h : List Note)
    (p : Pool Db Op Op.Ans), 0 < clock → Run (Step e) (start clock) h p →
    ∀ id, .judged id .falseAlarm ∈ h → ∀ r ∈ p.shared.responses, r.id = id →
      Silent r.dedupeKey p.shared := by
  intro hall
  obtain ⟨h, p, hrun, hend⟩ := exists_run plainEngine 100
    (requested (.respond { data := guardData "a" "critical", userIds := [7],
                           plan := some (ladder [7, 8]) }) 0 20 ++
      requested (.tick 40) 1 1 ++
      [.spawn .sweep] ++ List.replicate 12 (.run 2 {}) ++
      requested (.verdict { responseId := 1, userId := 7, verdict := .falseAlarm }) 3 12 ++
      List.replicate 10 (.run 2 {}))
    (fun p h => decide (.judged 1 .falseAlarm ∈ h) &&
      p.shared.responses.rows.any (fun r => r.id = 1 ∧ r.dedupeKey = "a") &&
      p.shared.calls.rows.any fun c => c.dedupeKey = "a" ∧ c.state = .ringing)
    (by decide +kernel)
  simp only [Bool.and_eq_true, List.any_eq_true, decide_eq_true_eq] at hend
  obtain ⟨⟨hjudged, r, hr, hid, hkey⟩, c, hc, hcall, hringing⟩ := hend
  exact hall plainEngine 100 h p (by decide) hrun 1 hjudged r hr hid c hc
    (hcall.trans hkey.symm) hringing

end Runs

end Call

end ArgusBackend
