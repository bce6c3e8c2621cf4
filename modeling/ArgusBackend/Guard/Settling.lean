import ArgusBackend.Guard.Effects
import ArgusBackend.Library.Chronicles

/-!
# Effects settle once

* `EffectsSettle` : no remote call carries the id of a settled command, the requests of one id are
  one request, and what the remote side holds is not refused by the hourly cap;
* `InBudget` : a command that the remote side holds finds room in the budget;
* `effects_settle` : effects settle once in every run whose budget checks do.
-/

namespace ArgusBackend

namespace Guard

/-- The row says that the hourly cap refused its command. -/
def OutboxRow.Capped (row : OutboxRow) : Prop :=
  row.status = .rejected ∧ row.detail = "hourly_cap" ∧
    ∃ result, row.response = some result ∧ result.authorized = false

/-- What holds of the intents after any run. -/
structure EffectsSettle (h : List Note) (s : GuardStore) : Prop where
  /-- a row that is terminal was settled for good, and after that nothing is called -/
  terminal : ∀ id row, s.outbox.lookup id = some row →
    guardIntentStatusIsTerminal row.status = true → .settled id ∈ h
  quiet : Chronicle (fun before n => ∀ id, n = .called id → .settled id ∉ before) h
  same : ∀ id id' r r', .notified id r ∈ h → .notified id' r' ∈ h → r.commandId = r'.commandId → r = r'
  uncapped : ∀ id row, s.outbox.lookup id = some row → row.Capped → ¬s.Holds id

/-- A command that the remote side holds finds room in the budget. -/
def InBudget (config : GuardConfig) (s : GuardStore) (k : Phase) : Op → Prop
  | .effectsSince cameraId since => ∀ row, k = .planned row → s.Holds row.commandId →
    (s.effectsSince cameraId since : ℤ) < config.maxActionsPerHour
  | _ => True

instance (config : GuardConfig) (s : GuardStore) (k : Phase) (op : Op) :
    Decidable (InBudget config s k op) :=
  match k, op with
  | .planned row, .effectsSince cameraId since =>
    decidable_of_iff (s.Holds row.commandId →
      (s.effectsSince cameraId since : ℤ) < config.maxActionsPerHour)
      ⟨fun hroom _ heq => Phase.planned.inj heq ▸ hroom, fun hall => hall row rfl⟩
  | .fresh, .effectsSince _ _ | .capped _, .effectsSince _ _ | .settled, .effectsSince _ _ =>
    .isTrue fun _ heq => Phase.noConfusion heq
  | _, .drawSequence | _, .selectOutbox _ | _, .selectSibling _ _ | _, .insertOutbox _
  | _, .nowMillis | _, .camera _ _ | _, .recipientsFor _ | _, .setOutboxPayload _ _
  | _, .createNotifications _ _ | _, .insertAction _ | _, .updateOutbox _ _ => .isTrue trivial

/-! ### Ids -/

/-- The ids of commands end in a number. -/
def IsCommandId (id : String) : Prop :=
  ∃ c rest, id.toList.reverse = c :: rest ∧ c.isDigit = true

theorem isCommandId_append (start : String) (n : ℕ) : IsCommandId (start ++ toString n) := by
  have hne : (Nat.toDigits 10 n).reverse ≠ [] := by simp
  obtain ⟨c, rest, hdigits⟩ := List.exists_cons_of_ne_nil hne
  refine ⟨c, rest ++ start.toList.reverse, ?_, ?_⟩
  · have hlist : (toString n).toList = Nat.toDigits 10 n := by simp
    rw [String.toList_append, List.reverse_append, hlist, hdigits, List.cons_append]
  · have hmem : c ∈ Nat.toDigits 10 n := by
      rw [← List.mem_reverse, hdigits]
      exact List.mem_cons_self
    exact Nat.isDigit_of_mem_toDigits (by decide) (by decide) hmem

/-- What may stand behind the id of a command, from its end. -/
def endings : List (List Char) :=
  [[], ['n', 'e', ':'], ['r', ':', 'n', 'e', ':'], ['s', 'e', ':'], ['r', ':', 's', 'e', ':']]

theorem endings_inj {e e' : List Char} (he : e ∈ endings) (he' : e' ∈ endings) {c c' : Char}
    {rest rest' : List Char} (hc : c.isDigit = true) (hc' : c'.isDigit = true)
    (heq : e ++ c :: rest = e' ++ c' :: rest') : e = e' ∧ c :: rest = c' :: rest' := by
  have hletter : ∀ c : Char, c.isDigit = true → c ≠ 'n' ∧ c ≠ 'r' ∧ c ≠ 's' := by
    rintro c hdigit
    refine ⟨?_, ?_, ?_⟩ <;> rintro rfl <;> exact absurd hdigit (by decide)
  have hne := hletter c hc
  have hne' := hletter c' hc'
  simp only [endings, List.mem_cons, List.not_mem_nil, or_false] at he he'
  rcases he with rfl | rfl | rfl | rfl | rfl <;> rcases he' with rfl | rfl | rfl | rfl | rfl <;>
    simp only [List.nil_append, List.cons_append, List.cons.injEq] at heq ⊢ <;> grind

/-- No two deliveries have the same audience. -/
def Payload.Apart (p : Payload) : Prop := (p.batches.map fun d => (d.lang, d.redacted)).Nodup

section Requests

variable {id id' : String} {p p' : Payload} {d d' : Delivery}

/-- What stands behind the command's id in the id of a request, from its end. -/
def ending (p : Payload) (d : Delivery) : List Char :=
  if p.batches.length = 1 then [] else (suffixOf d.lang d.redacted).toList.reverse

theorem ending_mem : ending p d ∈ endings := by
  unfold ending
  split
  · decide
  · cases d.lang <;> cases d.redacted <;> decide

theorem requestOf_id : (requestOf id p d).commandId.toList.reverse =
    ending p d ++ id.toList.reverse := by
  unfold requestOf ending
  split <;> simp

theorem suffixOf_inj : ∀ {lang lang' : Lang} {redacted redacted' : Bool},
    suffixOf lang redacted = suffixOf lang' redacted' → (lang, redacted) = (lang', redacted') := by
  intro lang lang' redacted redacted'
  cases lang <;> cases lang' <;> cases redacted <;> cases redacted' <;> decide

/-- Requests of one id are of one command. -/
theorem requestOf_inj (hid : IsCommandId id) (hid' : IsCommandId id')
    (h : (requestOf id p d).commandId = (requestOf id' p' d').commandId) :
    id = id' ∧ ending p d = ending p' d' := by
  obtain ⟨c, rest, hrest, hc⟩ := hid
  obtain ⟨c', rest', hrest', hc'⟩ := hid'
  have hlist := congrArg (fun s : String => s.toList.reverse) h
  simp only [requestOf_id, hrest, hrest'] at hlist
  obtain ⟨hending, htail⟩ := endings_inj ending_mem ending_mem hc hc' hlist
  rw [← hrest, ← hrest', List.reverse_inj] at htail
  exact ⟨String.toList_inj.1 htail, hending⟩

theorem delivery_inj (hapart : p.Apart) (hd : d ∈ p.batches) (hd' : d' ∈ p.batches)
    (h : ending p d = ending p d') : d = d' := by
  unfold ending at h
  split at h
  next hone =>
    obtain ⟨x, hx⟩ := List.length_eq_one_iff.1 hone
    rw [hx] at hd hd'
    rw [List.mem_singleton.1 hd, List.mem_singleton.1 hd']
  next =>
    rw [List.reverse_inj] at h
    exact List.inj_on_of_nodup_map hapart hd hd' (suffixOf_inj (String.toList_inj.1 h))

theorem batchesOf_apart {users : List Recipient} :
    ((batchesOf users).map fun b => (b.lang, b.redacted)).Nodup := by
  have hsub : ((batchesOf users).map fun b => (b.lang, b.redacted)).Sublist audiences := by
    unfold batchesOf
    generalize audiences = l
    induction l with
    | nil => exact List.Sublist.slnil
    | cons audience l ih =>
      simp only [List.filterMap_cons]
      split
      next => exact ih.cons _
      next batch hbatch =>
        split at hbatch
        · cases hbatch
        · obtain rfl := Option.some.inj hbatch
          exact ih.cons_cons _
  exact hsub.nodup (by decide)

theorem payloadOf_apart {config : GuardConfig} {content : NotifyContent} {users : List Recipient}
    {plan : Option String} : (payloadOf config content users plan).Apart := by
  unfold Payload.Apart payloadOf
  rw [List.map_map]
  exact batchesOf_apart

end Requests

/-! ### What a try keeps to -/

/-- The intent is not settled. -/
def OutboxRow.Open (row : OutboxRow) : Prop := guardIntentStatusIsTerminal row.status = false

/-- The hourly budget has refused the action. -/
def EffectResult.Capped (result : EffectResult) : Prop :=
  result.status = .rejected ∧ result.authorized = false ∧ result.detail = "hourly_cap"

/-- The operations that each phase of a try allows, and what they answer. -/
def protocol (config : GuardConfig) : Protocol (Phase.after config) where
  allowed k op :=
    match op with
    | .selectOutbox id => k = .fresh ∧ IsCommandId id
    | .selectSibling _ _ => k = .fresh
    | .insertOutbox id => k = .fresh ∧ IsCommandId id
    | .camera id _ => ∃ row, k = .planned row ∧ row.commandId = id ∧ row.Open
    | .createNotifications id request => ∃ row p d, k = .planned row ∧ row.commandId = id ∧
        row.Open ∧ row.payload = some p ∧ d ∈ p.batches ∧ request = requestOf id p d
    | .setOutboxPayload id p => ∃ row, k = .planned row ∧ row.commandId = id ∧ row.Open ∧
        row.payload = none ∧ p.Apart
    | .updateOutbox id result => ∃ row, row.commandId = id ∧ row.Open ∧
        ((k = .planned row ∧ ¬result.Capped) ∨ k = .capped row)
    | _ => True

section Protocol

variable {config : GuardConfig} {k : Phase} {row : OutboxRow} {input : EffectInput}

theorem obeys_makeCommandId :
    (makeCommandId input).Obeys (protocol config)
      (fun r k => k = .fresh ∧ ∀ id, r = some id → IsCommandId id) .fresh := by
  unfold makeCommandId
  split
  next =>
    refine ⟨rfl, fun id hid => ?_⟩
    obtain rfl := Option.some.inj hid
    exact isCommandId_append _ _
  next =>
    refine Task.obeys_call trivial (fun _ => ⟨rfl, fun _ h => (nomatch h)⟩) fun n _ =>
      ⟨rfl, fun id hid => ?_⟩
    obtain rfl := Option.some.inj hid
    exact isCommandId_append _ _

/-- The row that a plan comes to is the one in its phase. -/
def Plans (r : Option (Option OutboxRow)) (k : Phase) : Prop :=
  (∀ row, r = some (some row) → k = .planned row) ∧ (r = some none → k = .fresh)

theorem plans_throw : Plans none k := ⟨fun _ h => (nomatch h), fun h => (nomatch h)⟩

theorem plans_none : Plans (some none) .fresh := ⟨fun _ h => (nomatch h), fun _ => rfl⟩

theorem plans_row : Plans (some (some row)) (.planned row) :=
  ⟨fun _ h => by cases h; rfl, fun h => (nomatch h)⟩

theorem obeys_adopt {id : String} : (adopt id).Obeys (protocol config) Plans .fresh := by
  unfold adopt
  split
  next parts _ =>
    split
    next =>
      refine Task.obeys_last rfl fun r _ => ?_
      match r with
      | none => exact plans_throw
      | some none => exact plans_none
      | some (some row) => exact plans_row
    next => exact plans_none
  next => exact plans_none

theorem obeys_planIntent {id : String} (hid : IsCommandId id) :
    (planIntent id).Obeys (protocol config) Plans .fresh := by
  refine Task.obeys_call ⟨rfl, hid⟩ (fun _ => plans_throw) fun row _ => ?_
  cases row with
  | some row => exact plans_row
  | none =>
    refine Task.obeys_bind obeys_adopt (fun _ _ => plans_throw) fun legacy k hk => ?_
    cases legacy with
    | some row =>
      obtain rfl := hk.1 row rfl
      exact plans_row
    | none =>
      obtain rfl := hk.2 rfl
      refine Task.obeys_call ⟨rfl, hid⟩ (fun _ => plans_throw) fun _ _ => ?_
      refine Task.obeys_last ⟨rfl, hid⟩ fun r _ => ?_
      match r with
      | none => exact plans_throw
      | some none => exact plans_none
      | some (some row) => exact plans_row

theorem authorize_reason : (allowedNow config input).reason ≠ "hourly_cap" := by
  unfold allowedNow
  split
  next => decide
  next =>
    unfold authorize
    cases input.kind <;> simp only <;> (try split) <;> (try split) <;> simp

/-- What the check of the budget comes to. -/
def Budgets (row : OutboxRow) (r : Option GuardActionDecision) (k : Phase) : Prop :=
  ∀ decision, r = some decision → (k = .planned row ∧ decision.reason ≠ "hourly_cap") ∨
    (k = .capped row ∧ decision.authorized = false)

theorem obeys_withinBudget :
    (withinBudget config input (allowedNow config input)).Obeys (protocol config) (Budgets row)
      (.planned row) := by
  have hplain : Budgets row (some (allowedNow config input)) (.planned row) := by
    rintro decision hdecision
    obtain rfl := Option.some.inj hdecision
    exact .inl ⟨rfl, authorize_reason⟩
  unfold withinBudget
  split
  next =>
    refine Task.obeys_call trivial (fun _ _ h => (nomatch h)) fun used _ => ?_
    simp only [Phase.after]
    split
    next =>
      rintro decision hdecision
      obtain rfl := Option.some.inj hdecision
      exact .inr ⟨rfl, rfl⟩
    next => exact hplain
  next => exact hplain

/-- The phase of an intent that is under way. -/
def UnderWay (id : String) (k : Phase) : Prop :=
  ∃ row, k = .planned row ∧ row.commandId = id ∧ row.Open

theorem obeys_deliver {p : Payload} (hopen : row.Open) (hpayload : row.payload = some p)
    {rest : List Delivery} (hrest : rest ⊆ p.batches) :
    (deliver row.commandId p rest).Obeys (protocol config) (fun _ => UnderWay row.commandId)
      (.planned row) := by
  induction rest with
  | nil => exact ⟨row, rfl, rfl, hopen⟩
  | cons d rest ih =>
    refine Task.obeys_call ⟨row, p, d, rfl, rfl, hopen, hpayload, hrest List.mem_cons_self, rfl⟩
      (fun _ => ⟨row, rfl, rfl, hopen⟩) fun result _ => ?_
    split
    next => exact ⟨row, rfl, rfl, hopen⟩
    next =>
      split
      next => exact ⟨row, rfl, rfl, hopen⟩
      next => exact ih fun d' hd' => hrest (List.mem_cons_of_mem _ hd')

theorem obeys_notify {content : NotifyContent} (hopen : row.Open) :
    (notify config row content).Obeys (protocol config) (fun _ => UnderWay row.commandId)
      (.planned row) := by
  have hstay : UnderWay row.commandId (.planned row) := ⟨row, rfl, rfl, hopen⟩
  unfold notify
  split
  next => exact hstay
  next =>
    split
    next p hp =>
      split
      next => exact obeys_deliver hopen hp fun _ h => h
      next => exact hstay
    next hnone =>
      refine Task.obeys_call trivial (fun _ => hstay) fun resolution _ => ?_
      cases resolution with
      | unavailable => exact hstay
      | planned users plan =>
        simp only
        split
        next => exact hstay
        next =>
          refine Task.obeys_call ⟨row, rfl, rfl, hopen, hnone, payloadOf_apart⟩ (fun _ => hstay)
            fun persisted _ => ?_
          cases persisted with
          | false => exact hstay
          | true =>
            let row' := { row with payload := some (payloadOf config content users plan) }
            have hopen' : row'.Open := hopen
            exact obeys_deliver hopen' rfl fun _ h => h

theorem obeys_execute (hopen : row.Open) :
    (execute config row input).Obeys (protocol config)
      (fun r k => UnderWay row.commandId k ∧ ∀ result, r = some result → result.authorized = true)
      (.planned row) := by
  unfold execute
  split
  next =>
    refine Task.obeys_bind (obeys_notify hopen) (fun k hk => ⟨hk, fun _ h => (nomatch h)⟩)
      fun sent k hk => ⟨hk, fun result hresult => ?_⟩
    obtain rfl := Option.some.inj hresult
    rfl
  next =>
    refine Task.obeys_call ⟨row, rfl, rfl, hopen⟩
      (fun _ => ⟨⟨row, rfl, rfl, hopen⟩, fun _ h => (nomatch h)⟩) fun ack _ =>
        ⟨⟨row, rfl, rfl, hopen⟩, fun result hresult => ?_⟩
    obtain rfl := Option.some.inj hresult
    rfl

theorem obeys_settle {result : EffectResult} {intent : OutboxRow}
    (hk : ∃ row, row.commandId = intent.commandId ∧ row.Open ∧
      ((k = .planned row ∧ ¬result.Capped) ∨ k = .capped row)) :
    (settle intent input result).Obeys (protocol config) (fun _ _ => True) k := by
  refine Task.obeys_call trivial (fun _ => trivial) fun _ _ => ?_
  refine Task.obeys_call hk (fun _ => trivial) fun updated _ => ?_
  cases updated <;> trivial

theorem obeys_attemptRow (hopen : row.Open) :
    (attempt config row input).Obeys (protocol config) (fun _ _ => True) (.planned row) := by
  refine Task.obeys_call trivial (fun _ => trivial) fun nowMs _ => ?_
  split
  next => trivial
  next =>
    refine Task.obeys_bind obeys_withinBudget (fun _ _ => trivial) fun decision k hk => ?_
    rcases hk decision rfl with ⟨rfl, hreason⟩ | ⟨rfl, hrefused⟩
    · split
      next =>
        refine Task.obeys_bind (obeys_execute hopen) (fun _ _ => trivial) fun result k hk => ?_
        obtain ⟨⟨row', rfl, hid, hopen'⟩, hauthorized⟩ := hk
        refine obeys_settle ⟨row', hid, hopen', .inl ⟨rfl, fun hcapped => ?_⟩⟩
        have hfalse : result.authorized = false := hcapped.2.1
        simp [hauthorized result rfl] at hfalse
      next => exact obeys_settle ⟨row, rfl, hopen, .inl ⟨rfl, fun hcapped => hreason hcapped.2.2⟩⟩
    · rw [if_neg (by simp [hrefused])]
      exact obeys_settle ⟨row, rfl, hopen, .inr rfl⟩

theorem obeys_performEffect :
    (performEffect config input).Obeys (protocol config) (fun _ _ => True) .fresh := by
  refine Task.obeys_bind obeys_makeCommandId (fun _ _ => trivial) fun id k hk => ?_
  obtain ⟨rfl, hid⟩ := hk
  refine Task.obeys_bind (obeys_planIntent (hid id rfl)) (fun _ _ => trivial) fun intent k hk => ?_
  cases intent with
  | none => trivial
  | some intent =>
    obtain rfl := hk.1 intent rfl
    simp only
    split
    next => trivial
    next hopen => exact obeys_attemptRow (by simpa [OutboxRow.Open] using hopen)

theorem obeys_program (input : EffectInput) :
    ((workshop config).program input).Obeys (protocol config) (fun _ _ => True) .fresh :=
  Task.obeys_bind obeys_performEffect (fun _ _ => trivial) fun _ _ _ => trivial

end Protocol

/-! ### What every run keeps -/

/-- What the phase says about the store. -/
def RoleOk (s : GuardStore) : Option (EffectInput × Phase) → Prop
  | some (_, .planned row) => s.outbox.lookup row.commandId = some row
  | some (_, .capped row) =>
    s.outbox.lookup row.commandId = some row ∧ ¬s.Holds row.commandId
  | _ => True

/-- The request was made from the payload of its intent. -/
def Made (s : GuardStore) (id : String) (request : CreateNotificationsRequest) : Prop :=
  ∃ row p d, s.outbox.lookup id = some row ∧ row.payload = some p ∧ d ∈ p.batches ∧
    request = requestOf id p d

/-- The invariant of the runs. -/
structure Kept (h : List Note) (s : GuardStore) (r : Option (EffectInput × Phase)) : Prop where
  named : ∀ id row, s.outbox.lookup id = some row → row.commandId = id ∧ IsCommandId id
  apart : ∀ id row p, s.outbox.lookup id = some row → row.payload = some p → p.Apart
  terminal : ∀ id row, s.outbox.lookup id = some row → (.settled id ∈ h ↔ ¬row.Open)
  planned : ∀ id, .settled id ∈ h → ∃ row, s.outbox.lookup id = some row
  quiet : Chronicle (fun before n => ∀ id, n = .called id → .settled id ∉ before) h
  made : ∀ id request, .notified id request ∈ h → Made s id request
  uncapped : ∀ id row, s.outbox.lookup id = some row → row.Capped → ¬s.Holds id
  role : RoleOk s r

section Steps

variable {h : List Note} {s : GuardStore} {r : Option (EffectInput × Phase)} {input : EffectInput}
  {k : Phase} {row : OutboxRow} {id : String} {config : GuardConfig} {env : Outside} {op : Op}

theorem Kept.leave (hK : Kept h s r) : Kept h s none :=
  ⟨hK.named, hK.apart, hK.terminal, hK.planned, hK.quiet, hK.made, hK.uncapped, trivial⟩

theorem Kept.enter (hK : Kept h s r) (hk : RoleOk s (some (input, k))) :
    Kept h s (some (input, k)) :=
  ⟨hK.named, hK.apart, hK.terminal, hK.planned, hK.quiet, hK.made, hK.uncapped, hk⟩

theorem holds_letGo {gone : List String} (hholds : (s.letGo gone).Holds id) : s.Holds id :=
  hholds.imp_right fun hmem => List.mem_of_mem_filter hmem

theorem Kept.letGo (hK : Kept h s r) (gone : List String) : Kept h (s.letGo gone) r := by
  refine ⟨hK.named, hK.apart, hK.terminal, hK.planned, hK.quiet, hK.made,
    fun id row hrow hcapped hholds => hK.uncapped id row hrow hcapped (holds_letGo hholds), ?_⟩
  have hrole := hK.role
  match r with
  | none => trivial
  | some (_, .fresh) => trivial
  | some (_, .settled) => trivial
  | some (_, .planned row) => exact hrole
  | some (_, .capped row) => exact ⟨hrole.1, fun hholds => hrole.2 (holds_letGo hholds)⟩

theorem Kept.plain (hK : Kept h s (some (input, k))) {s' : GuardStore}
    (houtbox : s'.outbox = s.outbox) (hholds : ∀ id, s'.Holds id → s.Holds id) :
    Kept (h ++ []) s' (some (input, k)) := by
  rw [List.append_nil]
  refine ⟨?_, ?_, ?_, ?_, hK.quiet, fun id request hmem => ?_, ?_, ?_⟩
  · rw [houtbox]; exact hK.named
  · rw [houtbox]; exact hK.apart
  · rw [houtbox]; exact hK.terminal
  · rw [houtbox]; exact hK.planned
  · unfold Made
    rw [houtbox]
    exact hK.made id request hmem
  · intro id row hrow hcapped hh
    rw [houtbox] at hrow
    exact hK.uncapped id row hrow hcapped (hholds id hh)
  · have hrole := hK.role
    cases k with
    | planned row =>
      simp only [RoleOk, houtbox]
      exact hrole
    | capped row =>
      simp only [RoleOk, houtbox]
      exact ⟨hrole.1, fun hh => hrole.2 (hholds _ hh)⟩
    | _ => trivial

/-- The intent is inserted where there was none. -/
theorem Kept.insertOutbox (hK : Kept h s (some (input, .fresh))) (hid : IsCommandId id) :
    Kept (h ++ []) (s.insertOutbox id) (some (input, .fresh)) := by
  rw [List.append_nil]
  unfold GuardStore.insertOutbox
  split
  next => exact hK
  next hnone =>
    -- a settled id has a row
    have hfresh : ∀ id', .settled id' ∈ h → id' ≠ id := by
      rintro id' hmem rfl
      obtain ⟨row, hrow⟩ := hK.planned _ hmem
      rw [hnone] at hrow
      cases hrow
    have hlookup : ∀ {id' row}, (s.outbox.insert id { commandId := id }).lookup id' = some row →
        (id' = id ∧ row = { commandId := id }) ∨ (id' ≠ id ∧ s.outbox.lookup id' = some row) := by
      intro id' row hrow
      by_cases hid' : id' = id
      · subst hid'
        rw [AList.lookup_insert] at hrow
        exact .inl ⟨rfl, (Option.some.inj hrow).symm⟩
      · rw [AList.lookup_insert_ne hid'] at hrow
        exact .inr ⟨hid', hrow⟩
    refine ⟨fun id' row hrow => ?_, fun id' row p hrow hp => ?_, fun id' row hrow => ?_,
      fun id' hmem => ?_, hK.quiet, fun id' request hmem => ?_, fun id' row hrow hcapped => ?_,
      trivial⟩
    · rcases hlookup hrow with ⟨rfl, rfl⟩ | ⟨-, hold⟩
      · exact ⟨rfl, hid⟩
      · exact hK.named id' row hold
    · rcases hlookup hrow with ⟨rfl, rfl⟩ | ⟨-, hold⟩
      · cases hp
      · exact hK.apart id' row p hold hp
    · rcases hlookup hrow with ⟨rfl, rfl⟩ | ⟨-, hold⟩
      · exact ⟨fun hmem => absurd rfl (hfresh _ hmem), fun hnot => absurd rfl hnot⟩
      · exact hK.terminal id' row hold
    · obtain ⟨row, hrow⟩ := hK.planned id' hmem
      exact ⟨row, by rwa [AList.lookup_insert_ne (hfresh id' hmem)]⟩
    · obtain ⟨row, p, d, hrow, hp, hd, hrequest⟩ := hK.made id' request hmem
      have hne : id' ≠ id := by
        rintro rfl
        rw [hnone] at hrow
        cases hrow
      exact ⟨row, p, d, by rwa [AList.lookup_insert_ne hne], hp, hd, hrequest⟩
    · rcases hlookup hrow with ⟨rfl, rfl⟩ | ⟨-, hold⟩
      · cases hcapped.1
      · exact hK.uncapped id' row hold hcapped

theorem lookup_write {row' : OutboxRow} {id' : String} {found : OutboxRow}
    (hfound : (s.outbox.insert id row').lookup id' = some found) :
    (id' = id ∧ found = row') ∨ (id' ≠ id ∧ s.outbox.lookup id' = some found) := by
  by_cases hid' : id' = id
  · subst hid'
    rw [AList.lookup_insert] at hfound
    exact .inl ⟨rfl, (Option.some.inj hfound).symm⟩
  · rw [AList.lookup_insert_ne hid'] at hfound
    exact .inr ⟨hid', hfound⟩

/-- The row of an intent that is under way is written. -/
theorem Kept.write (row' : OutboxRow) (hK : Kept h s (some (input, k)))
    (hrow : s.outbox.lookup id = some row) (hopen : row.Open) (hname : row'.commandId = id)
    (happart : ∀ p, row'.payload = some p → p.Apart)
    (hpayload : row.payload = none ∨ row'.payload = row.payload) {notes : List Note}
    (hnotes : (row'.Open ∧ notes = []) ∨ (¬row'.Open ∧ notes = [.settled id]))
    (hcapped : row'.Capped → ¬s.Holds id) {k' : Phase} (hk' : k' = .planned row' ∨ k' = .settled) :
    Kept (h ++ notes) { s with outbox := s.outbox.insert id row' } (some (input, k')) := by
  have hunsettled : .settled id ∉ h := fun hmem => (hK.terminal id row hrow).1 hmem hopen
  -- the write settles the id exactly when it closes the row
  have hnew : ∀ id', .settled id' ∈ notes ↔ id' = id ∧ ¬row'.Open := by
    intro id'
    rcases hnotes with ⟨hopen', rfl⟩ | ⟨hclosed, rfl⟩
    · simp [hopen']
    · simp [hclosed]
  have hnotified : ∀ id' request, .notified id' request ∉ notes := by
    intro id' request
    rcases hnotes with ⟨-, rfl⟩ | ⟨-, rfl⟩ <;> simp
  refine ⟨fun id' found hfound => ?_, fun id' found p hfound hp => ?_, fun id' found hfound => ?_,
    fun id' hmem => ?_, ?_, fun id' request hmem => ?_, fun id' found hfound hc => ?_, ?_⟩
  · rcases lookup_write hfound with ⟨rfl, rfl⟩ | ⟨-, hold⟩
    · exact ⟨hname, (hK.named id' row hrow).2⟩
    · exact hK.named id' found hold
  · rcases lookup_write hfound with ⟨rfl, rfl⟩ | ⟨-, hold⟩
    · exact happart p hp
    · exact hK.apart id' found p hold hp
  · rw [List.mem_append, hnew]
    rcases lookup_write hfound with ⟨rfl, rfl⟩ | ⟨hne, hold⟩
    · exact ⟨fun hmem => hmem.elim (absurd · hunsettled) And.right, fun hclosed => .inr ⟨rfl, hclosed⟩⟩
    · rw [← hK.terminal id' found hold]
      exact ⟨fun hmem => hmem.elim (fun hmem => hmem) fun hmem => absurd hmem.1 hne, .inl⟩
  · rcases List.mem_append.1 hmem with hold | hnow
    · by_cases hid' : id' = id
      · subst hid'
        exact ⟨row', AList.lookup_insert _⟩
      · obtain ⟨found, hfound⟩ := hK.planned id' hold
        exact ⟨found, by rwa [AList.lookup_insert_ne hid']⟩
    · obtain ⟨rfl, -⟩ := (hnew id').1 hnow
      exact ⟨row', AList.lookup_insert _⟩
  · rcases hnotes with ⟨-, rfl⟩ | ⟨-, rfl⟩
    · rw [List.append_nil]
      exact hK.quiet
    · exact hK.quiet.concat fun _ heq => (nomatch heq)
  · rcases List.mem_append.1 hmem with hold | hnow
    · obtain ⟨found, p, d, hfound, hp, hd, hrequest⟩ := hK.made id' request hold
      by_cases hid' : id' = id
      · subst hid'
        -- a payload that was sent stays as it was
        obtain rfl : row = found := Option.some.inj (hrow.symm.trans hfound)
        have hpayload' : row'.payload = some p := by
          rcases hpayload with hnone | hsame
          · rw [hnone] at hp
            cases hp
          · rw [hsame, hp]
        exact ⟨row', p, d, AList.lookup_insert _, hpayload', hd, hrequest⟩
      · exact ⟨found, p, d, by rwa [AList.lookup_insert_ne hid'], hp, hd, hrequest⟩
    · exact absurd hnow (hnotified id' request)
  · rcases lookup_write hfound with ⟨rfl, rfl⟩ | ⟨-, hold⟩
    · exact hcapped hc
    · exact hK.uncapped id' found hold hc
  · rcases hk' with rfl | rfl
    · show (s.outbox.insert id row').lookup row'.commandId = some row'
      rw [hname]
      exact AList.lookup_insert _
    · trivial

theorem not_capped_of_open (hopen : row.Open) : ¬row.Capped := by
  intro hcapped
  unfold OutboxRow.Open at hopen
  rw [hcapped.1] at hopen
  exact absurd hopen (by decide)

theorem holds_taken {id' : String} {effect : Effect} (hholds : (s.taken id effect).Holds id') :
    id' = id ∨ s.Holds id' := by
  cases effect with
  | nothing => exact .inr hholds
  | begun =>
    rcases hholds with hdone | hunder
    · exact .inr (.inl hdone)
    · exact (List.mem_cons.1 hunder).imp_right .inr
  | done =>
    rcases hholds with hdone | hunder
    · exact (List.mem_cons.1 hdone).imp_right .inl
    · exact .inr (.inr hunder)

theorem taken_outbox {effect : Effect} : (s.taken id effect).outbox = s.outbox := by
  cases effect <;> rfl

/-- A remote call of an intent that is under way. -/
theorem Kept.call {effect : Effect} {rest : List Note} (hK : Kept h s (some (input, .planned row)))
    (hopen : row.Open)
    (hrest : ∀ n ∈ rest, ∃ request, n = .notified row.commandId request ∧
      Made s row.commandId request) :
    Kept (h ++ .called row.commandId :: rest) (s.taken row.commandId effect)
      (some (input, .planned row)) := by
  have hrow : s.outbox.lookup row.commandId = some row := hK.role
  have hunsettled : .settled row.commandId ∉ h := fun hmem =>
    (hK.terminal _ row hrow).1 hmem hopen
  have hmem : ∀ id, .settled id ∈ h ++ .called row.commandId :: rest ↔ .settled id ∈ h := by
    intro id
    simp only [List.mem_append, List.mem_cons, reduceCtorEq, false_or, or_iff_left_iff_imp]
    intro hnow
    obtain ⟨request, heq, -⟩ := hrest _ hnow
    cases heq
  have hquiet : Chronicle (fun before n => ∀ id, n = .called id → .settled id ∉ before)
      (h ++ .called row.commandId :: rest) := by
    have hcalled := hK.quiet.concat (n := .called row.commandId) fun id heq => by
      cases heq
      exact hunsettled
    rw [List.append_cons]
    refine Chronicle.append hcalled fun n hn before id heq => ?_
    obtain ⟨request, rfl, -⟩ := hrest n hn
    cases heq
  refine ⟨?_, ?_, ?_, ?_, hquiet, fun id request hmade => ?_,
    fun id found hfound hcapped hholds => ?_, ?_⟩
  · rw [taken_outbox]
    exact hK.named
  · rw [taken_outbox]
    exact hK.apart
  · simp only [taken_outbox, hmem]
    exact hK.terminal
  · simp only [taken_outbox, hmem]
    exact hK.planned
  · unfold Made
    rw [taken_outbox]
    rcases List.mem_append.1 hmade with hold | hnow
    · exact hK.made id request hold
    · rcases List.mem_cons.1 hnow with heq | hnow
      · cases heq
      · obtain ⟨request', heq, hmade'⟩ := hrest _ hnow
        cases heq
        exact hmade'
  · rw [taken_outbox] at hfound
    rcases holds_taken hholds with rfl | hholds
    · rw [hrow] at hfound
      obtain rfl := Option.some.inj hfound
      exact not_capped_of_open hopen hcapped
    · exact hK.uncapped id found hfound hcapped hholds
  · simp only [RoleOk, taken_outbox]
    exact hrow

theorem sibling_mem {parts : CommandIdParts} (hrow : s.sibling parts id = some row)
    (hnamed : ∀ id row, s.outbox.lookup id = some row → row.commandId = id) :
    s.outbox.lookup row.commandId = some row := by
  unfold GuardStore.sibling at hrow
  refine List.foldlRecOn (motive := fun least => ∀ row, least = some row →
    s.outbox.lookup row.commandId = some row) _ _ (fun row hnone => by cases hnone) ?_ row hrow
  intro least hleast e _ row hrow
  have hlookup : ∀ row, s.outbox.lookup e.1 = some row →
      s.outbox.lookup row.commandId = some row := fun row hrow => by
    rwa [hnamed _ _ hrow]
  cases least with
  | none => exact hlookup row hrow
  | some least =>
    simp only at hrow
    split at hrow
    · exact hlookup row hrow
    · exact hleast row hrow

theorem kept_execNow (hK : Kept h s (some (input, k))) (hallowed : (protocol config).allowed k op)
    (hok : InBudget config s k op) :
    Kept (h ++ (execNow env op s).2.1) (execNow env op s).2.2
      (some (input, Phase.after config k op (some (execNow env op s).1))) := by
  have hstay : Kept (h ++ []) s (some (input, k)) := by rwa [List.append_nil]
  cases op with
  | drawSequence => exact hstay
  | nowMillis => exact hstay
  | recipientsFor data => exact hstay
  | selectOutbox id =>
    cases hrow : s.outbox.lookup id with
    | none =>
      simp only [execNow, hrow, Phase.after]
      exact hstay
    | some row =>
      simp only [execNow, hrow, Phase.after]
      refine hstay.enter ?_
      show s.outbox.lookup row.commandId = some row
      rw [(hK.named id row hrow).1, hrow]
  | selectSibling parts id =>
    cases hrow : s.sibling parts id with
    | none =>
      simp only [execNow, hrow, Phase.after]
      exact hstay
    | some row =>
      simp only [execNow, hrow, Phase.after]
      exact hstay.enter (sibling_mem hrow fun id row hrow => (hK.named id row hrow).1)
  | insertOutbox id =>
    obtain ⟨rfl, hid⟩ := hallowed
    exact hK.insertOutbox hid
  | effectsSince cameraId since =>
    simp only [execNow]
    cases k with
    | planned row =>
      simp only [Phase.after]
      split
      next hused =>
        refine hstay.enter ⟨hK.role, fun hholds => ?_⟩
        have hroom := hok row rfl hholds
        omega
      next => exact hstay
    | _ => exact hstay
  | camera id kind =>
    obtain ⟨row, rfl, rfl, hopen⟩ := hallowed
    exact hK.call hopen fun _ hn => absurd hn List.not_mem_nil
  | createNotifications id request =>
    obtain ⟨row, p, d, rfl, rfl, hopen, hp, hd, hrequest⟩ := hallowed
    refine hK.call hopen fun n hn =>
      ⟨request, List.mem_singleton.1 hn, row, p, d, hK.role, hp, hd, hrequest⟩
  | setOutboxPayload id p =>
    -- the payload was empty, so the update finds its row
    obtain ⟨row, rfl, rfl, hopen, hnone, happart⟩ := hallowed
    have hrow : s.outbox.lookup row.commandId = some row := hK.role
    simp only [execNow, GuardStore.setOutboxPayload, hrow, hnone, true_or, if_true, Phase.after]
    refine Kept.write { row with payload := some p } hK hrow hopen rfl (fun p' hp' => ?_)
      (.inl hnone) (.inl ⟨hopen, rfl⟩) (fun hcapped => absurd hcapped (not_capped_of_open hopen))
      (.inl rfl)
    obtain rfl := Option.some.inj hp'
    exact happart
  | insertAction action =>
    refine hK.plain ?_ fun id hholds => ?_
    · simp only [execNow, GuardStore.insertAction]
      split <;> rfl
    · simp only [execNow, GuardStore.insertAction] at hholds
      split at hholds <;> exact hholds
  | updateOutbox id result =>
    obtain ⟨row, rfl, hopen, hphase⟩ := hallowed
    have hrow : s.outbox.lookup row.commandId = some row := by
      rcases hphase with ⟨rfl, -⟩ | rfl
      · exact hK.role
      · exact hK.role.1
    have happart : ∀ p, row.payload = some p → p.Apart := fun p hp => hK.apart _ row p hrow hp
    simp only [execNow, GuardStore.updateOutbox, hrow, Phase.after]
    refine Kept.write { row with
      status := result.status, detail := result.detail, response := some result
      attempts := row.attempts + 1, nextAttemptAt := result.retryAt } hK hrow hopen rfl happart
      (.inr rfl) ?_ (fun hcapped => ?_) (.inr rfl)
    · cases hterminal : guardIntentStatusIsTerminal result.status with
      | true => exact .inr ⟨fun hopen' => by simp [OutboxRow.Open, hterminal] at hopen', rfl⟩
      | false => exact .inl ⟨hterminal, rfl⟩
    · rcases hphase with ⟨rfl, hnot⟩ | rfl
      · obtain ⟨hstatus, hdetail, result', hresponse, hauthorized⟩ := hcapped
        obtain rfl := Option.some.inj hresponse
        exact absurd ⟨hstatus, hauthorized, hdetail⟩ hnot
      · exact hK.role.2

end Steps

/-! ### Whole runs -/

section Runs

variable {h : List Note} {s : GuardStore} {r : Option (EffectInput × Phase)}

theorem settle_of_kept (hK : Kept h s r) : EffectsSettle h s := by
  refine ⟨fun id row hrow hterminal => (hK.terminal id row hrow).2 fun hopen => ?_, hK.quiet,
    fun id id' request request' hmem hmem' heq => ?_, hK.uncapped⟩
  · exact Bool.noConfusion (hterminal.symm.trans hopen)
  · obtain ⟨row, p, d, hrow, hp, hd, rfl⟩ := hK.made id request hmem
    obtain ⟨row', p', d', hrow', hp', hd', rfl⟩ := hK.made id' request' hmem'
    obtain ⟨rfl, hending⟩ :=
      requestOf_inj (hK.named id row hrow).2 (hK.named id' row' hrow').2 heq
    obtain rfl := Option.some.inj (hrow.symm.trans hrow')
    obtain rfl := Option.some.inj (hp.symm.trans hp')
    rw [delivery_inj (hK.apart id row p hrow hp) hd hd' hending]

/-- Effects settle once in every run whose budget checks find room for the commands that the remote
side holds. -/
theorem effects_settle (config : GuardConfig) {c : Lane GuardStore Phase EffectInput Op Op.Ans}
    (hrun : Run (Lane.Step (workshop config) (InBudget config)) ⟨{}, none⟩ h c) :
    EffectsSettle h c.shared := by
  have hstart : Kept [] {} none :=
    ⟨fun _ _ h => (nomatch h), fun _ _ _ h => (nomatch h), fun _ _ h => (nomatch h),
      fun _ h => absurd h List.not_mem_nil, Chronicle.nil, fun _ _ h => absurd h List.not_mem_nil,
      fun _ _ h => (nomatch h), trivial⟩
  refine settle_of_kept (Lane.invariant (protocol config) (J := Kept) hrun hstart obeys_program
    (fun _ _ _ hK => hK.enter trivial) (fun _ _ _ hK => hK.leave)
    (fun _ s input k env op hK hallowed hok => ⟨trivial, ?_⟩)
    (fun _ _ input k op hK _ _ => ⟨trivial, ?_⟩)).1
  · refine kept_execNow (hK.letGo env.gone) hallowed ?_
    cases op with
    | effectsSince cameraId since => exact fun row hk hholds => hok row hk (holds_letGo hholds)
    | _ => trivial
  · have hsame : Phase.after config k op none = k := by cases op <;> rfl
    rw [show (workshop config).after k op none = k from hsame]
    exact hK

end Runs

/-! ### An alarm under way -/

/-- An alarm of a camera, for event "e". -/
def alarm : EffectInput where
  kind := .alarm
  danger := .critical
  cameraId := 1
  now := 0
  correlationId := "e"

/-- The notice of the same event. -/
def notice : EffectInput where
  kind := .notify
  danger := .critical
  cameraId := 1
  now := 0
  correlationId := "e"
  notifyContent := ⟨"stranger", [("event", "e")]⟩

/-- The outside when all goes well: two users with a language each are told. -/
def reachable : Outside where
  nowMs := 2000
  recipients := .planned [⟨7, .en, false⟩, ⟨8, .es, false⟩] none
  created := { outcome := .success, created := 1 }

/-- The alarm is taken up, its retry ends in a crash before the row is written, and the next one
settles it.  The second request of the notice fails, and the retry makes both. -/
def retries : List (Move Outside EffectInput) :=
  .serve alarm :: List.replicate 9 (.run { ack := { outcome := .inFlight } }) ++
    .serve alarm :: List.replicate 5 (.run reachable) ++
    .crash :: .serve alarm :: List.replicate 6 (.run reachable) ++
    .serve notice :: List.replicate 9 (.run reachable) ++
    .fail :: .serve notice :: List.replicate 7 (.run reachable)

theorem effects_settle_retries :
    ∃ h, ∃ c, Run (Lane.Step (workshop { maxActionsPerHour := 2 }) (InBudget { maxActionsPerHour := 2 }))
      ⟨{}, none⟩ h c ∧ h.count (.called "e:alarm:0") = 3 ∧ h.count (.called "e:notify:0") = 3 ∧
      .settled "e:alarm:0" ∈ h ∧ .settled "e:notify:0" ∈ h ∧ EffectsSettle h c.shared := by
  have hplay : (Lane.playIf (workshop { maxActionsPerHour := 2 })
      (InBudget { maxActionsPerHour := 2 }) ⟨{}, none⟩ retries).any (fun r =>
        decide (r.2.count (.called "e:alarm:0") = 3 ∧ r.2.count (.called "e:notify:0") = 3 ∧
          .settled "e:alarm:0" ∈ r.2 ∧ .settled "e:notify:0" ∈ r.2)) = true := by
    decide +kernel
  obtain ⟨⟨c, h⟩, hplayed, hfacts⟩ := (Option.any_eq_true _ _).1 hplay
  obtain ⟨halarms, hnotices, halarm, hnotice⟩ := of_decide_eq_true hfacts
  have hrun : Run (Lane.Step (workshop { maxActionsPerHour := 2 })
      (InBudget { maxActionsPerHour := 2 })) ⟨{}, none⟩ h c := Lane.run_of_playIf hplayed .start
  exact ⟨h, c, hrun, halarms, hnotices, halarm, hnotice, effects_settle _ hrun⟩

/-- The alarm is under way, and its retry is refused because of its own action row. -/
theorem own_action_refuses :
    ∃ h, ∃ c, Run (Lane.Step (workshop { maxActionsPerHour := 1 }) Lane.Free) ⟨{}, none⟩ h c ∧
      ¬EffectsSettle h c.shared := by
  have hplay : (Lane.play (workshop { maxActionsPerHour := 1 }) ⟨{}, none⟩
      (.serve alarm :: List.replicate 9 (.run { ack := { outcome := .inFlight } }) ++
        .serve alarm :: List.replicate 5 (.run { nowMs := 2000 }))).map
          (fun r => ((r.1.shared.outbox.lookup "e:alarm:0").map fun row =>
            (row.status, row.detail, row.response.map fun result => result.authorized),
              r.1.shared.underWay)) =
        some (some (.rejected, "hourly_cap", some false), ["e:alarm:0"]) := by
    decide +kernel
  obtain ⟨⟨c, h⟩, hrun, heq⟩ := Option.map_eq_some_iff.1 hplay
  obtain ⟨hlookup, hunder⟩ := Prod.mk.inj heq
  obtain ⟨row, hrow, hfields⟩ := Option.map_eq_some_iff.1 hlookup
  simp only [Prod.mk.injEq, Option.map_eq_some_iff] at hfields
  refine ⟨h, c, Lane.run_of_play hrun .start, fun hsettle => ?_⟩
  refine hsettle.uncapped _ row hrow ⟨hfields.1, hfields.2.1, hfields.2.2⟩ (.inr ?_)
  rw [hunder]
  exact List.mem_singleton_self _

end Guard

end ArgusBackend
