import ArgusBackend.Library.LittleEndian
import ArgusBackend.Library.Runs
import ArgusBackend.Library.Tickets

/-!
# Sealed pushes and their acknowledgement

`SealedPushDispatcher` sends durable deliveries to the push service and settles each of them, by
an ack or a nak, when the result comes back.  Settlements wait in a bounded ledger.

A settlement is a ticket (`ArgusBackend.Library.Tickets`): the `n`-th call of `dispatch` is handed
settlement `n`.  The notes of a call say what it does to settlements and which results it
published; `waiting_ledger` connects the ledger to the protocol of tickets, and `ack_safe` states
what follows for every sequence of calls.
-/

namespace ArgusBackend

namespace Link

/-- What the dispatcher reads of an envelope; `ports_.send` gets all of it. -/
structure PushSealedEnvelope where
  deliveryId : Bytes
  token : Bytes
  deriving DecidableEq

/-- A delivery as it comes from the stream. -/
structure DurableDelivery where
  envelope : PushSealedEnvelope
  expiresAtMs : ℤ
  deriving DecidableEq

/-- What the dispatcher reads of a result; `ports_.publishResult` gets all of it. -/
structure PushResultEnvelope where
  deliveryId : Bytes
  deriving DecidableEq

/-- How the dispatcher lets a settlement go: it uses it, a redelivery takes its place, or the
ledger drops it for want of room. -/
inductive LetGo where
  | acked | naked | replaced | evicted
  deriving DecidableEq

/-- The delivery a settlement is for, and whether it was not past its expiry. -/
structure Handed where
  deliveryId : Bytes
  live : Bool
  deriving DecidableEq

/-- `publishResult` returned true for a result with this delivery id. -/
structure Published where
  deliveryId : Bytes
  deriving DecidableEq

/-- What the claim is about: what is handed over, let go and published. -/
abbrev PushNote := Tickets.Note Handed LetGo Published

/-! ### The ledger -/

/-- A settlement that waits for its result. -/
structure Pending where
  token : Bytes
  settlement : ℕ
  deriving DecidableEq

/-- The deliveries that wait for a result, in their order. -/
structure SealedPushLedger where
  capacity : ℕ
  order : List Bytes := []
  pending : Bytes → Option Pending := fun _ => none

namespace SealedPushLedger

/-- A delivery waits for a result. -/
def contains (l : SealedPushLedger) (deliveryId : Bytes) : Bool := (l.pending deliveryId).isSome

/-- The loop of `remember` on `order_` and `pending_`, with the settlements it drops; it pops an
empty queue, and is undefined, when the capacity is zero. -/
def evict (capacity : ℕ) :
    List Bytes → (Bytes → Option Pending) →
      Option (List Bytes × (Bytes → Option Pending) × List ℕ)
  | [], pending => if capacity ≤ 0 then none else some ([], pending, [])
  | front :: order, pending =>
    if capacity ≤ (front :: order).length then
      (evict capacity order (Function.update pending front none)).map
        fun (order', pending', dropped) =>
          (order', pending', ((pending front).map Pending.settlement).toList ++ dropped)
    else some (front :: order, pending, [])

/-- A delivery is to wait; the tickets of those that are dropped for it are let go. -/
def remember (l : SealedPushLedger) (deliveryId : Bytes) (pending : Pending) :
    Option (SealedPushLedger × List ℕ) :=
  if l.contains deliveryId then some (l, [])
  else
    (evict l.capacity l.order l.pending).map fun (order, rest, dropped) =>
      ({ l with
          order := order ++ [deliveryId]
          pending := Function.update rest deliveryId (some pending) }, dropped)

/-- With the settlement that is replaced. -/
def replaceSettlement (l : SealedPushLedger) (deliveryId : Bytes) (settlement : ℕ) :
    SealedPushLedger × Option ℕ :=
  match l.pending deliveryId with
  | none => (l, none)
  | some found =>
    ({ l with
        pending := Function.update l.pending deliveryId
          (some { found with settlement := settlement }) }, some found.settlement)

/-- The entry of an id goes; its place in `order_` stays. -/
def take (l : SealedPushLedger) (deliveryId : Bytes) : Option (Pending × SealedPushLedger) :=
  (l.pending deliveryId).map fun pending =>
    (pending, { l with pending := Function.update l.pending deliveryId none })

end SealedPushLedger

/-- The last deliveries that were acknowledged. -/
structure DeliveredRecently where
  capacity : ℕ
  order : List Bytes := []
  seen : Bytes → Bool := fun _ => false

namespace DeliveredRecently

/-- A delivery was acknowledged lately. -/
def contains (r : DeliveredRecently) (deliveryId : Bytes) : Bool := r.seen deliveryId

/-- The loop of `remember`: the oldest are dropped until there is room; a capacity of zero is
undefined. -/
def evict (capacity : ℕ) :
    List Bytes → (Bytes → Bool) → Option (List Bytes × (Bytes → Bool))
  | [], seen => if capacity ≤ 0 then none else some ([], seen)
  | front :: order, seen =>
    if capacity ≤ (front :: order).length then
      evict capacity order (Function.update seen front false)
    else some (front :: order, seen)

/-- A delivery was acknowledged. -/
def remember (r : DeliveredRecently) (deliveryId : Bytes) : Option DeliveredRecently :=
  if r.contains deliveryId then some r
  else
    (evict r.capacity r.order r.seen).map fun (order, seen) =>
      { r with order := order ++ [deliveryId], seen := Function.update seen deliveryId true }

end DeliveredRecently

/-! ### The dispatcher -/

/-- What becomes of a delivery. -/
inductive DispatchOutcome where
  | sent | expired | duplicate | linkDown
  deriving DecidableEq

/-- The deliveries that wait, those that were acknowledged, and what is counted. -/
structure SealedPushDispatcher where
  pending : SealedPushLedger
  delivered : DeliveredRecently
  expired : UInt64 := 0
  attempts : Bytes → Option UInt32 := fun _ => none

namespace SealedPushDispatcher

/-- Nothing was dispatched. -/
def new (capacity : ℕ) : SealedPushDispatcher where
  pending := { capacity := capacity }
  delivered := { capacity := capacity }

/-- `now` is the answer of `ports_.nowMs` and `sent` that of `ports_.send`. -/
def dispatch (d : SealedPushDispatcher) (delivery : DurableDelivery) (settlement : ℕ) (now : ℤ)
    (sent : Bool) : Option (DispatchOutcome × SealedPushDispatcher × List PushNote) :=
  let deliveryId := delivery.envelope.deliveryId
  if delivery.expiresAtMs ≤ now then
    some (.expired, { d with expired := d.expired + 1 }, [.left settlement .acked])
  else if d.delivered.contains deliveryId then
    some (.duplicate, d, [.left settlement .acked])
  else if d.pending.contains deliveryId then
    let (pending, replaced) := d.pending.replaceSettlement deliveryId settlement
    some (.duplicate, { d with pending := pending }, replaced.toList.map (.left · .replaced))
  else
    let attempt := (d.attempts deliveryId).getD 0 + 1
    let d := { d with attempts := Function.update d.attempts deliveryId (some attempt) }
    if !sent then
      some (.linkDown, d, [.left settlement .naked])
    else
      (d.pending.remember deliveryId ⟨delivery.envelope.token, settlement⟩).map
        fun (pending, dropped) =>
          (.sent, { d with pending := pending }, dropped.map (.left · .evicted))

/-- `published` is the answer of `ports_.publishResult`. -/
def result (d : SealedPushDispatcher) (outcome : PushResultEnvelope) (published : Bool) :
    Option (SealedPushDispatcher × List PushNote) :=
  let deliveryId := outcome.deliveryId
  let pending := d.pending.take deliveryId
  let announced : List PushNote := if published then [.other ⟨deliveryId⟩] else []
  let d := { d with attempts := Function.update d.attempts deliveryId none }
  match pending with
  | none => some (d, announced)
  | some (entry, ledger) =>
    let d := { d with pending := ledger }
    if !published then
      some (d, announced ++ [.left entry.settlement .naked])
    else
      (d.delivered.remember deliveryId).map fun delivered =>
        ({ d with delivered := delivered }, announced ++ [.left entry.settlement .acked])

end SealedPushDispatcher

/-! ### Sequences of calls -/

/-- A dispatcher and the number of settlements it has been handed. -/
structure PushSystem where
  dispatcher : SealedPushDispatcher
  handed : ℕ := 0

/-- A call, with the answers of the ports it asks. -/
inductive PushCall where
  | dispatch (delivery : DurableDelivery) (now : ℤ) (sent : Bool)
  | result (outcome : PushResultEnvelope) (published : Bool)

namespace PushSystem

/-- Nothing was dispatched, and no ticket is in use. -/
def initial (capacity : ℕ) : PushSystem := { dispatcher := .new capacity }

/-- A call on the dispatcher with its notes; `none` where it pops an empty queue. -/
def call (s : PushSystem) : PushCall → Option (PushSystem × List PushNote)
  | .dispatch delivery now sent =>
    (s.dispatcher.dispatch delivery s.handed now sent).map fun (_, d, notes) =>
      ({ dispatcher := d, handed := s.handed + 1 },
        .handed s.handed ⟨delivery.envelope.deliveryId, now < delivery.expiresAtMs⟩ :: notes)
  | .result outcome published =>
    (s.dispatcher.result outcome published).map fun (d, notes) => ({ s with dispatcher := d }, notes)

/-- One call at a time. -/
def Step (s : PushSystem) (notes : List PushNote) (s' : PushSystem) : Prop :=
  ∃ c, s.call c = some (s', notes)

/-! ### The ledger holds the tickets -/

/-- An ack of a settlement whose delivery was not past its expiry needs a published result. -/
def ackGuard (h : List PushNote) (_ : ℕ) (key : Handed) (how : LetGo) : Prop :=
  how = .acked → key.live = true → .other ⟨key.deliveryId⟩ ∈ h

/-- The held tickets are the settlements of the ledger, each under its delivery id. -/
def Holds (held : ℕ → Option Handed) (pending : Bytes → Option Pending) : Prop :=
  ∀ t key, held t = some key ↔
    key.live = true ∧ ∃ token, pending key.deliveryId = some ⟨token, t⟩

variable {held : ℕ → Option Handed} {pending : Bytes → Option Pending} {id : Bytes}
  {entry : Pending}

theorem Holds.of_entry (h : Holds held pending) (hentry : pending id = some entry) :
    held entry.settlement = some ⟨id, true⟩ :=
  (h _ _).2 ⟨rfl, entry.token, hentry⟩

/-- Letting the settlement of an entry go with the entry. -/
theorem Holds.erase (h : Holds held pending) (hentry : pending id = some entry) :
    Holds (Function.update held entry.settlement none) (Function.update pending id none) := by
  intro t key
  have hheld := h.of_entry hentry
  by_cases ht : t = entry.settlement
  · subst ht
    simp only [Function.update_self, reduceCtorEq, false_iff, not_and, not_exists]
    intro hlive token
    by_cases hid : key.deliveryId = id
    · simp [hid]
    · rw [Function.update_of_ne hid]
      intro hother
      have := (h _ _).2 ⟨hlive, token, hother⟩
      rw [hheld, Option.some.injEq] at this
      exact hid (this ▸ rfl)
  · rw [Function.update_of_ne ht, h]
    by_cases hid : key.deliveryId = id
    · subst hid
      simp only [hentry, Option.some.injEq, Function.update_self, reduceCtorEq, exists_false,
        and_false, iff_false, not_and, not_exists]
      rintro - token rfl
      exact ht rfl
    · rw [Function.update_of_ne hid]

/-- A fresh ticket enters the ledger under an id that has no entry. -/
theorem Holds.insert (h : Holds held pending) {n : ℕ} (hfresh : held n = none)
    (hid : pending id = none) (token : Bytes) :
    Holds (Function.update held n (some ⟨id, true⟩))
      (Function.update pending id (some ⟨token, n⟩)) := by
  intro t key
  by_cases ht : t = n
  · subst ht
    rw [Function.update_self, Option.some.injEq]
    constructor
    · rintro rfl
      exact ⟨rfl, token, Function.update_self ..⟩
    · rintro ⟨hlive, token', hentry⟩
      by_cases hkey : key.deliveryId = id
      · exact (congrArg₂ Handed.mk hkey hlive).symm
      · rw [Function.update_of_ne hkey] at hentry
        have := (h t key).2 ⟨hlive, token', hentry⟩
        rw [hfresh] at this
        cases this
  · rw [Function.update_of_ne ht, h]
    by_cases hkey : key.deliveryId = id
    · rw [hkey, Function.update_self, hid]
      simp [Ne.symm ht]
    · rw [Function.update_of_ne hkey]

/-- What the notes of a run and the ledger agree on. -/
structure Waiting (h : List PushNote) (n : ℕ) (d : SealedPushDispatcher)
    (held : ℕ → Option Handed) : Prop where
  history : Tickets.History ackGuard n h held
  holds : Holds held d.pending.pending
  delivered : ∀ id, d.delivered.contains id = true → .other ⟨id⟩ ∈ h

variable {h : List PushNote} {n : ℕ} {d : SealedPushDispatcher}

/-- The evictions of one `remember`, each letting its settlement go; the settlement `m` that is
being remembered is not in the ledger yet. -/
theorem evict_spec {capacity m : ℕ} {key : Option Handed} {order order' : List Bytes}
    {pending' : Bytes → Option Pending} {dropped : List ℕ}
    (hist : Tickets.History ackGuard n h (Function.update held m key)) (hm : held m = none)
    (hholds : Holds held pending)
    (hevict : SealedPushLedger.evict capacity order pending = some (order', pending', dropped)) :
    ∃ held', Tickets.History ackGuard n (h ++ dropped.map (.left · .evicted))
        (Function.update held' m key) ∧
      held' m = none ∧ Holds held' pending' ∧ ∀ id, pending id = none → pending' id = none := by
  induction order generalizing h held pending dropped with
  | nil =>
    simp only [SealedPushLedger.evict] at hevict
    split_ifs at hevict
    obtain ⟨rfl, rfl, rfl⟩ := hevict
    exact ⟨held, by simpa using hist, hm, hholds, fun _ hid => hid⟩
  | cons front order ih =>
    simp only [SealedPushLedger.evict] at hevict
    split_ifs at hevict with hfull
    case neg =>
      obtain ⟨rfl, rfl, rfl⟩ := hevict
      exact ⟨held, by simpa using hist, hm, hholds, fun _ hid => hid⟩
    simp only [Option.map_eq_some_iff, Prod.mk.injEq, Prod.exists] at hevict
    obtain ⟨_, _, rest, hrest, rfl, rfl, rfl⟩ := hevict
    -- an eviction brings no entry
    have hkeep : ∀ id, pending id = none → Function.update pending front none id = none := by
      intro id hid
      by_cases heq : id = front
      · rw [heq, Function.update_self]
      · rwa [Function.update_of_ne heq]
    rcases hentry : pending front with _ | entry
    · have hsame : Function.update pending front none = pending := by
        rw [← hentry, Function.update_eq_self]
      rw [hsame] at hrest
      simpa using ih hist hm hholds hrest
    · have hheld := hholds.of_entry hentry
      -- what is remembered now is not in the ledger yet
      have hne : entry.settlement ≠ m := by
        rintro rfl
        rw [hm] at hheld
        cases hheld
      have hleft : Tickets.History ackGuard _ (_ ++ [.left _ LetGo.evicted]) _ :=
        hist.left (by rwa [Function.update_of_ne hne])
        (by rintro ⟨⟩)
      rw [Function.update_comm hne.symm] at hleft
      obtain ⟨held', hist', hm', hholds', hnone⟩ := ih hleft
        (by rwa [Function.update_of_ne hne.symm]) (hholds.erase hentry) hrest
      exact ⟨held', by simpa using hist', hm', hholds', fun id hid => hnone id (hkeep id hid)⟩

/-- What has been delivered recently was there before or is what was remembered. -/
theorem evictSeen_le {capacity : ℕ} {order order' : List Bytes} {seen seen' : Bytes → Bool}
    (hevict : DeliveredRecently.evict capacity order seen = some (order', seen'))
    {id : Bytes} (hid : seen' id = true) : seen id = true := by
  induction order generalizing seen with
  | nil =>
    simp only [DeliveredRecently.evict] at hevict
    split_ifs at hevict
    obtain ⟨rfl, rfl⟩ := hevict
    exact hid
  | cons front order ih =>
    simp only [DeliveredRecently.evict] at hevict
    split_ifs at hevict
    · have hfront := ih hevict
      by_cases heq : id = front
      · rw [heq, Function.update_self] at hfront
        cases hfront
      · rwa [Function.update_of_ne heq] at hfront
    · obtain ⟨rfl, rfl⟩ := hevict
      exact hid

theorem remember_contains {r r' : DeliveredRecently} {deliveryId : Bytes}
    (hremember : r.remember deliveryId = some r') {id : Bytes} (hid : r'.contains id = true) :
    r.contains id = true ∨ id = deliveryId := by
  simp only [DeliveredRecently.remember] at hremember
  split_ifs at hremember with hseen
  · obtain rfl := Option.some.inj hremember
    exact .inl hid
  simp only [Option.map_eq_some_iff, Prod.exists] at hremember
  obtain ⟨order, seen, hevict, rfl⟩ := hremember
  by_cases heq : id = deliveryId
  · exact .inr heq
  · simp only [DeliveredRecently.contains, Function.update_of_ne heq] at hid
    exact .inl (evictSeen_le hevict hid)

theorem Waiting.dispatch (w : Waiting h n d held) {delivery : DurableDelivery} {now : ℤ}
    {sent : Bool} {outcome : DispatchOutcome} {d' : SealedPushDispatcher} {notes : List PushNote}
    (hcall : d.dispatch delivery n now sent = some (outcome, d', notes)) :
    ∃ held', Waiting (h ++ .handed n ⟨delivery.envelope.deliveryId, now < delivery.expiresAtMs⟩ ::
      notes) (n + 1) d' held' := by
  obtain ⟨hist, hholds, hdelivered⟩ := w
  have hlater : ∀ {rest : List PushNote} (id : Bytes), d.delivered.contains id = true →
      .other ⟨id⟩ ∈ h ++ rest := fun id hid => List.mem_append_left _ (hdelivered id hid)
  simp only [SealedPushDispatcher.dispatch] at hcall
  split_ifs at hcall with hexpired hseen hpending hsent
  · -- past its expiry: acked at once, and nothing is asked of its ack
    obtain ⟨rfl, rfl, rfl⟩ := hcall
    refine ⟨held, hist.handed_left ?_, hholds, fun id hid => hlater id hid⟩
    rintro - hlive
    simp only [decide_eq_true_eq] at hlive
    omega
  · -- its result was published before
    obtain ⟨rfl, rfl, rfl⟩ := hcall
    exact ⟨held, hist.handed_left fun _ _ => hlater _ hseen, hholds, fun id hid => hlater id hid⟩
  · -- the new settlement takes the place of the one that waits
    rcases hentry : d.pending.pending delivery.envelope.deliveryId with _ | entry
    · simp [SealedPushLedger.contains, hentry] at hpending
    simp only [SealedPushLedger.replaceSettlement, hentry, Option.toList_some, List.map_cons,
      List.map_nil, Option.some.injEq, Prod.mk.injEq] at hcall
    obtain ⟨rfl, rfl, rfl⟩ := hcall
    have hlive : decide (now < delivery.expiresAtMs) = true := by simpa using hexpired
    have hheld := hholds.of_entry hentry
    have hne : entry.settlement ≠ n := Nat.ne_of_lt (hist.lt_of_held hheld)
    have hhand := hist.handed ⟨delivery.envelope.deliveryId, true⟩
    have hleft : Tickets.History ackGuard _ (_ ++ [.left _ LetGo.replaced]) _ :=
      hhand.left (by rw [Function.update_of_ne hne, hheld])
      (by rintro ⟨⟩)
    have hswap := (hholds.erase hentry).insert
      (by rw [Function.update_of_ne hne.symm, hist.held_fresh]) (Function.update_self ..) entry.token
    rw [Function.update_idem, Function.update_comm hne] at hswap
    refine ⟨_, ?_, hswap, fun id hid => hlater id hid⟩
    rw [hlive]
    simpa using hleft
  · -- not sent
    obtain ⟨rfl, rfl, rfl⟩ := hcall
    exact ⟨held, hist.handed_left (by rintro ⟨⟩), hholds, fun id hid => hlater id hid⟩
  · -- sent: the settlement waits, and the oldest may have to go
    simp only [SealedPushLedger.remember, hpending, Bool.false_eq_true, if_false,
      Option.map_map, Option.map_eq_some_iff, Function.comp_apply, Prod.mk.injEq,
      Prod.exists] at hcall
    obtain ⟨order, rest, dropped, hevict, -, rfl, rfl⟩ := hcall
    have hlive : decide (now < delivery.expiresAtMs) = true := by simpa using hexpired
    have hnone : d.pending.pending delivery.envelope.deliveryId = none := by
      simpa [SealedPushLedger.contains] using hpending
    obtain ⟨held', hist', hfresh, hholds', hkeep⟩ := evict_spec
      (hist.handed ⟨delivery.envelope.deliveryId, true⟩) hist.held_fresh hholds hevict
    refine ⟨_, ?_, hholds'.insert hfresh (hkeep _ hnone) _, fun id hid => hlater id hid⟩
    rw [hlive]
    simpa using hist'

theorem Waiting.result (w : Waiting h n d held) {outcome : PushResultEnvelope} {published : Bool}
    {d' : SealedPushDispatcher} {notes : List PushNote}
    (hcall : d.result outcome published = some (d', notes)) :
    ∃ held', Waiting (h ++ notes) n d' held' := by
  obtain ⟨hist, hholds, hdelivered⟩ := w
  have hlater : ∀ {rest : List PushNote} (id : Bytes), d.delivered.contains id = true →
      .other ⟨id⟩ ∈ h ++ rest := fun id hid => List.mem_append_left _ (hdelivered id hid)
  simp only [SealedPushDispatcher.result, SealedPushLedger.take] at hcall
  rcases hentry : d.pending.pending outcome.deliveryId with _ | entry
  · -- nothing waits for this result
    simp only [hentry, Option.map_none, Option.some.injEq, Prod.mk.injEq] at hcall
    obtain ⟨rfl, rfl⟩ := hcall
    cases published with
    | true => exact ⟨held, hist.other _, hholds, fun id hid => hlater id hid⟩
    | false => exact ⟨held, by simpa using hist, hholds, fun id hid => hlater id hid⟩
  have hheld := hholds.of_entry hentry
  cases published with
  | false =>
    simp only [hentry, Option.map_some, Bool.not_false, if_true, Bool.false_eq_true, if_false,
      List.nil_append, Option.some.injEq, Prod.mk.injEq] at hcall
    obtain ⟨rfl, rfl⟩ := hcall
    exact ⟨_, hist.left hheld (by rintro ⟨⟩), hholds.erase hentry, fun id hid => hlater id hid⟩
  | true =>
    simp only [hentry, Option.map_some, Bool.not_true, Bool.false_eq_true, if_false, if_true,
      Option.map_eq_some_iff, Prod.mk.injEq] at hcall
    obtain ⟨delivered, hremember, rfl, rfl⟩ := hcall
    have hannounced := hist.other (Published.mk outcome.deliveryId)
    have hleft : Tickets.History ackGuard _ (_ ++ [.left _ LetGo.acked]) _ :=
      hannounced.left hheld (fun _ _ => by simp)
    refine ⟨_, by simpa using hleft, hholds.erase hentry, fun id hid => ?_⟩
    rcases remember_contains hremember hid with hold | rfl
    · exact hlater id hold
    · simp

/-- **The ledger is the protocol of tickets**: after every sequence of calls the settlements that
wait are those handed out and not let go. -/
theorem waiting_ledger {capacity : ℕ} {s : PushSystem} (hrun : Run Step (initial capacity) h s) :
    ∃ held, Waiting h s.handed s.dispatcher held := by
  refine hrun.invariant (J := fun h s => ∃ held, Waiting h s.handed s.dispatcher held)
    ⟨fun _ => none, .start, fun t key => ?_, fun id hid => ?_⟩ ?_
  · simp [initial, SealedPushDispatcher.new]
  · simp [initial, SealedPushDispatcher.new, DeliveredRecently.contains] at hid
  · rintro h s notes s' ⟨held, w⟩ ⟨c, hcall⟩
    cases c with
    | dispatch delivery now sent =>
      simp only [call, Option.map_eq_some_iff, Prod.mk.injEq, Prod.exists] at hcall
      obtain ⟨outcome, d', rest, hdispatch, rfl, rfl⟩ := hcall
      exact w.dispatch hdispatch
    | result outcome published =>
      simp only [call, Option.map_eq_some_iff, Prod.mk.injEq, Prod.exists] at hcall
      obtain ⟨d', rest, hresult, rfl, rfl⟩ := hcall
      exact w.result hresult

/-- A note that uses a settlement. -/
def uses (t : ℕ) : PushNote → Bool
  | .left t' .acked | .left t' .naked => t = t'
  | _ => false

/-- What is promised about settlements; one that was let go in none of the `ways` is still held
under its delivery id. -/
structure AckSafe (ways : List LetGo) (h : List PushNote) (s : PushSystem) : Prop where
  usedOnce : ∀ t, h.countP (uses t) ≤ 1
  ackedPublished : ∀ (before after : List PushNote) (t : ℕ) (id : Bytes),
    h = before ++ .left t .acked :: after → .handed t ⟨id, true⟩ ∈ h → .other ⟨id⟩ ∈ before
  held : ∀ (t : ℕ) (id : Bytes) (live : Bool), .handed t ⟨id, live⟩ ∈ h →
    (∀ how ∈ ways, .left t how ∉ h) →
      ∃ token, s.dispatcher.pending.pending id = some ⟨token, t⟩

/-- **Acknowledgements are safe** over every sequence of calls: a settlement is used at most
once, a delivery that was not past its expiry is acked only behind a published result, and a
settlement not used, replaced or evicted still waits. -/
theorem ack_safe {capacity : ℕ} {s : PushSystem} (hrun : Run Step (initial capacity) h s) :
    AckSafe [.acked, .naked, .replaced, .evicted] h s := by
  obtain ⟨held, hist, hholds, -⟩ := waiting_ledger hrun
  refine ⟨fun t => ?_, fun before after t id heq hmem => ?_, fun t id live hmem hways => ?_⟩
  · refine (List.countP_mono_left ?_).trans (hist.left_once t)
    intro note _ huses
    cases note with
    | left t' how => cases how <;> simp_all [uses]
    | handed | other => simp [uses] at huses
  · obtain ⟨key, hkey, hguard⟩ := hist.guarded heq
    have hsame : key = ⟨id, true⟩ :=
      hist.handed_unique (heq ▸ List.mem_append_left _ hkey) hmem
    simpa [hsame] using hguard rfl (by rw [hsame])
  · have hcount : h.countP (Tickets.Note.lets t) = 0 := by
      rw [List.countP_eq_zero]
      rintro (_ | ⟨t', how⟩ | _) hnote <;> simp only [Tickets.lets_handed, Tickets.lets_left,
        Tickets.lets_other, decide_eq_true_eq, Bool.false_eq_true, not_false_eq_true]
      rintro rfl
      exact hways how (by cases how <;> simp) hnote
    exact ((hholds t _).1 (hist.held_of_not_left hmem hcount)).2

/-- Two deliveries are sent.  The first comes again and takes the place of its settlement, its result
is published and it is acked, and so is what comes of it after that; the result of the second is
not published, and a third delivery waits. -/
theorem ack_safe_redelivered :
    ∃ (h : List PushNote) (s : PushSystem), Run Step (initial 2) h s ∧
      .left 0 .replaced ∈ h ∧ .left 2 .acked ∈ h ∧ .left 3 .acked ∈ h ∧ .left 1 .naked ∈ h ∧
      (s.dispatcher.pending.pending [3]).isSome ∧
      AckSafe [.acked, .naked, .replaced, .evicted] h s := by
  have hrun : Run Step (initial 2) _ _ :=
    ((((((Run.start.next ⟨.dispatch ⟨⟨[1], [7]⟩, 60⟩ 0 true, rfl⟩).next
      ⟨.dispatch ⟨⟨[2], [7]⟩, 60⟩ 0 true, rfl⟩).next
      ⟨.dispatch ⟨⟨[1], [7]⟩, 60⟩ 10 true, rfl⟩).next
      ⟨.result ⟨[1]⟩ true, rfl⟩).next
      ⟨.dispatch ⟨⟨[1], [7]⟩, 60⟩ 20 true, rfl⟩).next
      ⟨.result ⟨[2]⟩ false, rfl⟩).next
      ⟨.dispatch ⟨⟨[3], [7]⟩, 60⟩ 30 true, rfl⟩
  exact ⟨_, _, hrun, by decide, by decide, by decide, by decide, by decide, ack_safe hrun⟩

/-- Two deliveries in a ledger of capacity one: the settlement of the first is neither used nor
replaced, and no longer held. -/
theorem not_ack_safe_evicted :
    ¬ ∀ (capacity : ℕ) (h : List PushNote) (s : PushSystem),
      Run Step (initial capacity) h s → AckSafe [.acked, .naked, .replaced] h s := by
  intro hsafe
  have hrun : Run Step (initial 1) _ _ :=
    (Run.start.next ⟨.dispatch ⟨⟨[1], [7]⟩, 60⟩ 0 true, rfl⟩).next
      ⟨.dispatch ⟨⟨[2], [7]⟩, 60⟩ 0 true, rfl⟩
  obtain ⟨token, htoken⟩ := (hsafe _ _ _ hrun).held 0 [1] true (by decide) (by decide)
  cases htoken

end PushSystem

end Link

end ArgusBackend
