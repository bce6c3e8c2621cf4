import ArgusBackend.Link.SealedPush
import Mathlib.Data.Set.Card

/-!
# What the ledger of pushes evicts

A ledger is full when as many deliveries are pending as it has room for, and it should make room by
dropping the one that has been pending for longest.  `take` leaves the entry of the queue behind,
so that the queue may be full before the ledger is.

* `LedgerSystem` : a ledger, with the order in which its deliveries became pending;
* `Queued` : the queue names them in this order, with others between them (`queued`);
* `fair_iff` : when it is the right delivery that a call evicts;
* `evicts_when_full` : the same for every sequence of calls.
-/

namespace ArgusBackend

namespace Link

namespace SealedPushLedger

/-- The calls on a ledger. -/
inductive Call where
  | remember (deliveryId : Bytes) (pending : Pending)
  | replaceSettlement (deliveryId : Bytes) (settlement : ℕ)
  | take (deliveryId : Bytes)

/-- The delivery of a call. -/
def Call.deliveryId : Call → Bytes
  | .remember deliveryId _ | .replaceSettlement deliveryId _ | .take deliveryId => deliveryId

/-- The ledger after a call; `none` where it pops an empty queue. -/
def call (l : SealedPushLedger) : Call → Option SealedPushLedger
  | .remember deliveryId pending => (l.remember deliveryId pending).map Prod.fst
  | .replaceSettlement deliveryId settlement => some (l.replaceSettlement deliveryId settlement).1
  | .take deliveryId => some (((l.take deliveryId).map Prod.snd).getD l)

/-- What `remember` does when the queue is no longer than the capacity. -/
inductive Remembers (l : SealedPushLedger) (id : Bytes) (l' : SealedPushLedger) : Prop
  | known (hid : l.contains id = true) (hsame : l' = l)
  | room (hid : l.contains id = false) (hroom : l.order.length < l.capacity)
      (horder : l'.order = l.order ++ [id])
      (hpending : ∀ known, l'.contains known = true ↔ known = id ∨ l.contains known = true)
  | evicts (front : Bytes) (rest : List Bytes) (hid : l.contains id = false)
      (hfull : l.order = front :: rest) (hlength : l.order.length = l.capacity)
      (horder : l'.order = rest ++ [id])
      (hpending : ∀ known, l'.contains known = true ↔
        known = id ∨ l.contains known = true ∧ known ≠ front)

section Calls

variable {l l' : SealedPushLedger} {capacity : ℕ} {front id known : Bytes} {order : List Bytes}
  {pending : Bytes → Option Pending} {entry : Pending} {settlement : ℕ}

lemma evict_room (h : order.length < capacity) :
    evict capacity order pending = some (order, pending, []) := by
  cases order with
  | nil => exact if_neg (Nat.not_le.2 h)
  | cons front order => exact if_neg (Nat.not_le.2 h)

lemma evict_full (h : (front :: order).length = capacity) :
    evict capacity (front :: order) pending = some (order, Function.update pending front none,
      ((pending front).map Pending.settlement).toList) := by
  rw [evict, if_pos h.ge, evict_room (h ▸ Nat.lt_succ_self _)]
  simp

lemma contains_update :
    (SealedPushLedger.mk capacity order (Function.update pending id (some entry))).contains known =
      true ↔ known = id ∨ (pending known).isSome = true := by
  by_cases h : known = id
  · simp [contains, h]
  · simp [contains, h]

/-- `remember` is defined whenever there is room for one at least. -/
lemma remember_spec (hcapacity : 1 ≤ l.capacity) (hroom : l.order.length ≤ l.capacity) (id : Bytes)
    (entry : Pending) : ∃ l' dropped, l.remember id entry = some (l', dropped) ∧
      l'.capacity = l.capacity ∧ Remembers l id l' := by
  unfold remember
  cases hid : l.contains id with
  | true => exact ⟨l, [], rfl, rfl, .known hid rfl⟩
  | false =>
    rw [if_neg Bool.false_ne_true]
    rcases hroom.lt_or_eq with hlt | heq
    · rw [evict_room hlt]
      exact ⟨_, _, rfl, rfl, .room hid hlt rfl fun known => contains_update⟩
    · cases horder : l.order with
      | nil =>
        rw [horder] at heq
        exact absurd heq (by simp; omega)
      | cons front rest =>
        rw [evict_full (horder ▸ heq)]
        refine ⟨_, _, rfl, rfl, .evicts front rest hid horder heq rfl fun known => ?_⟩
        rw [contains_update]
        by_cases hfront : known = front
        · simp [hfront]
        · simp [hfront, contains]

lemma order_replaceSettlement (l : SealedPushLedger) (id : Bytes) (settlement : ℕ) :
    (l.replaceSettlement id settlement).1.capacity = l.capacity ∧
      (l.replaceSettlement id settlement).1.order = l.order := by
  unfold replaceSettlement
  cases l.pending id <;> exact ⟨rfl, rfl⟩

lemma contains_replaceSettlement :
    (l.replaceSettlement id settlement).1.contains known = l.contains known := by
  unfold replaceSettlement
  cases hid : l.pending id with
  | none => rfl
  | some entry =>
    by_cases h : known = id
    · simp [contains, h, hid]
    · simp [contains, h]

lemma take_spec : ((l.take id).map Prod.snd).getD l =
    { l with pending := Function.update l.pending id none } := by
  unfold take
  cases hid : l.pending id with
  | none =>
    have hsame : Function.update l.pending id none = l.pending := by
      rw [← hid, Function.update_eq_self]
    rw [hsame]
    rfl
  | some entry => rfl

end Calls

end SealedPushLedger

open SealedPushLedger

/-! ### Sequences of calls -/

/-- A ledger, and who waits in truth. -/
structure LedgerSystem where
  ledger : SealedPushLedger
  /-- The deliveries that are pending, in the order in which they were remembered. -/
  waiting : List Bytes := []

/-- A call, and the system before and behind it. -/
structure Turn where
  before : LedgerSystem
  call : Call
  after : LedgerSystem

namespace LedgerSystem

/-- Nobody waits. -/
def initial (capacity : ℕ) : LedgerSystem := { ledger := { capacity := capacity } }

/-- What is not pending any more leaves the order, and what is pending now comes last in it. -/
def waitingAfter (s : LedgerSystem) (id : Bytes) (after : SealedPushLedger) : List Bytes :=
  s.waiting.filter after.contains ++
    if s.ledger.contains id = false ∧ after.contains id = true then [id] else []

/-- A call on the ledger. -/
def call (s : LedgerSystem) (c : Call) : Option LedgerSystem :=
  (s.ledger.call c).map fun after => ⟨after, s.waitingAfter c.deliveryId after⟩

/-- One call at a time. -/
def Step (s : LedgerSystem) (notes : List Turn) (s' : LedgerSystem) : Prop :=
  ∃ c, s.call c = some s' ∧ notes = [⟨s, c, s'⟩]

/-- The deliveries other than this one that are pending. -/
def others (s : LedgerSystem) (id : Bytes) : Set Bytes :=
  {known | s.ledger.contains known = true ∧ known ≠ id}

end LedgerSystem

open LedgerSystem

/-- Another delivery is evicted only when the ledger is full, and it is the one that was remembered
longest ago. -/
def Turn.Fair (t : Turn) : Prop :=
  ∀ id entry, t.call = .remember id entry → ∀ known ∈ t.before.others id,
    t.after.ledger.contains known = false →
      (t.before.others id).encard = t.before.ledger.capacity ∧
        t.before.waiting.head? = some known

/-- When the queue is full and its first entry is of a pending delivery, then all are, and no two
are of the same one. -/
def Turn.Aligned (t : Turn) : Prop :=
  ∀ id entry, t.call = .remember id entry → t.before.ledger.contains id = false →
    t.before.ledger.capacity ≤ t.before.ledger.order.length →
      (∀ front ∈ t.before.ledger.order.head?, t.before.ledger.contains front = true) →
        t.before.ledger.order.Nodup ∧
          ∀ known ∈ t.before.ledger.order, t.before.ledger.contains known = true

namespace LedgerSystem

/-- The queue has the deliveries that are pending in their order, and others between them. -/
structure Queued (s : LedgerSystem) : Prop where
  room : s.ledger.order.length ≤ s.ledger.capacity
  sublist : s.waiting.Sublist s.ledger.order
  nodup : s.waiting.Nodup
  mem : ∀ id, id ∈ s.waiting ↔ s.ledger.contains id = true

section Calls

variable {s s' : LedgerSystem} {c : Call} {id front : Bytes} {rest : List Bytes}
  {after : SealedPushLedger} {t : Turn} {capacity : ℕ} {h : List Turn}

/-- Only the delivery of the call may become pending. -/
lemma Queued.waitingAfter (q : Queued s) (id : Bytes)
    (honly : ∀ known, after.contains known = true → known = id ∨ s.ledger.contains known = true) :
    (s.waitingAfter id after).Nodup ∧
      ∀ known, known ∈ s.waitingAfter id after ↔ after.contains known = true := by
  unfold LedgerSystem.waitingAfter
  constructor
  · rw [List.nodup_append]
    refine ⟨q.nodup.filter _, by split_ifs <;> simp, ?_⟩
    intro known hknown _ hnew
    split_ifs at hnew with hid
    · rw [List.mem_singleton] at hnew
      rintro rfl
      have hpending := (q.mem known).1 (List.mem_filter.1 hknown).1
      rw [hnew, hid.1] at hpending
      cases hpending
    · cases hnew
  · intro known
    rw [List.mem_append, List.mem_filter, q.mem]
    constructor
    · rintro (⟨-, hafter⟩ | hnew)
      · exact hafter
      · split_ifs at hnew with hid
        · exact List.mem_singleton.1 hnew ▸ hid.2
        · cases hnew
    · intro hafter
      by_cases hbefore : s.ledger.contains known = true
      · exact .inl ⟨hbefore, hafter⟩
      · obtain rfl := (honly known hafter).resolve_right hbefore
        rw [if_pos ⟨by simpa using hbefore, hafter⟩]
        exact .inr (List.mem_singleton_self known)

/-- A call that makes nothing pending keeps the queue. -/
lemma Queued.keep (q : Queued s) (hcapacity : after.capacity = s.ledger.capacity)
    (horder : after.order = s.ledger.order)
    (honly : ∀ known, after.contains known = true → s.ledger.contains known = true) :
    Queued ⟨after, s.waitingAfter id after⟩ := by
  obtain ⟨hnodup, hmem⟩ := q.waitingAfter id fun known hknown => .inr (honly known hknown)
  refine ⟨?_, ?_, hnodup, hmem⟩
  · rw [hcapacity, horder]
    exact q.room
  · have hold : ¬(s.ledger.contains id = false ∧ after.contains id = true) := by
      rintro ⟨hid, hafter⟩
      rw [honly id hafter] at hid
      cases hid
    rw [LedgerSystem.waitingAfter, if_neg hold, List.append_nil, horder]
    exact List.filter_sublist.trans q.sublist

lemma Queued.remember (q : Queued s) (hcapacity : after.capacity = s.ledger.capacity)
    (hr : Remembers s.ledger id after) :
    Queued ⟨after, s.waitingAfter id after⟩ := by
  cases hr with
  | known hid hsame => exact q.keep hcapacity (hsame ▸ rfl) fun known hknown => hsame ▸ hknown
  | room hid hroom horder hpending =>
    obtain ⟨hnodup, hmem⟩ := q.waitingAfter id fun known hknown => (hpending known).1 hknown
    refine ⟨?_, ?_, hnodup, hmem⟩
    · rw [hcapacity, horder, List.length_append]
      exact hroom
    · rw [LedgerSystem.waitingAfter, if_pos ⟨hid, (hpending id).2 (.inl rfl)⟩, horder]
      exact (List.filter_sublist.trans q.sublist).append (.refl _)
  | evicts front rest hid hfull hlength horder hpending =>
    obtain ⟨hnodup, hmem⟩ := q.waitingAfter id fun known hknown =>
      ((hpending known).1 hknown).imp_right And.left
    refine ⟨?_, ?_, hnodup, hmem⟩
    · rw [hfull, List.length_cons] at hlength
      rw [hcapacity, horder, List.length_append, List.length_singleton, hlength]
    · rw [LedgerSystem.waitingAfter, if_pos ⟨hid, (hpending id).2 (.inl rfl)⟩, horder]
      refine List.Sublist.append ?_ (.refl _)
      by_cases hfront : front = id
      · -- The entry that goes is one that a `take` of the same delivery left behind.
        have hnew : front ∉ s.waiting := by
          rw [q.mem, hfront, hid]
          exact Bool.false_ne_true
        rcases List.sublist_cons_iff.1 (hfull ▸ q.sublist) with hrest | ⟨w, hw, -⟩
        · exact List.filter_sublist.trans hrest
        · exact absurd (hw ▸ List.mem_cons_self) hnew
      · have hgone : after.contains front ≠ true := by
          rw [ne_eq, hpending]
          rintro (heq | ⟨-, hne⟩)
          · exact hfront heq
          · exact hne rfl
        have hsub := (hfull ▸ q.sublist : s.waiting.Sublist (front :: rest)).filter after.contains
        rw [List.filter_cons_of_neg hgone] at hsub
        exact hsub.trans List.filter_sublist

/-- **Every call keeps the queue in order**, and is defined. -/
lemma Queued.call (q : Queued s) (hpositive : 1 ≤ s.ledger.capacity) (c : Call) :
    ∃ s', s.call c = some s' ∧ Queued s' ∧ s'.ledger.capacity = s.ledger.capacity ∧
      ∀ id entry, c = .remember id entry → Remembers s.ledger id s'.ledger := by
  unfold LedgerSystem.call
  cases c with
  | remember id entry =>
    obtain ⟨after, dropped, hcall, hcapacity, hr⟩ := remember_spec hpositive q.room id entry
    refine ⟨_, by rw [SealedPushLedger.call, hcall]; rfl, q.remember hcapacity hr,
      hcapacity, ?_⟩
    rintro _ _ ⟨⟩
    exact hr
  | replaceSettlement id settlement =>
    obtain ⟨hcapacity, horder⟩ := order_replaceSettlement s.ledger id settlement
    refine ⟨_, rfl, q.keep hcapacity horder fun known hknown => ?_, hcapacity, nofun⟩
    rwa [contains_replaceSettlement] at hknown
  | take id =>
    refine ⟨_, rfl, q.keep ?_ ?_ fun known hknown => ?_, ?_, nofun⟩ <;> rw [take_spec] at *
    by_cases hid : known = id
    · simp [contains, hid] at hknown
    · simpa [contains, hid] using hknown

lemma Queued.encard_pending (q : Queued s) :
    {known | s.ledger.contains known = true}.encard = s.waiting.length := by
  have hset : {known | s.ledger.contains known = true} = (s.waiting.toFinset : Set Bytes) := by
    ext known
    rw [Set.mem_ofPred_eq, ← q.mem, Finset.mem_coe, List.mem_toFinset]
  rw [hset, Set.encard_coe_eq_coe_finsetCard, List.toFinset_card_of_nodup q.nodup]

/-- The queue is the order itself when all its entries are of pending deliveries, and different. -/
lemma Queued.waiting_eq (q : Queued s) (hnodup : s.ledger.order.Nodup)
    (hpending : ∀ known ∈ s.ledger.order, s.ledger.contains known = true) :
    s.waiting = s.ledger.order := by
  have hsubset : s.ledger.order ⊆ s.waiting := fun known hknown =>
    (q.mem known).2 (hpending known hknown)
  exact q.sublist.eq_of_length_le (hnodup.subperm hsubset).length_le

/-- What goes when the queue is full is what has been pending for longest, if nothing else in the
queue is out of date. -/
lemma Queued.front_fair (q : Queued s) (hid : s.ledger.contains id = false)
    (hfull : s.ledger.order = front :: rest) (hlength : s.ledger.order.length = s.ledger.capacity) :
    (s.others id).encard = s.ledger.capacity ∧ s.waiting.head? = some front ↔
      s.ledger.order.Nodup ∧ ∀ known ∈ s.ledger.order, s.ledger.contains known = true := by
  have hothers : s.others id = {known | s.ledger.contains known = true} := by
    refine Set.ext fun known => and_iff_left_of_imp fun hknown => ?_
    rintro rfl
    rw [hid] at hknown
    cases hknown
  rw [hothers, q.encard_pending]
  constructor
  · rintro ⟨hmany, -⟩
    have heq : s.waiting = s.ledger.order :=
      q.sublist.eq_of_length ((Nat.cast_inj.1 hmany).trans hlength.symm)
    exact ⟨heq ▸ q.nodup, fun known hknown => (q.mem known).1 (heq ▸ hknown)⟩
  · rintro ⟨hnodup, hpending⟩
    have heq := q.waiting_eq hnodup hpending
    exact ⟨by rw [heq, hlength], by rw [heq, hfull, List.head?_cons]⟩

/-- **A call evicts the right delivery if and only if the queue is aligned with the ledger.** -/
theorem fair_iff (q : Queued t.before)
    (hremember : ∀ id entry, t.call = .remember id entry →
      Remembers t.before.ledger id t.after.ledger) : t.Fair ↔ t.Aligned := by
  refine forall₃_congr fun id entry hcall => ?_
  rcases hremember id entry hcall with ⟨hid, hsame⟩ | ⟨hid, hroom, horder, hpending⟩ |
    ⟨front, rest, hid, hfull, hlength, horder, hpending⟩
  · -- Nothing is evicted, as the delivery is pending already.
    refine iff_of_true (fun known hknown hgone => ?_) fun hnew => ?_
    · rw [hsame, hknown.1] at hgone
      cases hgone
    · rw [hid] at hnew
      cases hnew
  · -- Nothing is evicted, as the queue has room.
    refine iff_of_true (fun known hknown hgone => ?_) fun _ hfull => absurd hroom (not_lt.2 hfull)
    rw [(hpending known).2 (.inr hknown.1)] at hgone
    cases hgone
  · have hgone {known : Bytes} (hknown : known ∈ t.before.others id) :
        t.after.ledger.contains known = false ↔ known = front := by
      rw [← Bool.not_eq_true, hpending]
      constructor
      · intro hgone
        by_contra hne
        exact hgone (.inr ⟨hknown.1, hne⟩)
      · rintro rfl (heq | ⟨-, hne⟩)
        · exact hknown.2 heq
        · exact hne rfl
    have hpremise : (∀ front ∈ t.before.ledger.order.head?,
        t.before.ledger.contains front = true) ↔ front ∈ t.before.others id := by
      rw [hfull]
      constructor
      · intro hfront
        refine ⟨hfront front rfl, ?_⟩
        rintro rfl
        rw [hfront front rfl] at hid
        cases hid
      · rintro hfront _ ⟨⟩
        exact hfront.1
    rw [forall_prop_of_true hid, forall_prop_of_true hlength.ge, hpremise,
      ← q.front_fair hid hfull hlength]
    constructor
    · intro hfair hfront
      exact hfair front hfront ((hgone hfront).2 rfl)
    · intro haligned known hknown hgone'
      obtain rfl := (hgone hknown).1 hgone'
      exact haligned hknown

lemma queued (hcapacity : 1 ≤ capacity) (hrun : Run Step (initial capacity) h s) :
    Queued s ∧ s.ledger.capacity = capacity ∧ ∀ t ∈ h, t.Fair ↔ t.Aligned := by
  refine hrun.invariant (J := fun h s => Queued s ∧ s.ledger.capacity = capacity ∧
    ∀ t ∈ h, t.Fair ↔ t.Aligned) ⟨⟨Nat.zero_le _, .refl _, .nil, by simp [initial, contains]⟩, rfl,
      nofun⟩ ?_
  rintro h s notes s' ⟨q, hsame, hfair⟩ ⟨c, hcall, rfl⟩
  obtain ⟨_, hcall', q', hkeep, hremember⟩ := q.call (hsame ▸ hcapacity) c
  obtain rfl := Option.some.inj (hcall.symm.trans hcall')
  refine ⟨q', hkeep.trans hsame, fun t ht => ?_⟩
  rcases List.mem_append.1 ht with ht | ht
  · exact hfair t ht
  · obtain rfl := List.mem_singleton.1 ht
    exact fair_iff q hremember

/-- Every call is defined, so that there are runs of every sequence of calls. -/
theorem isSome_call (hcapacity : 1 ≤ capacity) (hrun : Run Step (initial capacity) h s) (c : Call) :
    (s.call c).isSome := by
  obtain ⟨q, hsame, -⟩ := queued hcapacity hrun
  obtain ⟨s', hcall, -⟩ := q.call (hsame ▸ hcapacity) c
  rw [hcall]
  rfl

/-- What a ledger of this capacity should do. -/
structure EvictsWhenFull (capacity : ℕ) (h : List Turn) (s : LedgerSystem) : Prop where
  fair : ∀ t ∈ h, t.Fair
  bounded : {known | s.ledger.contains known = true}.encard ≤ capacity

/-- **The ledger evicts only when it is full, as long as its queue is aligned.** -/
theorem evicts_when_full (hcapacity : 1 ≤ capacity) (hrun : Run Step (initial capacity) h s) :
    EvictsWhenFull capacity h s ↔ ∀ t ∈ h, t.Aligned := by
  obtain ⟨q, hsame, hfair⟩ := queued hcapacity hrun
  constructor
  · intro hevicts t ht
    exact (hfair t ht).1 (hevicts.fair t ht)
  · intro haligned
    refine ⟨fun t ht => (hfair t ht).2 (haligned t ht), ?_⟩
    rw [q.encard_pending]
    exact_mod_cast q.sublist.length_le.trans (q.room.trans hsame.le)

/-- The third delivery makes the first go, as two are pending; when one has been taken, the next
delivery only takes the place of the entry that was left behind. -/
theorem evicts_when_full_oldest : ∃ h s, Run Step (initial 2) h s ∧
    h.map (fun t => t.after.waiting) =
      [[[97]], [[97], [98]], [[98], [99]], [[99]], [[99], [100]]] ∧
    EvictsWhenFull 2 h s := by
  have hrun : Run Step (initial 2) _ _ :=
    ((((Run.start.next ⟨.remember [97] ⟨[1], 0⟩, rfl, rfl⟩).next
      ⟨.remember [98] ⟨[2], 1⟩, rfl, rfl⟩).next ⟨.remember [99] ⟨[3], 2⟩, rfl, rfl⟩).next
        ⟨.take [98], rfl, rfl⟩).next ⟨.remember [100] ⟨[4], 3⟩, rfl, rfl⟩
  refine ⟨_, _, hrun, rfl, (evicts_when_full (by decide) hrun).2 ?_⟩
  intro t ht id entry hcall _ hlength hfront
  simp only [List.nil_append, List.mem_append, List.mem_singleton] at ht
  rcases ht with (((rfl | rfl) | rfl) | rfl) | rfl
  · exact absurd hlength (by decide)
  · exact absurd hlength (by decide)
  · -- The queue is full, and both of its entries are of pending deliveries.
    exact ⟨by decide, by decide⟩
  · cases hcall
  · -- The first entry is the one that the `take` left behind.
    exact absurd (hfront [98] rfl) (by decide)

/-- A delivery is taken and remembered again; its own old entry then makes it go when another one
comes, although there is room for two. -/
theorem not_evicts_when_full : ¬∀ (capacity : ℕ) (h : List Turn) (s : LedgerSystem), 1 ≤ capacity →
    Run Step (initial capacity) h s → EvictsWhenFull capacity h s := by
  intro hevicts
  have hrun : Run Step (initial 2) _ _ :=
    (((Run.start.next ⟨.remember [97] ⟨[1], 0⟩, rfl, rfl⟩).next ⟨.take [97], rfl, rfl⟩).next
      ⟨.remember [97] ⟨[1], 1⟩, rfl, rfl⟩).next ⟨.remember [98] ⟨[2], 2⟩, rfl, rfl⟩
  obtain ⟨-, -, hfair⟩ := queued (by decide) hrun
  have haligned := (hfair _ (List.mem_append_right _ (List.mem_singleton_self _))).1
    ((hevicts 2 _ _ (by decide) hrun).fair _ (List.mem_append_right _ (List.mem_singleton_self _)))
  obtain ⟨hnodup, -⟩ := haligned [98] _ rfl rfl le_rfl (by rintro _ ⟨⟩; rfl)
  exact absurd (show ([[97], [97]] : List Bytes).Nodup from hnodup) (by decide)

end Calls

end LedgerSystem

end Link

end ArgusBackend
