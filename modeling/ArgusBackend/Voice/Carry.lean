import ArgusBackend.Library.Places
import ArgusBackend.Voice.Conversations

/-!
# A conversation is carried over once

* `CarriedOnce` : a carry is returned by one claim at most, to the conversation's own user, and a
  claim that waited for it until the close had finished did not lose it;
* `InTime` : no claim marks the conversation for the device once its close goes by the mark that it
  read before;
* `carried_once` : in every run that keeps in time, conversations are carried over once.
-/

namespace ArgusBackend

namespace Voice

open Places

/-- The carry of the conversation that a claim has returned. -/
def returnedOf (id : String) : Request × Phase → Option VoiceSessionCarry
  | (.claim _ id', .returned _ carry) => if id' = id then carry else none
  | _ => none

/-- The carries that requests have returned or still hold. -/
def returns (id : String) (ks : List (Request × Phase)) : List VoiceSessionCarry :=
  ks.filterMap (returnedOf id)

/-- A claim of the user has returned this carry. -/
def Returned (ks : List (Request × Phase)) (userId : ℤ) (id : String) (c : VoiceSessionCarry) :
    Prop :=
  ∃ closed, (Request.claim userId id, Phase.returned closed (some c)) ∈ ks

/-- What the claims of conversations come to. -/
structure CarriedOnce (s : ConversationManager) (ks : List (Request × Phase)) : Prop where
  once : ∀ id, (returns id ks).length ≤ 1
  own : ∀ userId id c, Returned ks userId id c → userId = (s.conversations id).userId
  /-- while the claim waits, the carry is there for it or was returned to its user -/
  waiting : ∀ userId id k reason c, (Request.claim userId id, k) ∈ ks →
    k = .marked ∨ k = .waited true → (Request.close id reason, Phase.finished (some c)) ∈ ks →
      (s.conversations id).carry_ = some c ∨ Returned ks userId id c
  /-- when its wait has ended with the close, its user has it -/
  kept : ∀ userId id carry reason c,
    (Request.claim userId id, Phase.returned (some true) carry) ∈ ks →
      (Request.close id reason, Phase.finished (some c)) ∈ ks → Returned ks userId id c

/-- A close that leaves its conversation resumable stores the carry while what it read of the mark
still holds, and no claim marks a conversation that was left so. -/
def InTime (s : ConversationManager) (_ : List (Request × Phase)) (_ : Phase) : Op → Prop
  | .store id reason device _ =>
    resumable reason device = true → device = (s.conversations id).deviceHandoff_
  | .markDevice id => (s.conversations id).deviceHandoff_ = false →
    (s.conversations id).snapshot_.state ≠ .resumable
  | _ => True

/-! ### What the requests keep to -/

/-- The operations on the carry. -/
def Op.touches (id : String) : Op → Prop
  | .markDevice id' | .take id' | .claimFinished _ id' | .exchangeClosed id' | .store id' _ _ _ =>
    id' = id
  | .ended done => done.snapshot.conversationId = id
  | _ => False

/-- The operations that each phase of a request allows. -/
def protocol : Request → Protocol Phase.after
  | .claim userId id =>
    { allowed := fun k op =>
        match op with
        | .live _ | .closed _ => True
        | .belongs userId' id' => k = .fresh ∧ userId' = userId ∧ id' = id
        | .markDevice id' => k = .own ∧ id' = id
        | .wait id' => k = .marked ∧ id' = id
        | .take id' => (∃ closed, k = .waited closed) ∧ id' = id
        | .claimFinished userId' id' => k = .fresh ∧ userId' = userId ∧ id' = id
        | _ => False }
  | .close id reason =>
    { allowed := fun k op =>
        match op with
        | .closed _ | .started _ => True
        | .readDevice id' => k = .fresh ∧ id' = id
        | .exchangeClosed id' => (∃ device, k = .read device) ∧ id' = id
        | .stopWithCarry _ => ∃ device, k = .won device none
        | .store id' reason' device carry => k = .won device carry ∧ id' = id ∧ reason' = reason
        | .ended done => ∃ carry, k = .stored carry done
        | _ => False }
  | _ => { allowed := fun _ op => ∀ id, ¬op.touches id }

section Protocol

variable {req : Request} {k : Phase}

theorem obeys_open? {id : String} {Q : Option Bool → Phase → Prop}
    (hlive : ∀ k, (protocol req).allowed k (.live id) ∧ (protocol req).allowed k (.closed id))
    (hQ : ∀ r, Q r k) : (open? id).Obeys (protocol req) Q k := by
  refine Task.obeys_call (hlive k).1 (fun _ => hQ _) fun found _ => ?_
  cases found with
  | false => exact hQ _
  | true => exact Task.obeys_call (hlive _).2 (fun _ => hQ _) fun closed _ => hQ _

theorem obeys_claim {userId : ℤ} {id : String} :
    (claim userId id).Obeys (protocol (.claim userId id)) (fun _ _ => True) .fresh := by
  unfold claim
  split
  · trivial
  · refine Task.obeys_bind (Q := fun _ k => k = .fresh)
      (obeys_open? (fun _ => ⟨trivial, trivial⟩) fun _ => rfl) (fun _ _ => trivial) ?_
    rintro live k rfl
    cases live with
    | false => exact Task.obeys_last ⟨rfl, rfl, rfl⟩ fun _ _ => trivial
    | true =>
      refine Task.obeys_call ⟨rfl, rfl, rfl⟩ (fun _ => trivial) fun own _ => ?_
      cases own with
      | false => trivial
      | true =>
        refine Task.obeys_call ⟨rfl, rfl⟩ (fun _ => trivial) fun _ _ => ?_
        refine Task.obeys_call ⟨rfl, rfl⟩ (fun _ => trivial) fun closed _ => ?_
        exact Task.obeys_last ⟨⟨closed, rfl⟩, rfl⟩ fun _ _ => trivial

theorem obeys_closeDown {id : String} {reason : ConversationEnd} {device : Bool} :
    (closeDown id reason device).Obeys (protocol (.close id reason)) (fun _ _ => True)
      (.won device none) := by
  refine Task.obeys_call trivial (fun _ => trivial) fun started _ => ?_
  cases started with
  | true =>
    refine Task.obeys_call ⟨device, rfl⟩ (fun _ => trivial) fun carry _ => ?_
    refine Task.obeys_call ⟨rfl, rfl, rfl⟩ (fun _ => trivial) fun done _ => ?_
    exact Task.obeys_last ⟨carry, rfl⟩ fun _ _ => trivial
  | false =>
    refine Task.obeys_call ⟨rfl, rfl, rfl⟩ (fun _ => trivial) fun done _ => ?_
    exact Task.obeys_last ⟨none, rfl⟩ fun _ _ => trivial

theorem obeys_close {id : String} {reason : ConversationEnd} :
    (close id reason).Obeys (protocol (.close id reason)) (fun _ _ => True) .fresh := by
  refine Task.obeys_call ⟨rfl, rfl⟩ (fun _ => trivial) fun device _ => ?_
  refine Task.obeys_bind (Q := fun _ k => k = Phase.read device) ?_ (fun _ _ => trivial) ?_
  · unfold sayHandoff
    split
    · exact Task.obeys_call trivial (fun _ => rfl) fun _ _ => rfl
    · exact (rfl : Phase.read device = .read device)
  · rintro - k rfl
    refine Task.obeys_call ⟨⟨device, rfl⟩, rfl⟩ (fun _ => trivial) fun closed _ => ?_
    cases closed with
    | true => trivial
    | false => exact obeys_closeDown

/-- A bridge or an end leaves the carry. -/
theorem obeys_mild {userId : ℤ} {id : String} {op : Op} {f : VoiceTask Bool}
    (hplain : (protocol req).allowed = fun _ op => ∀ id, ¬op.touches id)
    (hop : ∀ id, ¬op.touches id) (hf : ∀ k, f.Obeys (protocol req) (fun _ _ => True) k) :
    (do
      let live ← open? id
      if live then
        let own ← ask (.belongs userId id)
        if own then
          let _ ← ask op
          pure true
        else
          pure false
      else f : VoiceTask Bool).Obeys (protocol req) (fun _ _ => True) k := by
  have hallowed : ∀ {k op}, (∀ id, ¬Op.touches id op) → (protocol req).allowed k op :=
    fun h => by rw [hplain]; exact h
  refine Task.obeys_bind (Q := fun _ _ => True)
    (obeys_open? (fun _ => ⟨hallowed fun _ h => h, hallowed fun _ h => h⟩) fun _ => trivial)
    (fun _ _ => trivial) fun live k _ => ?_
  cases live with
  | false => exact hf k
  | true =>
    refine Task.obeys_call (hallowed fun _ h => h) (fun _ => trivial) fun own _ => ?_
    cases own with
    | false => trivial
    | true => exact Task.obeys_call (hallowed hop) (fun _ => trivial) fun _ _ => trivial

theorem obeys_program (req : Request) :
    (program req).Obeys (protocol req) (fun _ _ => True) .fresh := by
  cases req with
  | claim userId id =>
    exact Task.obeys_bind obeys_claim (fun _ _ => trivial) fun _ _ _ => trivial
  | close id reason => exact obeys_close
  | forget id => exact Task.obeys_last (fun _ h => h) fun _ _ => trivial
  | requestEnd id reason => exact Task.obeys_last (fun _ h => h) fun _ _ => trivial
  | reap => exact Task.obeys_last (fun _ h => h) fun _ _ => trivial
  | bridge userId id =>
    refine Task.obeys_bind (Q := fun _ _ => True) ?_ (fun _ _ => trivial) fun _ _ _ => trivial
    unfold bridge
    split
    · trivial
    · exact obeys_mild rfl (fun _ h => h) fun _ => Task.obeys_last (fun _ h => h) fun _ _ => trivial
  | end_ userId id =>
    refine Task.obeys_bind (Q := fun _ _ => True) ?_ (fun _ _ => trivial) fun _ _ _ => trivial
    exact obeys_mild rfl (fun _ h => h) fun _ => Task.obeys_last (fun _ h => h) fun _ _ => trivial

end Protocol

/-! ### Where the carry is -/

/-- The close has stored its end. -/
def CameraConversation.Stored (v : CameraConversation) : Prop :=
  v.snapshot_.state = .resumable ∨ v.snapshot_.state = .ended

/-- The carry is kept for later claims. -/
def CameraConversation.Shelved (v : CameraConversation) : Prop :=
  v.snapshot_.state = .resumable ∧ v.deviceHandoff_ = false

/-- The close that closes the conversation. -/
def wins (id : String) : Request × Phase → Bool
  | (.close id' _, k) =>
    match k with
    | .won _ _ | .stored _ _ | .finished _ => id' = id
    | _ => false
  | _ => false

section Invariant

variable (v : CameraConversation) (out : List VoiceSessionCarry)

/-- A carry that is not kept for later is there for a claim that waits, or was returned. -/
def Placed (carry : Option VoiceSessionCarry) : Prop :=
  ¬v.Shelved → ∀ c, carry = some c → v.carry_ = some c ∨ c ∈ out

/-- What a claim knows of its conversation. -/
def ClaimOk (userId : ℤ) : Phase → Prop
  | .own => userId = v.userId
  | .marked => userId = v.userId ∧ v.deviceHandoff_ = true
  | .waited closed =>
    userId = v.userId ∧ v.deviceHandoff_ = true ∧ (closed = true → v.done = true)
  | .returned (some closed) _ =>
    userId = v.userId ∧ v.deviceHandoff_ = true ∧
      (closed = true → v.done = true ∧ v.carry_ = none)
  | .returned none carry => carry.isSome = true → userId = v.userId
  | _ => True

/-- What a close knows of its conversation. -/
def CloseOk : Phase → Prop
  | .read device => device = true → v.deviceHandoff_ = true
  | .won device _ => (device = true → v.deviceHandoff_ = true) ∧ ¬v.Stored
  | .stored carry done =>
    v.Stored ∧ v.done = false ∧ Placed v out carry ∧
      done.snapshot.conversationId = v.snapshot_.conversationId ∧
      done.snapshot.userId = v.userId ∧ (done.carry.isSome = true →
        done.snapshot.state = .resumable → v.Shelved)
  | .finished carry => v.Stored ∧ Placed v out carry
  | _ => True

/-- What a request knows of a conversation, if it is about it. -/
def RoleOk (id : String) : Request × Phase → Prop
  | (.claim userId id', k) => id' = id → ClaimOk v userId k
  | (.close id' _, k) => id' = id → CloseOk v out k
  | _ => True

end Invariant

/-- Where the carry is, and that it is in one place. -/
structure Stage (s : ConversationManager) (out : List VoiceSessionCarry) (id : String) : Prop where
  named : (s.conversations id).snapshot_.conversationId = id
  owner : ∀ found, s.finished_ id = some found → found.userId = (s.conversations id).userId
  shut : (s.conversations id).Stored → (s.conversations id).closed_ = true
  before : ¬(s.conversations id).Stored → (s.conversations id).carry_ = none ∧
    s.carries_ id = none ∧ out = [] ∧ (s.conversations id).done = false
  shelf : (s.conversations id).Shelved → out.length + (s.carries_ id).toList.length ≤ 1 ∧
    ((s.conversations id).done = false → out = [] ∧ s.carries_ id = none)
  wait : (s.conversations id).Stored → ¬(s.conversations id).Shelved → s.carries_ id = none ∧
    out.length + (s.conversations id).carry_.toList.length ≤ 1

/-- The invariant of a conversation. -/
structure Kept (s : ConversationManager) (ks : List (Request × Phase)) (id : String) : Prop where
  one : ks.countP (wins id) = if (s.conversations id).closed_ then 1 else 0
  stage : Stage s (returns id ks) id
  roles : ∀ r ∈ ks, RoleOk (s.conversations id) (returns id ks) id r

section Steps

variable {s s' : ConversationManager} {ks : List (Request × Phase)} {i : ℕ} {req : Request}
  {k k' : Phase} {r r' : Request × Phase} {id : String} {op : Op} {env : Outside}
  {config : VoiceWatchConfig} {v v' : CameraConversation} {out out' : List VoiceSessionCarry}

/-- One place of the invariant is set anew. -/
theorem Kept.replace (hK : Kept s ks id) (hi : ks[i]? = some r)
    (hone : (if wins id r' then 1 else 0) + (if (s.conversations id).closed_ then 1 else 0) =
      (if wins id r then 1 else 0) + if (s'.conversations id).closed_ then 1 else 0)
    (hstage : Stage s' (returns id (ks.set i r')) id)
    (hrole : RoleOk (s'.conversations id) (returns id (ks.set i r')) id r')
    (hothers : ∀ r'' j, j ≠ i → ks[j]? = some r'' →
      RoleOk (s.conversations id) (returns id ks) id r'' →
        RoleOk (s'.conversations id) (returns id (ks.set i r')) id r'') :
    Kept s' (ks.set i r') id := by
  refine ⟨?_, hstage, fun r'' hr'' => ?_⟩
  · have hcount := @countP_replace _ _ _ _ r' (wins id) hi
    have hone' := hK.one
    omega
  · rcases mem_replaced hr'' with rfl | ⟨j, hij, hj⟩
    · exact hrole
    · exact hothers r'' j hij hj (hK.roles r'' (List.mem_of_getElem? hj))

/-! ### What was returned -/

theorem returns_same (hi : ks[i]? = some r) (h : returnedOf id r' = returnedOf id r) :
    returns id (ks.set i r') = returns id ks := by
  obtain ⟨before, after, hold, hset⟩ := filterMap_replace (returnedOf id) hi
  rw [returns, returns, hset, hold, h]

variable (r' id) in
/-- A claim returns what it may. -/
theorem returns_more (hi : ks[i]? = some r) (h : returnedOf id r = none) :
    (returns id (ks.set i r')).length =
        (returns id ks).length + (returnedOf id r').toList.length ∧
      returns id ks ⊆ returns id (ks.set i r') ∧
      ∀ c, returnedOf id r' = some c → c ∈ returns id (ks.set i r') := by
  obtain ⟨before, after, hold, hset⟩ := filterMap_replace (returnedOf id) hi
  rw [returns, returns, hset, hold, h]
  refine ⟨?_, fun c hc => ?_, fun c hc => ?_⟩
  · simp only [List.length_append, Option.toList_none, List.length_nil]
    omega
  · simp only [List.mem_append] at hc ⊢
    rcases hc with (hbefore | hnone) | hafter
    · exact .inl (.inl hbefore)
    · exact absurd hnone List.not_mem_nil
    · exact .inr hafter
  · simp [hc]

theorem Placed.mono {carry : Option VoiceSessionCarry} (h : Placed v out carry) (hsub : out ⊆ out') :
    Placed v out' carry :=
  fun hsh c hc => (h hsh c hc).imp id fun hmem => hsub hmem

theorem RoleOk.mono (h : RoleOk v out id r) (hsub : out ⊆ out') : RoleOk v out' id r := by
  obtain ⟨req, k⟩ := r
  cases req with
  | close id' reason =>
    intro hid
    have hold := h hid
    cases k with
    | stored carry done => exact ⟨hold.1, hold.2.1, hold.2.2.1.mono hsub, hold.2.2.2⟩
    | finished carry => exact ⟨hold.1, hold.2.mono hsub⟩
    | _ => exact hold
  | _ => exact h

/-! ### Steps that leave the carry -/

/-- The conversation is as it was, up to what no claim goes by; the manager may drop its carry. -/
structure Calm (s s' : ConversationManager) (id : String) : Prop where
  named : (s'.conversations id).snapshot_.conversationId =
    (s.conversations id).snapshot_.conversationId
  user : (s'.conversations id).userId = (s.conversations id).userId
  state : (s'.conversations id).snapshot_.state = (s.conversations id).snapshot_.state
  device : (s'.conversations id).deviceHandoff_ = (s.conversations id).deviceHandoff_
  closed : (s'.conversations id).closed_ = (s.conversations id).closed_
  carry : (s'.conversations id).carry_ = (s.conversations id).carry_
  done : (s'.conversations id).done = (s.conversations id).done
  carries : s'.carries_ id = s.carries_ id ∨ s'.carries_ id = none
  owner : ∀ found', s'.finished_ id = some found' →
    ∃ found, s.finished_ id = some found ∧ found'.userId = found.userId

theorem Calm.refl : Calm s s id :=
  ⟨rfl, rfl, rfl, rfl, rfl, rfl, rfl, .inl rfl, fun found h => ⟨found, h, rfl⟩⟩

theorem Calm.stored (h : Calm s s' id) :
    (s'.conversations id).Stored ↔ (s.conversations id).Stored := by
  simp only [CameraConversation.Stored, h.state]

theorem Calm.shelved (h : Calm s s' id) :
    (s'.conversations id).Shelved ↔ (s.conversations id).Shelved := by
  simp only [CameraConversation.Shelved, h.state, h.device]

theorem Calm.stage (h : Calm s s' id) (hS : Stage s out id) : Stage s' out id := by
  have hfewer : (s'.carries_ id).toList.length ≤ (s.carries_ id).toList.length := by
    rcases h.carries with heq | heq <;> simp [heq]
  have hnone : s.carries_ id = none → s'.carries_ id = none := by
    intro hn
    rcases h.carries with heq | heq
    · rw [heq, hn]
    · exact heq
  refine ⟨h.named.trans hS.named, fun found' hfound' => ?_,
    fun hst => h.closed.trans (hS.shut (h.stored.1 hst)), fun hn => ?_, fun hsh => ?_,
    fun hst hsh => ?_⟩
  · obtain ⟨found, hfound, huser⟩ := h.owner found' hfound'
    rw [huser, h.user]
    exact hS.owner found hfound
  · obtain ⟨hcarry, hcarries, hout, hdone⟩ := hS.before (mt h.stored.2 hn)
    exact ⟨h.carry.trans hcarry, hnone hcarries, hout, h.done.trans hdone⟩
  · obtain ⟨hle, hearly⟩ := hS.shelf (h.shelved.1 hsh)
    refine ⟨by omega, fun hdone => ?_⟩
    obtain ⟨hout, hcarries⟩ := hearly (h.done.symm.trans hdone)
    exact ⟨hout, hnone hcarries⟩
  · obtain ⟨hcarries, hle⟩ := hS.wait (h.stored.1 hst) (mt h.shelved.2 hsh)
    rw [h.carry]
    exact ⟨hnone hcarries, hle⟩

theorem Calm.role (h : Calm s s' id) (hr : RoleOk (s.conversations id) out id r) :
    RoleOk (s'.conversations id) out id r := by
  have hsame : ∀ carry, Placed (s.conversations id) out carry → Placed (s'.conversations id) out carry := by
    intro carry hplaced hsh c hc
    rw [h.carry]
    exact hplaced (mt h.shelved.2 hsh) c hc
  obtain ⟨req, k⟩ := r
  cases req with
  | claim userId id' =>
    intro hid
    have hold := hr hid
    cases k with
    | own => exact hold.trans h.user.symm
    | marked => exact ⟨hold.1.trans h.user.symm, h.device.trans hold.2⟩
    | waited closed =>
      exact ⟨hold.1.trans h.user.symm, h.device.trans hold.2.1, fun hc => h.done.trans (hold.2.2 hc)⟩
    | returned closed carry =>
      cases closed with
      | none => exact fun hsome => (hold hsome).trans h.user.symm
      | some closed =>
        exact ⟨hold.1.trans h.user.symm, h.device.trans hold.2.1, fun hc =>
          ⟨h.done.trans (hold.2.2 hc).1, h.carry.trans (hold.2.2 hc).2⟩⟩
    | _ => trivial
  | close id' reason =>
    intro hid
    have hold := hr hid
    cases k with
    | stored carry done =>
      obtain ⟨hst, hdone, hplaced, hnamed, huser, hkeeps⟩ := hold
      exact ⟨h.stored.2 hst, h.done.trans hdone, hsame carry hplaced, hnamed.trans h.named.symm,
        huser.trans h.user.symm, fun hsome hres => h.shelved.2 (hkeeps hsome hres)⟩
    | finished carry => exact ⟨h.stored.2 hold.1, hsame carry hold.2⟩
    | won device carry => exact ⟨fun hd => h.device.trans (hold.1 hd), mt h.stored.1 hold.2⟩
    | read device => exact fun hd => h.device.trans (hold hd)
    | _ => trivial
  | _ => trivial

theorem calm_of_eq (hv : s'.conversations id = s.conversations id)
    (hcarries : s'.carries_ id = s.carries_ id ∨ s'.carries_ id = none)
    (howner : ∀ found', s'.finished_ id = some found' →
      ∃ found, s.finished_ id = some found ∧ found'.userId = found.userId) : Calm s s' id :=
  ⟨by rw [hv], by rw [hv], by rw [hv], by rw [hv], by rw [hv], by rw [hv], by rw [hv], hcarries,
    howner⟩

theorem calm_put_ne {id' : String} (hne : id' ≠ id) : Calm s (s.put id' v) id :=
  calm_of_eq (Function.update_of_ne (Ne.symm hne) _ _) (.inl rfl) fun found h => ⟨found, h, rfl⟩

theorem calm_put
    (hsnapshot : (v.snapshot_.conversationId, v.snapshot_.userId, v.snapshot_.state) =
      ((s.conversations id).snapshot_.conversationId, (s.conversations id).snapshot_.userId,
        (s.conversations id).snapshot_.state))
    (hdevice : v.deviceHandoff_ = (s.conversations id).deviceHandoff_)
    (hclosed : v.closed_ = (s.conversations id).closed_)
    (hcarry : v.carry_ = (s.conversations id).carry_) (hdone : v.done = (s.conversations id).done) :
    Calm s (s.put id v) id := by
  simp only [Prod.mk.injEq] at hsnapshot
  obtain ⟨hnamed, huser, hstate⟩ := hsnapshot
  have hv : (s.put id v).conversations id = v := Function.update_self _ _ _
  refine ⟨?_, ?_, ?_, ?_, ?_, ?_, ?_, .inl rfl, fun found h => ⟨found, h, rfl⟩⟩ <;> rw [hv]
  · exact hnamed
  · exact huser
  · exact hstate
  · exact hdevice
  · exact hclosed
  · exact hcarry
  · exact hdone

/-- A finished conversation is set anew, and its user stays. -/
theorem calm_finish {id' : String} {found found' : ConversationSnapshot}
    (hfound : s.finished_ id' = some found) (huser : found'.userId = found.userId) :
    Calm s (s.finish id' found') id := by
  refine calm_of_eq rfl (.inl rfl) fun f hf => ?_
  by_cases hid : id = id'
  · subst hid
    obtain rfl : found' = f := by
      simpa [ConversationManager.finish] using hf
    exact ⟨found, hfound, huser⟩
  · exact ⟨f, by simpa only [ConversationManager.finish, Function.update_of_ne hid] using hf, rfl⟩

theorem calm_reap {now : ℤ} : Calm s (s.reap now) id := by
  refine calm_of_eq rfl ?_ fun found' hfound' => ?_
  · simp only [ConversationManager.reap]
    split
    · exact .inr rfl
    · exact .inl rfl
  · obtain ⟨hmap, -⟩ := Option.filter_eq_some_iff.1 hfound'
    obtain ⟨found, hfound, rfl⟩ := Option.map_eq_some_iff.1 hmap
    refine ⟨found, hfound, ?_⟩
    unfold ConversationManager.expire
    split <;> rfl

theorem calm_forget {id' : String} : Calm s (s.forget id') id := by
  by_cases hid : id = id'
  · subst hid
    refine calm_of_eq rfl (.inr (Function.update_self _ _ _)) fun found' hfound' => ?_
    simp [ConversationManager.forget] at hfound'
  · exact calm_of_eq rfl (.inl (Function.update_of_ne hid _ _)) fun found h =>
      ⟨found, by simpa only [ConversationManager.forget, Function.update_of_ne hid] using h, rfl⟩

theorem calm_ended {done : ConversationEnded} (hne : done.snapshot.conversationId ≠ id) :
    Calm s (s.ended done) id := by
  refine calm_of_eq (Function.update_of_ne hne.symm _ _) ?_ fun found h => ⟨found, ?_, rfl⟩
  · simp only [ConversationManager.ended]
    split
    · exact .inl (Function.update_of_ne hne.symm _ _)
    · exact .inl rfl
  · simpa only [ConversationManager.ended, ConversationManager.finish,
      Function.update_of_ne hne.symm] using h

theorem calm_claimFinished {userId : ℤ} {id' : String} {now : ℤ} (hne : id' ≠ id) :
    Calm s (s.claimFinished userId id' now).2 id := by
  unfold ConversationManager.claimFinished
  split
  next found kept hfound hkept =>
    split
    · exact Calm.refl
    · exact calm_of_eq rfl (.inl (Function.update_of_ne hne.symm _ _)) fun f h =>
        ⟨f, by simpa only [ConversationManager.finish, Function.update_of_ne hne.symm] using h, rfl⟩
  next => exact Calm.refl

/-- Only the operations on the carry of a conversation change what its claims go by. -/
theorem calm_exec (hop : ¬op.touches id) : Calm s (exec config env op s).2.2 id := by
  cases op with
  | live id' => exact Calm.refl
  | closed id' => exact Calm.refl
  | belongs userId id' => exact Calm.refl
  | wait id' => exact Calm.refl
  | readDevice id' => exact Calm.refl
  | started id' => exact Calm.refl
  | stopWithCarry id' => exact Calm.refl
  | markDevice id' => exact calm_put_ne hop
  | take id' => exact calm_put_ne hop
  | exchangeClosed id' => exact calm_put_ne hop
  | store id' reason device carry => exact calm_put_ne hop
  | ended done => exact calm_ended hop
  | claimFinished userId id' => exact calm_claimFinished hop
  | forget id' => exact calm_forget
  | reap => exact calm_reap
  | endFinished userId id' =>
    simp only [exec, ConversationManager.endFinished]
    split
    · exact Calm.refl
    next found hfound =>
      split
      · exact Calm.refl
      · exact calm_finish hfound rfl
  | bridgeFinished userId id' =>
    simp only [exec, ConversationManager.bridgeFinished]
    split
    · exact Calm.refl
    next found hfound =>
      split
      · exact Calm.refl
      · exact calm_finish hfound rfl
  | requestEnd id' reason =>
    by_cases hid : id' = id
    · subst hid
      refine calm_put ?_ ?_ ?_ ?_ ?_ <;>
        (simp only [CameraConversation.requestEnd]; split <;> rfl)
    · exact calm_put_ne hid
  | markHandoff id' handoff =>
    by_cases hid : id' = id
    · subst hid
      exact calm_put rfl rfl rfl rfl rfl
    · exact calm_put_ne hid

/-- A step that leaves the carry, of a request that goes on as it may. -/
theorem Kept.calm (hK : Kept s ks id) (hi : ks[i]? = some r) (h : Calm s s' id)
    (hwins : wins id r' = wins id r) (hreturned : returnedOf id r' = returnedOf id r)
    (hrole : RoleOk (s'.conversations id) (returns id ks) id r') : Kept s' (ks.set i r') id := by
  have hsame := returns_same hi hreturned
  refine hK.replace hi ?_ ?_ ?_ fun r'' j _ _ hr'' => ?_
  · rw [hwins, h.closed]
  · rw [hsame]
    exact h.stage hK.stage
  · rwa [hsame]
  · rw [hsame]
    exact h.role hr''

/-! ### Steps on the carry -/

theorem put_at : (s.put id v).conversations id = v := Function.update_self _ _ _

/-- A conversation that its close left resumable is not marked. -/
theorem not_shelved_of_markable (hok : (s.conversations id).deviceHandoff_ = false →
    (s.conversations id).snapshot_.state ≠ .resumable) : ¬(s.conversations id).Shelved :=
  fun hsh => hok hsh.2 hsh.1

theorem Kept.markDevice {userId : ℤ} (hK : Kept s ks id)
    (hi : ks[i]? = some (.claim userId id, .own))
    (hok : (s.conversations id).deviceHandoff_ = false →
      (s.conversations id).snapshot_.state ≠ .resumable) :
    Kept (s.put id (s.conversations id).markDevice) (ks.set i (.claim userId id, .marked)) id := by
  -- the condition: what a close has shelved is not marked any more
  have hshelved := not_shelved_of_markable hok
  have hshelved' : ¬(s.conversations id).markDevice.Shelved := fun hsh => by cases hsh.2
  have hS := hK.stage
  have hown : userId = (s.conversations id).userId := hK.roles _ (List.mem_of_getElem? hi) rfl
  have hsame : returns id (ks.set i (.claim userId id, .marked)) = returns id ks :=
    returns_same hi rfl
  refine hK.replace hi (by rw [put_at]; rfl) ?_ ?_ fun r'' j _ _ hr'' => ?_
  · rw [hsame]
    refine ⟨?_, ?_, ?_, ?_, ?_, ?_⟩ <;> rw [put_at]
    · exact hS.named
    · exact hS.owner
    · exact hS.shut
    · exact hS.before
    · exact fun hsh => absurd hsh hshelved'
    · exact fun hst _ => hS.wait hst hshelved
  · rw [put_at]
    exact fun _ => ⟨hown, rfl⟩
  · rw [hsame, put_at]
    obtain ⟨req, k⟩ := r''
    cases req with
    | claim userId' id' =>
      intro hid
      have hold := hr'' hid
      cases k with
      | own => exact hold
      | marked => exact ⟨hold.1, rfl⟩
      | waited closed => exact ⟨hold.1, rfl, hold.2.2⟩
      | returned closed carry =>
        cases closed with
        | none => exact hold
        | some closed => exact ⟨hold.1, rfl, hold.2.2⟩
      | _ => trivial
    | close id' reason =>
      intro hid
      have hold := hr'' hid
      cases k with
      -- a close may have read the flag before
      | read device => exact fun _ => rfl
      | won device carry => exact ⟨fun _ => rfl, hold.2⟩
      | stored carry done =>
        obtain ⟨hst, hdone, hplaced, hnamed, huser, hkeeps⟩ := hold
        exact ⟨hst, hdone, fun _ => hplaced hshelved, hnamed, huser, fun hsome hres =>
          absurd (hkeeps hsome hres) hshelved⟩
      | finished carry => exact ⟨hold.1, fun _ => hold.2 hshelved⟩
      | _ => trivial
    | _ => trivial

/-- A claim whose wait is over takes the carry, if it is there. -/
theorem Kept.take {userId : ℤ} {closed : Bool} (hK : Kept s ks id)
    (hi : ks[i]? = some (.claim userId id, .waited closed)) :
    Kept (s.put id { s.conversations id with carry_ := none })
      (ks.set i (.claim userId id, .returned (some closed) (s.conversations id).carry_)) id := by
  have hS := hK.stage
  obtain ⟨hown, hdevice, hdone⟩ : ClaimOk _ userId (.waited closed) :=
    hK.roles _ (List.mem_of_getElem? hi) rfl
  -- the conversation is marked, so nothing of it is shelved
  have hshelved : ¬(s.conversations id).Shelved := fun hsh =>
    Bool.noConfusion (hdevice.symm.trans hsh.2)
  obtain ⟨hlength, hsub, hmem⟩ := returns_more
    (.claim userId id, .returned (some closed) (s.conversations id).carry_) id hi rfl
  have hcarry : returnedOf id (.claim userId id, .returned (some closed)
      (s.conversations id).carry_) = (s.conversations id).carry_ := if_pos rfl
  rw [hcarry] at hlength hmem
  refine hK.replace hi (by rw [put_at]; rfl) ?_ ?_ fun r'' j _ _ hr'' => ?_
  · refine ⟨?_, ?_, ?_, ?_, ?_, ?_⟩ <;> rw [put_at]
    · exact hS.named
    · exact hS.owner
    · exact hS.shut
    · intro hst
      obtain ⟨hnone, hcarries, hout, hdone'⟩ := hS.before hst
      refine ⟨rfl, hcarries, List.eq_nil_of_length_eq_zero ?_, hdone'⟩
      rw [hlength, hout, hnone]
      rfl
    · exact fun hsh => absurd hsh hshelved
    · intro hst _
      obtain ⟨hcarries, hle⟩ := hS.wait hst hshelved
      refine ⟨hcarries, ?_⟩
      simp only [Option.toList_none, List.length_nil]
      omega
  · rw [put_at]
    exact fun _ => ⟨hown, hdevice, fun hclosed => ⟨hdone hclosed, rfl⟩⟩
  · rw [put_at]
    -- a carry that was there is now among those returned
    have hplaced : ∀ carry, Placed (s.conversations id) (returns id ks) carry →
        Placed { s.conversations id with carry_ := none }
          (returns id (ks.set i (.claim userId id, .returned (some closed)
            (s.conversations id).carry_))) carry := by
      intro carry hplaced _ c hc
      rcases hplaced hshelved c hc with hthere | hout
      · exact .inr (hmem c hthere)
      · exact .inr (hsub hout)
    obtain ⟨req, k⟩ := r''
    cases req with
    | claim userId' id' =>
      intro hid
      have hold := hr'' hid
      cases k with
      | returned closed' carry =>
        cases closed' with
        | none => exact hold
        | some closed' => exact ⟨hold.1, hold.2.1, fun hc => ⟨(hold.2.2 hc).1, rfl⟩⟩
      | _ => exact hold
    | close id' reason =>
      intro hid
      have hold := hr'' hid
      cases k with
      | stored carry done => exact ⟨hold.1, hold.2.1, hplaced _ hold.2.2.1, hold.2.2.2⟩
      | finished carry => exact ⟨hold.1, hplaced _ hold.2⟩
      | _ => exact hold
    | _ => trivial

/-- A later claim takes the carry that is kept for it. -/
theorem Kept.claimFinished {userId : ℤ} {now : ℤ} (hK : Kept s ks id)
    (hi : ks[i]? = some (.claim userId id, .fresh)) :
    Kept (s.claimFinished userId id now).2
      (ks.set i (.claim userId id, .returned none (s.claimFinished userId id now).1)) id := by
  have hS := hK.stage
  -- a claim that finds nothing leaves everything
  have hnothing : Kept s (ks.set i (.claim userId id, .returned none none)) id :=
    hK.calm hi Calm.refl rfl (if_pos rfl) fun _ hsome => by cases hsome
  unfold ConversationManager.claimFinished
  split
  next found kept hfound hkept =>
    split
    · exact hnothing
    next hmatch =>
      simp only [not_or, not_not] at hmatch
      -- what is kept was put there by a close that stored it
      have hst : (s.conversations id).Stored := by
        by_contra hst
        rw [(hS.before hst).2.1] at hkept
        cases hkept
      have hshelved : (s.conversations id).Shelved := by
        by_contra hsh
        rw [(hS.wait hst hsh).1] at hkept
        cases hkept
      obtain ⟨hle, hearly⟩ := hS.shelf hshelved
      have hdone : (s.conversations id).done ≠ false := by
        intro hdone
        rw [(hearly hdone).2] at hkept
        cases hkept
      obtain ⟨hlength, hsub, -⟩ :=
        returns_more (.claim userId id, .returned none (some kept)) id hi rfl
      have hcarry : returnedOf id (.claim userId id, .returned none (some kept)) = some kept :=
        if_pos rfl
      rw [hcarry] at hlength
      rw [hkept] at hle
      simp only [Option.toList_some, List.length_singleton] at hle hlength
      refine hK.replace hi rfl ⟨hS.named, fun f hf => ?_, hS.shut, fun hn => absurd hst hn,
        fun _ => ⟨?_, fun hfalse => absurd hfalse hdone⟩, fun _ hsh => absurd hshelved hsh⟩
        (fun _ _ => hmatch.1.symm.trans (hS.owner found hfound))
        fun r'' j _ _ hr'' => RoleOk.mono hr'' hsub
      · obtain rfl : _ = f := by
          simpa [ConversationManager.finish] using hf
        exact hS.owner found hfound
      · simp only [Function.update_self, Option.toList_none, List.length_nil]
        omega
  next => exact hnothing

/-- A close becomes the one that closes the conversation. -/
theorem Kept.exchangeClosed {reason : ConversationEnd} {device : Bool} (hK : Kept s ks id)
    (hi : ks[i]? = some (.close id reason, .read device))
    (hclosed : (s.conversations id).closed_ = false) :
    Kept (s.put id { s.conversations id with closed_ := true })
      (ks.set i (.close id reason, .won device none)) id := by
  have hS := hK.stage
  have hread : device = true → (s.conversations id).deviceHandoff_ = true :=
    hK.roles _ (List.mem_of_getElem? hi) rfl
  have hst : ¬(s.conversations id).Stored := fun hst =>
    Bool.noConfusion (hclosed.symm.trans (hS.shut hst))
  have hsame : returns id (ks.set i (.close id reason, .won device none)) = returns id ks :=
    returns_same hi rfl
  have hwins : wins id (.close id reason, .won device none) = true := decide_eq_true rfl
  refine hK.replace hi ?_ ?_ ?_ fun r'' j _ _ hr'' => ?_
  · rw [put_at, if_pos hwins, hclosed]
    rfl
  · rw [hsame]
    refine ⟨?_, ?_, ?_, ?_, ?_, ?_⟩ <;> rw [put_at]
    · exact hS.named
    · exact hS.owner
    · exact fun _ => rfl
    · exact hS.before
    · exact hS.shelf
    · exact hS.wait
  · rw [put_at]
    exact fun _ => ⟨hread, hst⟩
  · rw [hsame, put_at]
    exact hr''

/-- No other close is the one that closes the conversation. -/
theorem Kept.alone (hK : Kept s ks id) (hi : ks[i]? = some r) (hwins : wins id r = true) {j : ℕ}
    (hij : j ≠ i) (hj : ks[j]? = some r') : wins id r' = false := by
  have hone : ks.countP (wins id) ≤ 1 := by
    rw [hK.one]
    split <;> omega
  by_contra hother
  exact hij (eq_of_countP_le_one hone hj (by simpa using hother) hi hwins)

theorem Kept.closed (hK : Kept s ks id) (hi : ks[i]? = some r) (hwins : wins id r = true) :
    (s.conversations id).closed_ = true := by
  have hpos := List.countP_pos_iff.2 ⟨r, List.mem_of_getElem? hi, hwins⟩
  have hone := hK.one
  by_contra hopen
  rw [if_neg hopen] at hone
  omega

theorem Kept.store {reason : ConversationEnd} {device : Bool} {carry : Option VoiceSessionCarry}
    {now : ℤ} {done : ConversationEnded} (hK : Kept s ks id)
    (hi : ks[i]? = some (.close id reason, .won device carry))
    (hok : resumable reason device = true → device = (s.conversations id).deviceHandoff_)
    (hdone : done = { snapshot := (s.conversations id).closing config reason device now, reason
                      carry := if device then none else carry }) :
    Kept (s.put id ((s.conversations id).store config reason device carry now))
      (ks.set i (.close id reason, .stored carry done)) id := by
  have hS := hK.stage
  have hwins : wins id (.close id reason, .won device carry) = true := decide_eq_true rfl
  have hwins' : wins id (.close id reason, .stored carry done) = true := decide_eq_true rfl
  obtain ⟨hdevice, hst⟩ : CloseOk (s.conversations id) (returns id ks) (.won device carry) :=
    hK.roles _ (List.mem_of_getElem? hi) rfl
  -- nothing was stored or returned before
  obtain ⟨-, hcarries, hout, hnotdone⟩ := hS.before hst
  have hsame : returns id (ks.set i (.close id reason, .stored carry done)) = [] :=
    (returns_same hi (by rfl)).trans hout
  have hst' : ((s.conversations id).store config reason device carry now).Stored := by
    unfold CameraConversation.Stored CameraConversation.store CameraConversation.closing
    split <;> simp
  refine hK.replace hi ?_ ?_ ?_ fun r'' j hij hj hr'' => ?_
  · rw [put_at, if_pos hwins, if_pos hwins']
    rfl
  · rw [hsame]
    refine ⟨?_, ?_, ?_, ?_, ?_, ?_⟩ <;> rw [put_at]
    · exact hS.named
    · exact hS.owner
    · exact fun _ => hK.closed hi hwins
    · exact fun hn => absurd hst' hn
    · refine fun _ => ⟨?_, fun _ => ⟨rfl, hcarries⟩⟩
      rw [show (s.put id _).carries_ id = none from hcarries]
      exact Nat.zero_le _
    · refine fun _ _ => ⟨hcarries, ?_⟩
      cases carry <;> simp [CameraConversation.store]
  · rw [put_at, hsame, hdone]
    refine fun _ => ⟨hst', hnotdone, fun _ c hc => .inl hc, rfl, rfl, fun hsome hres => ?_⟩
    have hfalse : device = false := by
      cases device with
      | false => rfl
      | true => cases hsome
    refine ⟨hres, ?_⟩
    -- the value read is still the flag where the carry is shelved
    have hresumable : resumable reason device = true := by
      by_contra hnot
      simp [CameraConversation.closing, hnot] at hres
    exact (hok hresumable).symm.trans hfalse
  · rw [put_at, hsame]
    rw [hout] at hr''
    -- no other close has come this far
    have hother := hK.alone hi hwins hij hj
    obtain ⟨req, k⟩ := r''
    cases req with
    | claim userId id' =>
      intro hid
      have hold := hr'' hid
      cases k with
      | returned closed carry' =>
        cases closed with
        | none => exact hold
        | some closed =>
          exact ⟨hold.1, hold.2.1, fun hc =>
            Bool.noConfusion (hnotdone.symm.trans (hold.2.2 hc).1)⟩
      | _ => exact hold
    | close id' reason' =>
      intro hid
      have hold := hr'' hid
      cases k with
      | won device' carry' => simp [wins, hid] at hother
      | stored carry' done' => simp [wins, hid] at hother
      | finished carry' => simp [wins, hid] at hother
      | _ => exact hold
    | _ => trivial

theorem Kept.ended {reason : ConversationEnd} {carry : Option VoiceSessionCarry}
    {done : ConversationEnded} (hK : Kept s ks id)
    (hi : ks[i]? = some (.close id reason, .stored carry done)) :
    Kept (s.ended done) (ks.set i (.close id reason, .finished carry)) id := by
  have hS := hK.stage
  have hwins : wins id (.close id reason, .stored carry done) = true := decide_eq_true rfl
  have hwins' : wins id (.close id reason, .finished carry) = true := decide_eq_true rfl
  obtain ⟨hst, hnotdone, hplaced, hnamed, huser, hkeeps⟩ :
      CloseOk (s.conversations id) (returns id ks) (.stored carry done) :=
    hK.roles _ (List.mem_of_getElem? hi) rfl
  have hsame : returns id (ks.set i (.close id reason, .finished carry)) = returns id ks :=
    returns_same hi rfl
  -- what ended is this conversation
  have hid : done.snapshot.conversationId = id := hnamed.trans hS.named
  have hv : (s.ended done).conversations id = { s.conversations id with done := true } := by
    simp [ConversationManager.ended, hid]
  refine hK.replace hi ?_ ?_ ?_ fun r'' j hij hj hr'' => ?_
  · rw [hv, if_pos hwins, if_pos hwins']
  · rw [hsame]
    refine ⟨?_, fun found hfound => ?_, ?_, ?_, fun hsh => ⟨?_, ?_⟩, fun _ hsh => ⟨?_, ?_⟩⟩
    · rw [hv]
      exact hS.named
    · obtain rfl : done.snapshot = found := by
        simpa [ConversationManager.ended, ConversationManager.finish, hid] using hfound
      rw [hv]
      exact huser
    · rw [hv]
      exact hS.shut
    · rw [hv]
      exact fun hn => absurd hst hn
    · rw [hv] at hsh
      rw [((hS.shelf hsh).2 hnotdone).1]
      cases (s.ended done).carries_ id <;> simp
    · rw [hv]
      exact fun hfalse => by cases hfalse
    · rw [hv] at hsh
      -- nothing is put into `carries_` for a conversation that is not shelved
      have hnot : ¬(done.carry.isSome ∧ 0 < done.snapshot.userId ∧
          done.snapshot.state = .resumable) := fun h => hsh (hkeeps h.1 h.2.2)
      simp only [ConversationManager.ended, if_neg hnot]
      exact (hS.wait hst hsh).1
    · rw [hv] at hsh ⊢
      exact (hS.wait hst hsh).2
  · rw [hv, hsame]
    exact fun _ => ⟨hst, hplaced⟩
  · rw [hv, hsame]
    -- no other close has come this far
    have hother := hK.alone hi hwins hij hj
    obtain ⟨req, k⟩ := r''
    cases req with
    | claim userId id' =>
      intro hid
      have hold := hr'' hid
      cases k with
      | waited closed => exact ⟨hold.1, hold.2.1, fun _ => rfl⟩
      | returned closed carry' =>
        cases closed with
        | none => exact hold
        | some closed => exact ⟨hold.1, hold.2.1, fun hc => ⟨rfl, (hold.2.2 hc).2⟩⟩
      | _ => exact hold
    | close id' reason' =>
      intro hid
      have hold := hr'' hid
      cases k with
      | won device' carry' => simp [wins, hid] at hother
      | stored carry' done' => simp [wins, hid] at hother
      | finished carry' => simp [wins, hid] at hother
      | _ => exact hold
    | _ => trivial

/-! ### One step -/

/-- A request that is neither a claim nor a close of the conversation does not count for it. -/
def Aside (id : String) (req : Request) : Prop :=
  ∀ k, wins id (req, k) = false ∧ returnedOf id (req, k) = none ∧
    ∀ v out, RoleOk v out id (req, k)

theorem aside_claim {userId : ℤ} {id' : String} (hne : id' ≠ id) : Aside id (.claim userId id') :=
  fun k => ⟨rfl, by cases k <;> first | rfl | exact if_neg hne, fun _ _ hid => absurd hid hne⟩

theorem aside_close {id' : String} {reason : ConversationEnd} (hne : id' ≠ id) :
    Aside id (.close id' reason) :=
  fun k => ⟨by cases k <;> first | rfl | exact decide_eq_false hne, rfl,
    fun _ _ hid => absurd hid hne⟩

theorem Kept.aside (hK : Kept s ks id) (hi : ks[i]? = some (req, k)) (haside : Aside id req)
    (hop : ¬op.touches id) : Kept (exec config env op s).2.2 (ks.set i (req, k')) id :=
  hK.calm hi (calm_exec hop) ((haside k').1.trans (haside k).1.symm)
    ((haside k').2.1.trans (haside k).2.1.symm) ((haside k').2.2 _ _)

theorem kept_claim {userId : ℤ} {id' : String} (hK : Kept s ks id)
    (hi : ks[i]? = some (.claim userId id', k)) (hallowed : (protocol (.claim userId id')).allowed k op)
    (hok : InTime s ks k op) :
    Kept (exec config env op s).2.2
      (ks.set i (.claim userId id', k.after op (some (exec config env op s).1))) id := by
  by_cases hid : id' = id
  · subst hid
    have hrole := hK.roles _ (List.mem_of_getElem? hi)
    cases op with
    | live id => exact hK.calm hi Calm.refl rfl rfl hrole
    | closed id => exact hK.calm hi Calm.refl rfl rfl hrole
    | belongs userId' id =>
      obtain ⟨rfl, rfl, rfl⟩ := hallowed
      by_cases huser : (s.conversations id).userId = userId'
      · simp only [exec, Phase.after, huser, decide_true]
        exact hK.calm hi Calm.refl rfl rfl fun _ => huser.symm
      · simp only [exec, Phase.after, huser, decide_false]
        exact hK.calm hi Calm.refl rfl rfl hrole
    | markDevice id =>
      obtain ⟨rfl, rfl⟩ := hallowed
      exact hK.markDevice hi hok
    | wait id =>
      obtain ⟨rfl, rfl⟩ := hallowed
      exact hK.calm hi Calm.refl rfl rfl fun _ => ⟨(hrole rfl).1, (hrole rfl).2, fun h => h⟩
    | take id =>
      obtain ⟨⟨closed, rfl⟩, rfl⟩ := hallowed
      exact hK.take hi
    | claimFinished userId' id =>
      obtain ⟨rfl, rfl, rfl⟩ := hallowed
      exact hK.claimFinished hi
    | _ => exact hallowed.elim
  · refine hK.aside hi (aside_claim hid) ?_
    cases op with
    | markDevice id => exact fun heq => hid (hallowed.2.symm.trans heq)
    | take id => exact fun heq => hid (hallowed.2.symm.trans heq)
    | claimFinished userId' id => exact fun heq => hid (hallowed.2.2.symm.trans heq)
    | exchangeClosed id => exact hallowed.elim
    | store id reason device carry => exact hallowed.elim
    | ended done => exact hallowed.elim
    | _ => exact fun h => h

/-- What a close tells the manager is about its own conversation. -/
theorem Kept.named {id' : String} {reason : ConversationEnd} {carry : Option VoiceSessionCarry}
    {done : ConversationEnded} (hK : Kept s ks id')
    (hi : ks[i]? = some (.close id' reason, .stored carry done)) :
    done.snapshot.conversationId = id' := by
  obtain ⟨-, -, -, hnamed, -⟩ : CloseOk (s.conversations id') (returns id' ks) (.stored carry done) :=
    hK.roles _ (List.mem_of_getElem? hi) rfl
  exact hnamed.trans hK.stage.named

theorem kept_close {id' : String} {reason : ConversationEnd} (hK : ∀ id, Kept s ks id)
    (hi : ks[i]? = some (.close id' reason, k)) (hallowed : (protocol (.close id' reason)).allowed k op)
    (hok : InTime s ks k op) :
    Kept (exec config env op s).2.2
      (ks.set i (.close id' reason, k.after op (some (exec config env op s).1))) id := by
  by_cases hid : id' = id
  · subst hid
    have hrole := (hK id').roles _ (List.mem_of_getElem? hi)
    cases op with
    | closed id => exact (hK id').calm hi Calm.refl rfl rfl hrole
    | started id => exact (hK id').calm hi Calm.refl rfl rfl hrole
    | readDevice id =>
      obtain ⟨rfl, rfl⟩ := hallowed
      exact (hK id).calm hi Calm.refl rfl rfl fun _ hdevice => hdevice
    | stopWithCarry id =>
      obtain ⟨device, rfl⟩ := hallowed
      exact (hK id').calm hi Calm.refl rfl rfl hrole
    | exchangeClosed id =>
      obtain ⟨⟨device, rfl⟩, rfl⟩ := hallowed
      cases hclosed : (s.conversations id).closed_ with
      | true =>
        simp only [exec, hclosed, Phase.after]
        exact (hK id).calm hi (calm_put rfl rfl hclosed.symm rfl rfl) rfl rfl fun _ hdevice => by
          rw [put_at]
          exact hrole rfl hdevice
      | false =>
        simp only [exec, hclosed, Phase.after]
        exact (hK id).exchangeClosed hi hclosed
    | store id reason' device carry =>
      obtain ⟨rfl, rfl, rfl⟩ := hallowed
      exact (hK id).store hi hok rfl
    | ended done =>
      obtain ⟨carry, rfl⟩ := hallowed
      exact (hK id').ended hi
    | _ => exact hallowed.elim
  · refine (hK id).aside hi (aside_close hid) ?_
    cases op with
    | exchangeClosed id => exact fun heq => hid (hallowed.2.symm.trans heq)
    | store id reason' device carry => exact fun heq => hid (hallowed.2.1.symm.trans heq)
    | ended done =>
      obtain ⟨carry, rfl⟩ := hallowed
      exact fun heq => hid (((hK id').named hi).symm.trans heq)
    | markDevice id => exact hallowed.elim
    | take id => exact hallowed.elim
    | claimFinished userId' id => exact hallowed.elim
    | _ => exact fun h => h

theorem kept_exec (hK : ∀ id, Kept s ks id) (hi : ks[i]? = some (req, k))
    (hallowed : (protocol req).allowed k op) (hok : InTime s ks k op) (id : String) :
    Kept (exec config env op s).2.2
      (ks.set i (req, k.after op (some (exec config env op s).1))) id := by
  have haside : ∀ req, (∀ k op, (protocol req).allowed k op → ∀ id, ¬op.touches id) →
      Aside id req → ks[i]? = some (req, k) → (protocol req).allowed k op →
      Kept (exec config env op s).2.2
        (ks.set i (req, k.after op (some (exec config env op s).1))) id :=
    fun req hmild haside hi hallowed => (hK id).aside hi haside (hmild k op hallowed id)
  cases req with
  | claim userId id' => exact kept_claim (hK id) hi hallowed hok
  | close id' reason => exact kept_close hK hi hallowed hok
  | _ => exact haside _ (fun _ _ h => h) (fun _ => ⟨rfl, rfl, fun _ _ => trivial⟩) hi hallowed

theorem answers_any {r : Option op.Ans} : (protocol req).answers k op r := by
  cases req <;> trivial

theorem kept_spawn (hK : Kept s ks id) : Kept s (ks ++ [(req, .fresh)]) id := by
  have hreturned : returnedOf id (req, .fresh) = none := by cases req <;> rfl
  have hwins : wins id (req, .fresh) = false := by cases req <;> rfl
  have hsame : returns id (ks ++ [(req, .fresh)]) = returns id ks := by
    rw [returns, List.filterMap_append, List.filterMap_cons_none hreturned, List.filterMap_nil,
      List.append_nil, returns]
  refine ⟨?_, hsame ▸ hK.stage, fun r hr => ?_⟩
  · rw [List.countP_append, hK.one, List.countP_cons_of_neg (by simp [hwins]), List.countP_nil,
      Nat.add_zero]
  · rw [hsame]
    rcases List.mem_append.1 hr with hold | hnew
    · exact hK.roles r hold
    · rw [List.mem_singleton.1 hnew]
      cases req <;> first | trivial | exact fun _ => trivial

end Steps

/-! ### Whole runs -/

section Runs

variable {s : ConversationManager} {ks : List (Request × Phase)}

theorem returned_of_mem {id : String} {c : VoiceSessionCarry} (hc : c ∈ returns id ks) :
    ∃ userId, Returned ks userId id c := by
  obtain ⟨⟨req, k⟩, hmem, heq⟩ := List.mem_filterMap.1 hc
  cases req with
  | claim userId id' =>
    cases k with
    | returned closed carry =>
      simp only [returnedOf] at heq
      split at heq
      next hid =>
        subst hid heq
        exact ⟨userId, closed, hmem⟩
      next => cases heq
    | _ => cases heq
  | _ => cases heq

theorem Kept.own {userId : ℤ} {id : String} {c : VoiceSessionCarry} (hK : Kept s ks id)
    (h : Returned ks userId id c) : userId = (s.conversations id).userId := by
  obtain ⟨closed, hmem⟩ := h
  have hrole := hK.roles _ hmem rfl
  cases closed with
  | none => exact hrole rfl
  | some closed => exact hrole.1

/-- What a finished close had for a claim that marked the conversation is there or was returned. -/
theorem Kept.placed {userId : ℤ} {id : String} {reason : ConversationEnd} {c : VoiceSessionCarry}
    (hK : Kept s ks id) (huser : userId = (s.conversations id).userId)
    (hdevice : (s.conversations id).deviceHandoff_ = true)
    (hover : (Request.close id reason, Phase.finished (some c)) ∈ ks) :
    (s.conversations id).carry_ = some c ∨ Returned ks userId id c := by
  have hclose : CloseOk (s.conversations id) (returns id ks) (.finished (some c)) := hK.roles _ hover rfl
  refine (hclose.2 (fun hsh => Bool.noConfusion (hdevice.symm.trans hsh.2)) c rfl).imp_right fun hc => ?_
  obtain ⟨userId', hreturned⟩ := returned_of_mem hc
  rwa [huser.trans (hK.own hreturned).symm]

theorem carriedOnce_of_kept (hK : ∀ id, Kept s ks id) : CarriedOnce s ks := by
  refine ⟨fun id => ?_, fun userId id c h => (hK id).own h, fun userId id k reason c hmem hk hover => ?_,
    fun userId id carry reason c hmem hover => ?_⟩
  · have hS := (hK id).stage
    by_cases hst : (s.conversations id).Stored
    · by_cases hsh : (s.conversations id).Shelved
      · exact le_trans (Nat.le_add_right _ _) (hS.shelf hsh).1
      · exact le_trans (Nat.le_add_right _ _) (hS.wait hst hsh).2
    · rw [(hS.before hst).2.2.1]
      exact Nat.zero_le 1
  · have hrole := (hK id).roles _ hmem rfl
    rcases hk with rfl | rfl
    · exact (hK id).placed hrole.1 hrole.2 hover
    · exact (hK id).placed hrole.1 hrole.2.1 hover
  · obtain ⟨huser, hdevice, htook⟩ := (hK id).roles _ hmem rfl
    rcases (hK id).placed huser hdevice hover with hcarry | hreturned
    · rw [(htook rfl).2] at hcarry
      cases hcarry
    · exact hreturned

/-- In every run that keeps in time, conversations are carried over once. -/
theorem carried_once (config : VoiceWatchConfig) (userId : String → ℤ)
    (started live : String → Bool) {h : List Unit}
    {c : Crew ConversationManager Phase Request Op Op.Ans}
    (hrun : Run (Crew.Step (workshop config) InTime) (start userId started live) h c) :
    CarriedOnce c.shared c.roles := by
  have hstart : ∀ id, Kept (start userId started live).shared [] id := by
    intro id
    have hst : ¬((start userId started live).shared.conversations id).Stored := by
      rintro (h | h) <;> cases h
    exact ⟨rfl, ⟨rfl, fun _ h => (nomatch h), fun h => absurd h hst, fun _ => ⟨rfl, rfl, rfl, rfl⟩,
      fun h => absurd (.inl h.1) hst, fun h => absurd h hst⟩, fun _ hr => absurd hr List.not_mem_nil⟩
  exact carriedOnce_of_kept (Crew.invariant protocol (J := fun _ s ks => ∀ id, Kept s ks id) hrun
    hstart obeys_program (fun _ _ _ _ hK id => kept_spawn (hK id))
    (fun _ _ _ _ _ _ _ _ hK hi hallowed hok =>
      ⟨answers_any, kept_exec hK hi hallowed hok⟩)
    (fun _ _ _ _ _ _ _ _ _ _ hfallible => by cases hfallible)).1

end Runs

/-! ### A claim and a close -/

/-- The carry of a call. -/
def said : VoiceSessionCarry := { callId := "call" }

/-- A conversation of user 7, whose camera is lost while the user claims it. -/
def lost : Crew ConversationManager Phase Request Op Op.Ans :=
  start (fun _ => 7) (fun _ => true) (fun _ => true)

theorem carried_once_waiting :
    ∃ h c, Run (Crew.Step (workshop {}) InTime) lost h c ∧ returns "c" c.roles = [said] ∧
      CarriedOnce c.shared c.roles := by
  have hstart : Run (Crew.Step (workshop {}) InTime) lost [] lost := .start
  have hasked := (hstart.next ⟨.spawn (.close "c" .cameraLost), trivial, rfl⟩).next
    ⟨.spawn (.claim 7 "c"), trivial, rfl⟩
  have hown := ((hasked.next ⟨.run 1 {}, trivial, rfl⟩).next ⟨.run 1 {}, trivial, rfl⟩).next
    ⟨.run 1 {}, trivial, rfl⟩
  have hmarked := hown.next ⟨.run 1 {}, fun _ => (by decide : ConversationState.listening ≠ .resumable), rfl⟩
  have hread := (hmarked.next ⟨.run 0 {}, trivial, rfl⟩).next ⟨.run 0 {}, trivial, rfl⟩
  have hstopped := (hread.next ⟨.run 0 {}, trivial, rfl⟩).next
    ⟨.run 0 { carry := some said }, trivial, rfl⟩
  have hclosed := (hstopped.next ⟨.run 0 {}, fun _ => rfl, rfl⟩).next ⟨.run 0 {}, trivial, rfl⟩
  have hrun := (hclosed.next ⟨.run 1 {}, trivial, rfl⟩).next ⟨.run 1 {}, trivial, rfl⟩
  exact ⟨_, _, hrun, by decide +kernel, carried_once {} _ _ _ hrun⟩

/-- The close reads that no claim has marked the conversation, one marks it, and the close stores
the carry for that claim and for later ones. -/
theorem two_claims_return :
    ∃ h c, Run (Crew.Step (workshop {}) Crew.Free) lost h c ∧ ¬CarriedOnce c.shared c.roles := by
  have hplay : (Crew.play (workshop {}) lost
      (List.flatten [[.spawn (.close "c" .cameraLost), .spawn (.claim 7 "c")],
        List.replicate 3 (.run 1 {}), [.run 0 {}, .run 1 {}],
        List.replicate 5 (.run 0 { carry := some said }),
        [.run 1 {}, .run 1 {}, .spawn (.claim 7 "c")], List.replicate 3 (.run 2 {})])).map
            (fun r => returns "c" r.1.roles) = some [said, said] := by
    decide +kernel
  obtain ⟨⟨c, h⟩, hrun, hreturns⟩ := Option.map_eq_some_iff.1 hplay
  refine ⟨h, c, Crew.run_of_play hrun .start, fun hcarried => ?_⟩
  have honce := hcarried.once "c"
  simp only [hreturns, List.length_cons, List.length_nil] at honce
  omega

end Voice

end ArgusBackend
