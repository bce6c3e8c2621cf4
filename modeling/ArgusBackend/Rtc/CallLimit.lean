import ArgusBackend.Library.Places
import ArgusBackend.Rtc.TokenService

/-!
# A user's calls keep to the limit

* `Kept` : `inFlight_` counts the slots that are held;
* `Within` : the user's rooms and slots keep to the limit;
* `Fresh` : the listing that a reservation counts has every room of the user that no slot holds;
* `calls_within_limit` : the slots are counted in every run, and the limit is kept in every run
  whose reservations count a fresh listing.
-/

namespace ArgusBackend

namespace Rtc

open Places

/-- The room of a slot of the user. -/
def slotOf (u : ℤ) (r : Request × Slot) : Option String :=
  r.2.bind fun slot => if slot.userId = u then some slot.room else none

/-- The rooms of the slots that the user's requests hold. -/
def slots (u : ℤ) (ks : List (Request × Slot)) : List String := ks.filterMap (slotOf u)

/-- The open rooms that requests of the user have created. -/
def Rooms.issuedRooms (s : Rooms) (u : ℤ) : Finset String :=
  (s.issued.filter fun r => r.1 = u).image fun r => r.2

/-- Every room of the user that is open when the reservation counts is its own, was listed, or is
held by a slot. -/
def Fresh (s : Rooms) (ks : List (Request × Slot)) (_ : Slot) : Op → Prop
  | .reserve input names => ∀ room ∈ s.issuedRooms input.userId,
      room = input.room ∨ room ∈ names ∨ room ∈ slots input.userId ks
  | _ => True

instance (s : Rooms) (ks : List (Request × Slot)) (slot : Slot) : DecidablePred (Fresh s ks slot)
  | .reserve input names => inferInstanceAs (Decidable (∀ room ∈ s.issuedRooms input.userId,
      room = input.room ∨ room ∈ names ∨ room ∈ slots input.userId ks))
  | .watchList _ | .now | .mintUserCallId | .listRooms | .release _ | .claim _ _ | .findUser _
  | .createRoom _ _ | .join _ | .refuse _ | .closeRoom _ => instDecidableTrue

/-! ### What a request keeps to -/

/-- A slot is reserved once, held while the room is created, and given back. -/
def protocol : Protocol Slot.after where
  allowed slot op :=
    match op with
    | .reserve input _ =>
      slot = none ∧ Naming.startsWith input.room (Naming.roomPrefixOf input.userId) = true
    | .release held => slot = some held
    | .createRoom userId room => slot = some ⟨userId, room⟩
    | _ => True
  answers _ op r :=
    match op, r with
    | .release _, none => False
    | _, _ => True

section Protocol

variable {config : RtcConfig} {slot : Slot}

theorem obeys_refuse {α : Type} {error : RtcError} {post : Option α → Slot → Prop}
    (h : post none slot) : (refuse error : RtcTask α).Obeys protocol post slot :=
  Task.obeys_call trivial (fun _ => h) fun _ _ => h

theorem obeys_throwForClaim {status : RtcClaimStatus} :
    (throwForClaim status).Obeys protocol (fun _ slot' => slot' = slot) slot := by
  cases status with
  | claimed => exact (rfl : slot = slot)
  | _ => exact obeys_refuse rfl

theorem obeys_checkWatch {request : RtcTokenRequest} :
    (RtcTokenService.checkWatch config request).Obeys protocol (fun _ slot' => slot' = slot) slot := by
  unfold RtcTokenService.checkWatch
  split
  next =>
    split
    next => exact obeys_refuse rfl
    next =>
      refine Task.obeys_call trivial (fun _ => rfl) fun listed _ => ?_
      cases listed with
      | none => exact obeys_refuse rfl
      | some listed =>
        simp only
        split
        next => exact obeys_refuse rfl
        next found hfound =>
          refine Task.obeys_call trivial (fun _ => rfl) fun now _ => ?_
          split
          next => exact obeys_refuse rfl
          next => exact (rfl : slot = slot)
  next => exact (rfl : slot = slot)

theorem obeys_callIdOf {request : RtcTokenRequest} :
    (RtcTokenService.callIdOf request).Obeys protocol (fun _ slot' => slot' = slot) slot := by
  unfold RtcTokenService.callIdOf
  split_ifs
  · exact (rfl : slot = slot)
  · exact Task.obeys_last trivial fun r _ => by cases r <;> rfl
  · exact (rfl : slot = slot)

/-- A slot is held exactly when the reservation says so. -/
theorem obeys_reserveCall {input : RtcCallSlotInput}
    (hroom : Naming.startsWith input.room (Naming.roomPrefixOf input.userId) = true) :
    (RtcTokenService.reserveCall config input).Obeys protocol
      (fun r slot' => (r = some true ∧ slot' = some input) ∨
        (r ≠ some true ∧ slot' = none ∧ (config.rooms = true → r = none))) none := by
  unfold RtcTokenService.reserveCall
  split
  next hrooms => exact .inr ⟨by simp, rfl, by simp [hrooms]⟩
  next =>
    have hnone : ∀ r : Option Bool, r = none → (r = some true ∧ (none : Slot) = some input) ∨
        (r ≠ some true ∧ (none : Slot) = none ∧ (config.rooms = true → r = none)) :=
      fun r hr => .inr ⟨by simp [hr], rfl, fun _ => hr⟩
    refine Task.obeys_call trivial (fun _ => hnone _ rfl) fun names _ => ?_
    cases names with
    | none => exact obeys_refuse (hnone _ rfl)
    | some names =>
      refine Task.obeys_call ⟨rfl, hroom⟩ (fun _ => hnone _ rfl) fun admitted _ => ?_
      cases admitted with
      | true => exact .inl ⟨rfl, rfl⟩
      | false => exact obeys_refuse (hnone _ rfl)

theorem obeys_claimCall {request : RtcTokenRequest} {callId : String} :
    (RtcTokenService.claimCall config request callId).Obeys protocol
      (fun _ slot' => slot' = slot) slot := by
  unfold RtcTokenService.claimCall
  split_ifs
  · exact obeys_refuse rfl
  · exact Task.obeys_call trivial (fun _ => rfl) fun status _ => obeys_throwForClaim
  · exact (rfl : slot = slot)

theorem obeys_findUser {request : RtcTokenRequest} :
    (RtcTokenService.findUser config request).Obeys protocol (fun _ slot' => slot' = slot) slot := by
  unfold RtcTokenService.findUser
  split_ifs
  · exact Task.obeys_last trivial fun r _ => by cases r <;> rfl
  · exact (rfl : slot = slot)

theorem obeys_createRoom {request : RtcTokenRequest} {room : String}
    (hslot : config.rooms = true → slot = some ⟨request.sub, room⟩) :
    (RtcTokenService.createRoom config request room).Obeys protocol
      (fun _ slot' => slot' = slot) slot := by
  unfold RtcTokenService.createRoom
  split
  next hrooms =>
    refine Task.obeys_call (hslot hrooms) (fun _ => rfl) fun created _ => ?_
    cases created with
    | true => exact (rfl : slot = slot)
    | false => exact obeys_refuse rfl
  next => exact (rfl : slot = slot)

theorem obeys_join {request : RtcTokenRequest} {room : String} :
    (RtcTokenService.join request room).Obeys protocol (fun _ slot' => slot' = slot) slot := by
  refine Task.obeys_call trivial (fun _ => rfl) fun joined _ => ?_
  cases joined with
  | true => exact (rfl : slot = slot)
  | false => exact obeys_refuse rfl

theorem obeys_enter {request : RtcTokenRequest} {callId room : String}
    (hslot : config.rooms = true → slot = some ⟨request.sub, room⟩) :
    (RtcTokenService.enter config request callId room).Obeys protocol
      (fun _ slot' => slot' = slot) slot := by
  refine Task.obeys_bind obeys_claimCall (fun _ hk => hk) fun _ k hk => ?_
  subst hk
  refine Task.obeys_bind obeys_findUser (fun _ hk => hk) fun _ k hk => ?_
  subst hk
  refine Task.obeys_bind (obeys_createRoom hslot) (fun _ hk => hk) fun _ k hk => ?_
  subst hk
  exact obeys_join

theorem obeys_entered {request : RtcTokenRequest} {callId room : String}
    (hslot : config.rooms = true → slot = some ⟨request.sub, room⟩) :
    (RtcTokenService.enter config request callId room).attempt.Obeys protocol
      (fun r slot' => r.isSome = true ∧ slot' = slot) slot :=
  Task.obeys_attempt ((obeys_enter hslot).mono fun _ _ hk => ⟨rfl, hk⟩)

theorem obeys_issue (request : RtcTokenRequest) :
    (RtcTokenService.issue config request).Obeys protocol (fun _ slot => slot = none) none := by
  unfold RtcTokenService.issue
  split
  next => exact obeys_refuse rfl
  next =>
    refine Task.obeys_bind obeys_checkWatch (fun _ hk => hk) fun _ k hk => ?_
    subst hk
    refine Task.obeys_bind obeys_callIdOf (fun _ hk => hk) fun callId k hk => ?_
    subst hk
    refine Task.obeys_bind (obeys_reserveCall (Naming.startsWith_roomOf _ _)) (fun k hk => ?_)
      fun held k hk => ?_
    · rcases hk with ⟨hheld, -⟩ | ⟨-, hnone, -⟩
      · cases hheld
      · exact hnone
    · rcases hk with ⟨hheld, rfl⟩ | ⟨hheld, rfl, hrooms⟩
      · obtain rfl := Option.some.inj hheld
        refine Task.obeys_bind (obeys_entered fun _ => rfl) (fun _ hk => Bool.noConfusion hk.1)
          fun entered k hk => ?_
        rw [hk.2]
        refine Task.obeys_call rfl (fun hr => hr.elim) fun _ _ => ?_
        cases entered with
        | none => exact (rfl : (none : Slot) = none)
        | some _ => exact (rfl : (none : Slot) = none)
      · refine Task.obeys_bind (obeys_entered fun h => ?_) (fun _ hk => Bool.noConfusion hk.1)
          fun entered k hk => ?_
        · cases hrooms h
        · rw [hk.2, if_neg fun h => hheld (congrArg some h)]
          cases entered with
          | none => exact (rfl : (none : Slot) = none)
          | some _ => exact (rfl : (none : Slot) = none)

theorem obeys_program (req : Request) :
    ((workshop config).program req).Obeys protocol (fun _ slot => slot = none) none := by
  cases req with
  | issue request => exact obeys_issue request
  | closeRoom room => exact Task.obeys_last trivial fun r _ => by cases r <;> rfl

end Protocol

/-! ### The slots are counted -/

section Counting

variable {config : RtcConfig} {env : Outside} {s : Rooms} {ks : List (Request × Slot)} {i : ℕ}
  {req : Request} {slot : Slot} {op : Op} {u : ℤ} {ok : Rooms → List (Request × Slot) → Slot → Op → Prop}

/-- `inFlight_` has an entry exactly for the users that hold slots, and it counts them. -/
def Counted (s : Rooms) (ks : List (Request × Slot)) : Prop :=
  ∀ u, s.byUser.lookup u =
    if (slots u ks).length = 0 then none else some ((slots u ks).length : ℤ)

theorem Counted.pending (hC : Counted s ks) : s.pending u = (slots u ks).length := by
  rw [Rooms.pending, hC u]
  split
  next h => simp [h]
  next => rfl

theorem slotOf_none : slotOf u (req, none) = none := rfl

theorem slotOf_some {held : RtcCallSlotInput} :
    slotOf u (req, some held) = if held.userId = u then some held.room else none := rfl

/-- Other operations leave slots and counts. -/
theorem after_idle (hop : ∀ input names, op ≠ .reserve input names)
    (hop' : ∀ held, op ≠ .release held) {r : Option op.Ans} : slot.after op r = slot := by
  cases op with
  | reserve input names => exact absurd rfl (hop input names)
  | release held => exact absurd rfl (hop' held)
  | _ => rfl

theorem byUser_idle (hop : ∀ input names, op ≠ .reserve input names)
    (hop' : ∀ held, op ≠ .release held) : (exec config env op s).2.2.byUser = s.byUser := by
  cases op with
  | reserve input names => exact absurd rfl (hop input names)
  | release held => exact absurd rfl (hop' held)
  | createRoom userId room =>
    simp only [exec]
    split <;> rfl
  | _ => rfl

theorem Counted.reserve {input : RtcCallSlotInput} {names : Finset String} (hC : Counted s ks)
    (hi : ks[i]? = some (req, none)) :
    Counted (s.reserve config.maxConcurrentCalls input names) (ks.set i (req,
      Slot.after none (.reserve input names) (some (s.admits config.maxConcurrentCalls input names)))) := by
  intro u
  have hpending := hC.pending (u := input.userId)
  -- only this place of the list of slots changes
  obtain ⟨before, after, hold, hset⟩ := filterMap_replace (slotOf u) hi
  have hlength : (slots u ks).length = before.length + after.length := by
    rw [slots, hold, slotOf_none]
    simp
  unfold Rooms.reserve
  cases hadmits : s.admits config.maxConcurrentCalls input names with
  | true =>
    have hnew : (slots u (ks.set i (req, some input))).length =
        (slots u ks).length + if input.userId = u then 1 else 0 := by
      rw [hlength, slots, hset, slotOf_some]
      split <;> simp
      omega
    simp only [if_true, Slot.after, hnew]
    by_cases hu : input.userId = u
    · subst hu
      simp only [AList.lookup_insert, if_true, hpending]
      rw [if_neg (Nat.succ_ne_zero _)]
      simp
    · rw [AList.lookup_insert_ne (Ne.symm hu), if_neg hu, Nat.add_zero]
      exact hC u
  | false =>
    -- refused: a count of zero is taken out of the map, as the source's erase does
    have hsame : (slots u (ks.set i (req, none))).length = (slots u ks).length := by
      rw [hlength, slots, hset, slotOf_none]
      simp
    simp only [Bool.false_eq_true, if_false, Slot.after, hsame]
    split
    next hzero =>
      by_cases hu : u = input.userId
      · subst hu
        rw [AList.lookup_erase, if_pos (by omega)]
      · rw [AList.lookup_erase_ne hu]
        exact hC u
    next => exact hC u

theorem Counted.release {held : RtcCallSlotInput} (hC : Counted s ks)
    (hi : ks[i]? = some (req, some held)) :
    Counted (s.release held.userId) (ks.set i (req, none)) := by
  intro u
  obtain ⟨before, after, hold, hset⟩ := filterMap_replace (slotOf u) hi
  have hnew : (slots u (ks.set i (req, none))).length = before.length + after.length := by
    rw [slots, hset, slotOf_none]
    simp
  have hlength : (slots u ks).length =
      before.length + after.length + if held.userId = u then 1 else 0 := by
    rw [slots, hold, slotOf_some]
    split <;> simp
    omega
  have hlookup := hC held.userId
  unfold Rooms.release
  by_cases hu : held.userId = u
  · subst hu
    rw [if_pos rfl] at hlength
    -- the slot given back was counted, so there is an entry
    rw [if_neg (by omega)] at hlookup
    rw [hlookup]
    simp only [hnew, hlength]
    split
    next hzero =>
      rw [AList.lookup_erase, if_pos (by omega)]
    next hzero =>
      rw [AList.lookup_insert, if_neg (by omega)]
      congr 1
      omega
  · have hother : (slots u (ks.set i (req, none))).length = (slots u ks).length := by
      rw [hnew, hlength, if_neg hu, Nat.add_zero]
    rw [hother, ← hC u]
    split
    next => rfl
    next =>
      split
      next => exact AList.lookup_erase_ne (Ne.symm hu)
      next => exact AList.lookup_insert_ne (Ne.symm hu)

/-- Slots that stay are counted as before. -/
theorem Counted.idle {s' : Rooms} (hC : Counted s ks) (hi : ks[i]? = some (req, slot))
    (hsame : s'.byUser = s.byUser) : Counted s' (ks.set i (req, slot)) := by
  intro u
  obtain ⟨before, after, hold, hset⟩ := filterMap_replace (slotOf u) hi
  have hslots : slots u (ks.set i (req, slot)) = slots u ks := by
    rw [slots, slots, hold, hset]
  rw [hslots, hsame]
  exact hC u

theorem counted_exec (hC : Counted s ks) (hi : ks[i]? = some (req, slot))
    (hallowed : protocol.allowed slot op) :
    Counted (exec config env op s).2.2
      (ks.set i (req, slot.after op (some (exec config env op s).1))) := by
  by_cases hreserve : ∃ input names, op = .reserve input names
  · obtain ⟨input, names, rfl⟩ := hreserve
    obtain ⟨rfl, -⟩ := hallowed
    exact hC.reserve hi
  by_cases hrelease : ∃ held, op = .release held
  · obtain ⟨held, rfl⟩ := hrelease
    obtain rfl : slot = some held := hallowed
    exact hC.release hi
  simp only [not_exists] at hreserve hrelease
  rw [after_idle hreserve hrelease]
  exact hC.idle hi (byUser_idle hreserve hrelease)

theorem slots_spawn : slots u (ks ++ [(req, none)]) = slots u ks := by
  rw [slots, List.filterMap_append]
  exact List.append_nil _

theorem counted_spawn (hC : Counted s ks) : Counted s (ks ++ [(req, none)]) := by
  intro u
  rw [slots_spawn]
  exact hC u

theorem answers_some {ans : op.Ans} : protocol.answers slot op (some ans) := by
  cases op <;> trivial

theorem counted_fail (hC : Counted s ks) (hi : ks[i]? = some (req, slot))
    (hfallible : (workshop config).fallible op = true) :
    protocol.answers slot op none ∧ Counted s (ks.set i (req, slot.after op none)) := by
  have hsame : slot.after op none = slot := by cases op <;> rfl
  rw [hsame]
  refine ⟨?_, hC.idle hi rfl⟩
  cases op with
  | release held => exact Bool.noConfusion hfallible
  | _ => trivial

end Counting

/-! ### The limit is kept -/

section Limit

variable {config : RtcConfig} {env : Outside} {s s' : Rooms} {ks ks' : List (Request × Slot)} {i : ℕ}
  {req : Request} {slot : Slot} {op : Op} {u : ℤ}

theorem mem_issuedRooms {room : String} : room ∈ s.issuedRooms u ↔ (u, room) ∈ s.issued := by
  simp only [Rooms.issuedRooms, Finset.mem_image, Finset.mem_filter]
  constructor
  · rintro ⟨⟨v, name⟩, ⟨hmem, rfl⟩, rfl⟩
    exact hmem
  · exact fun h => ⟨(u, room), ⟨h, rfl⟩, rfl⟩

/-- The rooms of the user that no slot holds. -/
def Rooms.free (s : Rooms) (ks : List (Request × Slot)) (u : ℤ) : Finset String :=
  (s.issuedRooms u).filter (· ∉ slots u ks)

/-- The rooms that no slot holds and the slots of a user keep to the limit. -/
structure Within (config : RtcConfig) (s : Rooms) (ks : List (Request × Slot)) : Prop where
  named : ∀ r ∈ s.issued, Naming.startsWith r.2 (Naming.roomPrefixOf r.1) = true
  held : ∀ r ∈ ks, ∀ slot, r.2 = some slot →
    Naming.startsWith slot.room (Naming.roomPrefixOf slot.userId) = true
  few : ∀ u, (s.free ks u).card + (slots u ks).length ≤ config.maxConcurrentCalls

theorem Within.card_le (hW : Within config s ks) : (s.issuedRooms u).card ≤
    config.maxConcurrentCalls := by
  have hsplit : s.issuedRooms u ⊆ s.free ks u ∪ (slots u ks).toFinset := by
    intro room hroom
    by_cases hslot : room ∈ slots u ks
    · exact Finset.mem_union_right _ (List.mem_toFinset.2 hslot)
    · exact Finset.mem_union_left _ (Finset.mem_filter.2 ⟨hroom, hslot⟩)
  calc (s.issuedRooms u).card
      ≤ (s.free ks u ∪ (slots u ks).toFinset).card := Finset.card_le_card hsplit
    _ ≤ (s.free ks u).card + (slots u ks).toFinset.card := Finset.card_union_le _ _
    _ ≤ (s.free ks u).card + (slots u ks).length := Nat.add_le_add_left (List.toFinset_card_le _) _
    _ ≤ config.maxConcurrentCalls := hW.few u

theorem free_subset (hissued : ∀ room, (u, room) ∈ s'.issued → (u, room) ∈ s.issued)
    (hslots : ∀ room ∈ slots u ks, room ∈ slots u ks') : s'.free ks' u ⊆ s.free ks u := by
  intro room hroom
  obtain ⟨hmem, hout⟩ := Finset.mem_filter.1 hroom
  exact Finset.mem_filter.2 ⟨mem_issuedRooms.2 (hissued room (mem_issuedRooms.1 hmem)),
    fun hin => hout (hslots room hin)⟩

/-- No slot moves, and no room comes that no slot holds. -/
theorem Within.idle (hW : Within config s ks) (hi : ks[i]? = some (req, slot))
    (hissued : ∀ r ∈ s'.issued, r ∈ s.issued ∨ slot = some ⟨r.1, r.2⟩) :
    Within config s' (ks.set i (req, slot)) := by
  have hmem : (req, slot) ∈ ks := List.mem_of_getElem? hi
  have hslots : ∀ u, slots u (ks.set i (req, slot)) = slots u ks := fun u => by
    obtain ⟨before, after, hold, hset⟩ := filterMap_replace (slotOf u) hi
    rw [slots, slots, hold, hset]
  refine ⟨fun r hr => ?_, fun r hr => ?_, fun u => ?_⟩
  · rcases hissued r hr with hold | hown
    · exact hW.named r hold
    · exact hW.held (req, slot) hmem ⟨r.1, r.2⟩ hown
  · rcases List.mem_or_eq_of_mem_set hr with hold | rfl
    · exact hW.held r hold
    · exact hW.held (req, slot) hmem
  · rw [hslots]
    refine le_trans (Nat.add_le_add_right (Finset.card_le_card fun room hroom => ?_) _) (hW.few u)
    obtain ⟨hin, hout⟩ := Finset.mem_filter.1 hroom
    rw [hslots] at hout
    rcases hissued _ (mem_issuedRooms.1 hin) with hold | hown
    · exact Finset.mem_filter.2 ⟨mem_issuedRooms.2 hold, hout⟩
    · refine absurd (List.mem_filterMap.2 ⟨(req, slot), hmem, ?_⟩) hout
      rw [hown, slotOf_some, if_pos rfl]

theorem Within.reserve {input : RtcCallSlotInput} {names : Finset String}
    (hW : Within config s ks) (hC : Counted s ks) (hi : ks[i]? = some (req, none))
    (hroom : Naming.startsWith input.room (Naming.roomPrefixOf input.userId) = true)
    (hfresh : Fresh s ks none (.reserve input names))
    (hadmits : s.admits config.maxConcurrentCalls input names = true) :
    Within config (s.reserve config.maxConcurrentCalls input names)
      (ks.set i (req, some input)) := by
  have hissued : (s.reserve config.maxConcurrentCalls input names).issued = s.issued := by
    unfold Rooms.reserve
    rw [if_pos hadmits]
  refine ⟨fun r hr => hW.named r (hissued ▸ hr), fun r hr held hheld => ?_, fun u => ?_⟩
  · rcases List.mem_or_eq_of_mem_set hr with hold | rfl
    · exact hW.held r hold held hheld
    · obtain rfl := Option.some.inj hheld
      exact hroom
  obtain ⟨before, after, hold, hset⟩ := filterMap_replace (slotOf u) hi
  have hold' : slots u ks = before ++ after := by
    rw [slots, hold, slotOf_none]
    simp
  have hset' : slots u (ks.set i (req, some input)) =
      before ++ (if input.userId = u then some input.room else none).toList ++ after := by
    rw [slots, hset, slotOf_some]
  by_cases hu : input.userId = u
  · subst hu
    rw [if_pos rfl] at hset'
    have hmem : ∀ room, room ∈ slots input.userId (ks.set i (req, some input)) ↔
        room = input.room ∨ room ∈ slots input.userId ks := by
      intro room
      rw [hset', hold']
      simp
      tauto
    -- what no slot holds now was listed
    have hlisted : (s.reserve config.maxConcurrentCalls input names).free
        (ks.set i (req, some input)) input.userId ⊆ names.filter fun name =>
          Naming.startsWith name (Naming.roomPrefixOf input.userId) ∧ name ≠ input.room := by
      intro room hin
      obtain ⟨hin, hout⟩ := Finset.mem_filter.1 hin
      rw [mem_issuedRooms, hissued] at hin
      rw [hmem, not_or] at hout
      rcases hfresh room (mem_issuedRooms.2 hin) with hown | hlisted | hslot
      · exact absurd hown hout.1
      · exact Finset.mem_filter.2 ⟨hlisted, hW.named (input.userId, room) hin, hout.1⟩
      · exact absurd hslot hout.2
    have hcard := Finset.card_le_card hlisted
    have hpending := hC.pending (u := input.userId)
    simp only [Rooms.admits, Rooms.openFor, hpending, decide_eq_true_eq] at hadmits
    have hlength : (slots input.userId (ks.set i (req, some input))).length =
        (slots input.userId ks).length + 1 := by
      rw [hset', hold']
      simp
      omega
    omega
  · rw [if_neg hu] at hset'
    have hsame : slots u (ks.set i (req, some input)) = slots u ks := by
      rw [hset', hold']
      simp
    rw [hsame]
    refine le_trans (Nat.add_le_add_right (Finset.card_le_card (free_subset ?_ ?_)) _) (hW.few u)
    · exact fun room hin => hissued ▸ hin
    · exact fun room hin => by rwa [hsame]

theorem Within.release {held : RtcCallSlotInput} (hW : Within config s ks)
    (hi : ks[i]? = some (req, some held)) :
    Within config (s.release held.userId) (ks.set i (req, none)) := by
  have hissued : (s.release held.userId).issued = s.issued := by
    unfold Rooms.release
    split
    · rfl
    · split <;> rfl
  refine ⟨fun r hr => hW.named r (hissued ▸ hr), fun r hr slot hslot => ?_, fun u => ?_⟩
  · rcases List.mem_or_eq_of_mem_set hr with hold | rfl
    · exact hW.held r hold slot hslot
    · cases hslot
  obtain ⟨before, after, hold, hset⟩ := filterMap_replace (slotOf u) hi
  have hset' : slots u (ks.set i (req, none)) = before ++ after := by
    rw [slots, hset, slotOf_none]
    simp
  have hold' : slots u ks =
      before ++ (if held.userId = u then some held.room else none).toList ++ after := by
    rw [slots, hold, slotOf_some]
  have hfew := hW.few u
  by_cases hu : held.userId = u
  · rw [if_pos hu] at hold'
    -- the room of the slot is the only one that is free now and was not
    have hmore : (s.release held.userId).free (ks.set i (req, none)) u ⊆
        insert held.room (s.free ks u) := by
      intro room hin
      obtain ⟨hin, hout⟩ := Finset.mem_filter.1 hin
      rw [mem_issuedRooms, hissued] at hin
      by_cases hroom : room = held.room
      · exact Finset.mem_insert.2 (.inl hroom)
      · refine Finset.mem_insert_of_mem (Finset.mem_filter.2 ⟨mem_issuedRooms.2 hin, fun hslot => ?_⟩)
        rw [hold'] at hslot
        rw [hset'] at hout
        simp only [Option.toList_some, List.mem_append, List.mem_singleton] at hslot hout
        tauto
    have hcard := (Finset.card_le_card hmore).trans (Finset.card_insert_le _ _)
    have hlength : (slots u ks).length = (slots u (ks.set i (req, none))).length + 1 := by
      rw [hset', hold']
      simp
      omega
    omega
  · rw [if_neg hu] at hold'
    have hsame : slots u (ks.set i (req, none)) = slots u ks := by
      rw [hset', hold']
      simp
    rw [hsame]
    refine le_trans (Nat.add_le_add_right (Finset.card_le_card (free_subset ?_ ?_)) _) hfew
    · exact fun room hin => hissued ▸ hin
    · exact fun room hin => by rwa [hsame]

theorem issued_idle (hop : ∀ held, op ≠ .release held) (hallowed : protocol.allowed slot op)
    {r : ℤ × String} (hr : r ∈ (exec config env op s).2.2.issued) :
    r ∈ s.issued ∨ slot = some ⟨r.1, r.2⟩ := by
  cases op with
  | release held => exact absurd rfl (hop held)
  | reserve input names =>
    refine .inl ?_
    simp only [exec, Rooms.reserve] at hr
    split_ifs at hr <;> exact hr
  | createRoom userId room =>
    simp only [exec] at hr
    split at hr
    next =>
      rcases Finset.mem_insert.1 hr with rfl | hold
      · exact .inr hallowed
      · exact .inl hold
    next => exact .inl hr
  | closeRoom room => exact .inl (Finset.mem_of_mem_filter _ hr)
  | _ => exact .inl hr

theorem within_exec (hW : Within config s ks) (hC : Counted s ks) (hi : ks[i]? = some (req, slot))
    (hallowed : protocol.allowed slot op) (hfresh : Fresh s ks slot op) :
    Within config (exec config env op s).2.2
      (ks.set i (req, slot.after op (some (exec config env op s).1))) := by
  by_cases hrelease : ∃ held, op = .release held
  · obtain ⟨held, rfl⟩ := hrelease
    obtain rfl : slot = some held := hallowed
    exact hW.release hi
  simp only [not_exists] at hrelease
  by_cases hreserve : ∃ input names, op = .reserve input names
  · obtain ⟨input, names, rfl⟩ := hreserve
    obtain ⟨rfl, hroom⟩ := hallowed
    cases hadmits : s.admits config.maxConcurrentCalls input names with
    | true =>
      simp only [exec, hadmits, Slot.after]
      exact hW.reserve hC hi hroom hfresh hadmits
    | false =>
      have hidle : Within config (exec config env _ s).2.2 _ := hW.idle hi fun r hr =>
        issued_idle hrelease ⟨rfl, hroom⟩ hr
      simp only [exec, hadmits, Slot.after] at hidle ⊢
      exact hidle
  · simp only [not_exists] at hreserve
    rw [after_idle hreserve hrelease]
    exact hW.idle hi fun r hr => issued_idle hrelease hallowed hr

theorem within_spawn (hW : Within config s ks) : Within config s (ks ++ [(req, none)]) := by
  refine ⟨hW.named, fun r hr held hheld => ?_, fun u => ?_⟩
  · rcases List.mem_append.1 hr with hold | hnew
    · exact hW.held r hold held hheld
    · rw [List.mem_singleton.1 hnew] at hheld
      cases hheld
  · rw [Rooms.free, slots_spawn]
    exact hW.few u

theorem within_fail (hW : Within config s ks) (hi : ks[i]? = some (req, slot)) :
    Within config s (ks.set i (req, slot.after op none)) := by
  have hsame : slot.after op none = slot := by cases op <;> rfl
  rw [hsame]
  exact hW.idle hi fun _ hr => .inl hr

end Limit

section Runs

variable (config : RtcConfig)

/-- `inFlight_` counts the slots that are held, whatever the order of the steps; and a user's rooms
keep to the limit as long as every reservation counts a fresh listing. -/
theorem calls_within_limit (names : Finset String) {h : List Unit}
    {c : Crew Rooms Slot Request Op Op.Ans}
    (hrun : Run (Crew.Step (workshop config) Crew.Free) (start names) h c) :
    Counted c.shared c.roles ∧
      (Run (Crew.Step (workshop config) Fresh) (start names) h c → ∀ u,
        (c.shared.issuedRooms u).card ≤ config.maxConcurrentCalls) := by
  have hstart : Counted { names } [] := fun _ => rfl
  have hwithin : Within config { names } [] :=
    ⟨fun _ hr => absurd hr (Finset.notMem_empty _), fun _ hr => absurd hr List.not_mem_nil,
      fun _ => Nat.zero_le _⟩
  have hcounted := (Crew.invariant (fun _ => protocol) (J := fun _ => Counted) hrun hstart
    obeys_program (fun _ _ _ _ hC => counted_spawn hC)
    (fun _ _ _ _ _ _ _ _ hC hi hallowed _ => ⟨answers_some, counted_exec hC hi hallowed⟩)
    (fun _ _ _ _ _ _ _ hC hi _ hfallible => counted_fail hC hi hfallible)).1
  refine ⟨hcounted, fun hfresh u => ?_⟩
  have hkept := (Crew.invariant (fun _ => protocol)
      (J := fun _ s ks => Counted s ks ∧ Within config s ks) hfresh ⟨hstart, hwithin⟩ obeys_program
      (fun _ _ _ _ hJ => ⟨counted_spawn hJ.1, within_spawn hJ.2⟩)
      (fun _ _ _ _ _ _ _ _ hJ hi hallowed hok => ⟨answers_some, counted_exec hJ.1 hi hallowed,
        within_exec hJ.2 hJ.1 hi hallowed hok⟩)
      (fun _ _ _ _ _ _ _ hJ hi _ hfallible =>
        ⟨(counted_fail hJ.1 hi hfallible).1, (counted_fail hJ.1 hi hfallible).2,
          within_fail hJ.2 hi⟩)).1
  exact hkept.2.card_le

end Runs

/-! ### Two tabs -/

/-- A call of user 7 from a tab. -/
def tab (callId : String) : Request :=
  .issue { sub := 7, sessionId := "s", callId }

/-- The id of a call. -/
def one : String := "rtc-00000000000000000000000000000001"

/-- The id of another call. -/
def two : String := "rtc-00000000000000000000000000000002"

/-- The id of a third call. -/
def three : String := "rtc-00000000000000000000000000000003"

/-- Two tabs reserve side by side and create their rooms; a third one is refused, and passes when the
first room has been closed. -/
def threeTabs : List (Turn Outside Request) :=
  List.flatten [[.spawn (tab one), .spawn (tab two), .run 0 {}, .run 1 {}, .run 0 {}, .run 1 {}],
    List.replicate 4 (.run 0 {}), List.replicate 4 (.run 1 {}),
    .spawn (tab three) :: List.replicate 3 (.run 2 {}),
    [.spawn (.closeRoom (Naming.roomOf 7 one)), .run 3 {}],
    .spawn (tab three) :: List.replicate 6 (.run 4 {})]

theorem calls_within_limit_two :
    ∃ h c, Run (Crew.Step (workshop { maxConcurrentCalls := 2 }) Fresh) (start ∅) h c ∧
      (c.members.map fun m => m.task.isDone) = [true, true, true, true, true] ∧
      c.shared.issuedRooms 7 = {Naming.roomOf 7 two, Naming.roomOf 7 three} ∧
      Counted c.shared c.roles ∧ (c.shared.issuedRooms 7).card ≤ 2 := by
  have hplay : (Crew.playIf (workshop { maxConcurrentCalls := 2 }) Fresh (start ∅) threeTabs).map
      (fun r => (r.1.members.map fun m => m.task.isDone, r.1.shared.issuedRooms 7)) =
        some ([true, true, true, true, true],
          {Naming.roomOf 7 two, Naming.roomOf 7 three}) := by
    decide +kernel
  obtain ⟨⟨c, h⟩, hplayed, hends⟩ := Option.map_eq_some_iff.1 hplay
  obtain ⟨hdone, hissued⟩ := Prod.mk.inj hends
  have hrun : Run (Crew.Step (workshop { maxConcurrentCalls := 2 }) Fresh) (start ∅) h c :=
    Crew.run_of_playIf hplayed .start
  have hlimit := calls_within_limit { maxConcurrentCalls := 2 } ∅ (Crew.run_free hrun)
  exact ⟨h, c, hrun, hdone, hissued, hlimit.1, hlimit.2 hrun 7⟩

/-- Both tabs list the rooms; one runs to its end and gives its slot back, then the other reserves
with the listing from before. -/
theorem two_tabs_pass :
    ∃ h c, Run (Crew.Step (workshop { maxConcurrentCalls := 1 }) Crew.Free) (start ∅) h c ∧
      (c.shared.issuedRooms 7).card = 2 := by
  have hplay : (Crew.play (workshop { maxConcurrentCalls := 1 }) (start ∅)
      (List.flatten [[.spawn (tab one), .spawn (tab two), .run 0 {}, .run 1 {}],
        List.replicate 5 (.run 0 {}), List.replicate 3 (.run 1 {})])).map
          (fun r => (r.1.shared.issuedRooms 7).card) = some 2 := by
    decide +kernel
  obtain ⟨⟨c, h⟩, hrun, hcard⟩ := Option.map_eq_some_iff.1 hplay
  exact ⟨h, c, Crew.run_of_play hrun .start, hcard⟩

end Rtc

end ArgusBackend
