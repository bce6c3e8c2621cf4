import ArgusBackend.Voice.VisitorReplies
import Mathlib.Data.List.Perm.Basic

/-!
# A household reply is said once, and not lost

* `Waiting`, `Calls` : what every run keeps of the replies and of the calls;
* `Honest`, `Unlost` : what the runs keep in which a call only takes its own reply, and a reply
  only replaces one to the same conversation;
* `replies_reach_visitors` : every run.
-/

namespace ArgusBackend

namespace Voice

namespace Replies

/-! ### Threads and replies -/

section Methods

variable {config_ : VisitorRepliesConfig} {replies replies' : VisitorReplies}
  {input : VisitorReplyInput} {outcome : VisitorReplyOutcome} {thread : Option Thread}
  {heard : Heard} {now : ℤ} {pending : Option PendingVisitorReply} {call : ℕ}

/-- A reply comes from a recipient in time, and waits; or nothing changes. -/
theorem reply_cases (h : replies.reply config_ call input = (outcome, thread, replies')) :
    (thread = none ∧ outcome ≠ .queued ∧ outcome ≠ .said ∧ replies' = replies) ∨
      ∃ th, thread = some th ∧ outcome = .queued ∧ input.userId ∈ th.recipients ∧
        input.now ≤ th.acceptUntil ∧ utf8Characters input.text ≤ config_.maxChars ∧
        replies.threads_ input.conversationId = some th ∧
        replies' = { replies with
          pending_ := Function.update replies.pending_ th.cameraId
            (some ⟨input.text, th.personId, input.now + seconds config_.hold,
              input.conversationId, call⟩) } := by
  unfold VisitorReplies.reply at h
  split at h
  next =>
    cases h
    exact .inl ⟨rfl, by decide, by decide, rfl⟩
  next th hthread =>
    split_ifs at h with huser hnow hlong
    · cases h
      exact .inl ⟨rfl, by decide, by decide, rfl⟩
    · cases h
      exact .inl ⟨rfl, by decide, by decide, rfl⟩
    · cases h
      exact .inr ⟨th, rfl, rfl, huser, by omega, by omega, hthread, rfl⟩
    · cases h
      exact .inl ⟨rfl, by decide, by decide, rfl⟩

/-- Replies only stop to wait when their time is up. -/
def Fewer (now : ℤ) (replies replies' : VisitorReplies) : Prop :=
  ∀ cameraId p, (replies'.pending_ cameraId = some p → replies.pending_ cameraId = some p) ∧
    (replies.pending_ cameraId = some p →
      replies'.pending_ cameraId = some p ∨ p.until_ < now)

theorem fewer_purge (config_ : VisitorRepliesConfig) (replies : VisitorReplies) (now : ℤ) :
    Fewer now replies (replies.purge config_ now) := by
  intro cameraId p
  simp only [VisitorReplies.purge, Option.filter_eq_some_iff]
  refine ⟨fun h => h.1, fun h => ?_⟩
  by_cases hlate : p.until_ < now
  · exact .inr hlate
  · exact .inl ⟨h, by simpa using hlate⟩

theorem fewer_open (input : VisitorThreadInput) :
    Fewer input.at_ replies (replies.open_ config_ input) :=
  fewer_purge config_ replies input.at_

/-- The visitor may be told a reply that waits on the camera. -/
def Fits (heard : Heard) (now : ℤ) (p : PendingVisitorReply) : Prop :=
  heard.closed = false ∧ heard.visitor = true ∧ now ≤ p.until_ ∧
    ¬(p.personId > 0 ∧ heard.visitorPersonId > 0 ∧ p.personId ≠ heard.visitorPersonId)

/-- A reply is taken that fits, or none. -/
theorem deliver_cases (h : deliver config_ heard now replies = (pending, replies')) :
    (pending = none ∧ Fewer now replies replies') ∨
      ∃ p, pending = some p ∧ replies.pending_ heard.cameraId = some p ∧ Fits heard now p ∧
        ∃ purged, Fewer now replies purged ∧ replies' = { purged with
          pending_ := Function.update purged.pending_ heard.cameraId none } := by
  have hsame : Fewer now replies replies := fun cameraId p => ⟨fun h => h, fun h => .inl h⟩
  unfold deliver at h
  split_ifs at h with hclosed hvisitor
  · cases h
    exact .inl ⟨rfl, hsame⟩
  · cases h
    exact .inl ⟨rfl, hsame⟩
  · unfold VisitorReplies.take at h
    dsimp only at h
    split at h
    next =>
      cases h
      exact .inl ⟨rfl, fewer_purge _ _ _⟩
    next p hp =>
      split_ifs at h with hperson
      · cases h
        exact .inl ⟨rfl, fewer_purge _ _ _⟩
      · cases h
        have hwaits := (fewer_purge config_ replies now heard.cameraId p).1 hp
        simp only [VisitorReplies.purge, Option.filter_eq_some_iff] at hp
        refine .inr ⟨p, rfl, hwaits, ⟨by simpa using hclosed, by simpa using hvisitor,
          by simpa using hp.2, hperson⟩, _, fewer_purge _ _ _, rfl⟩

end Methods

/-! ### What every run keeps -/

/-- The calls go on, and new ones come. -/
def Extends (calls calls' : List Call) : Prop :=
  ∀ (i : ℕ) (call : Call), calls[i]? = some call → ∃ call', calls'[i]? = some call' ∧
    call'.input = call.input ∧ call'.thread = call.thread

/-- The reply of a call that may wait. -/
def PendingVisitorReply.Of (config_ : VisitorRepliesConfig) (calls : List Call)
    (p : PendingVisitorReply) (th : Thread) : Prop :=
  ∃ call, calls[p.call]? = some call ∧ call.thread = some th ∧ p.text = call.input.text ∧
    p.personId = th.personId ∧ p.until_ = call.input.now + seconds config_.hold ∧
    p.conversationId = call.input.conversationId

namespace Desk

/-- The replies that were taken, said or not. -/
def taken (s : Desk) : List Flight := s.flights ++ s.said

/-- The replies that wait, and those that were taken. -/
structure Waiting (config_ : VisitorRepliesConfig) (s : Desk) : Prop where
  waiting : ∀ cameraId p, s.replies.pending_ cameraId = some p →
    ∃ th, p.Of config_ s.calls th ∧ th.cameraId = cameraId
  fresh : ∀ cameraId p, s.replies.pending_ cameraId = some p →
    ∀ f ∈ s.taken, f.pending.call ≠ p.call
  once : (s.taken.map fun f => f.pending.call).Nodup
  right : ∀ f ∈ s.taken, ∃ th, f.pending.Of config_ s.calls th ∧ th.cameraId = f.heard.cameraId ∧
    Fits f.heard f.now f.pending

/-- The calls. -/
structure Calls (s : Desk) : Prop where
  accepted : ∀ call ∈ s.calls, ∀ th, call.thread = some th →
    call.input.userId ∈ th.recipients ∧ call.input.now ≤ th.acceptUntil
  refused : ∀ call ∈ s.calls, call.thread = none →
    ∃ outcome, call.progress = .answered outcome ∧ outcome ≠ .queued ∧ outcome ≠ .said
  callers : ∀ f ∈ s.flights, ∀ i, f.caller = some i →
    ∃ call, s.calls[i]? = some call ∧ call.thread ≠ none

section Steps

variable {config_ : VisitorRepliesConfig} {s s' : Desk} {f : Flight} {i : ℕ} {call : Call}
  {calls calls' : List Call} {p : PendingVisitorReply} {th : Thread} {k : Progress} {now : ℤ}

theorem extends_refl (calls : List Call) : Extends calls calls :=
  fun _ call hi => ⟨call, hi, rfl, rfl⟩

theorem extends_append (calls : List Call) (call : Call) : Extends calls (calls ++ [call]) :=
  fun _ call' hi => ⟨call', (List.getElem?_append_left (List.getElem?_eq_some_iff.1 hi).1).trans hi,
    rfl, rfl⟩

theorem getElem?_progress (s : Desk) (i j : ℕ) (k : Progress) :
    (s.progress i k)[j]? = (s.calls[j]?).map fun call =>
      if i = j then { call with progress := k } else call := by
  rw [progress, List.getElem?_modify]
  split_ifs <;> simp

theorem extends_progress (s : Desk) (i : ℕ) (k : Progress) : Extends s.calls (s.progress i k) := by
  intro j call hj
  rw [getElem?_progress, hj, Option.map_some]
  split_ifs
  · exact ⟨_, rfl, rfl, rfl⟩
  · exact ⟨_, rfl, rfl, rfl⟩

theorem of_extends (hext : Extends calls calls') (h : p.Of config_ calls th) :
    p.Of config_ calls' th := by
  obtain ⟨call, hcall, hthread, htext, hperson, huntil, hid⟩ := h
  obtain ⟨call', hcall', hinput, hsame⟩ := hext _ _ hcall
  exact ⟨call', hcall', hsame.trans hthread, hinput ▸ htext, hperson, hinput ▸ huntil,
    hinput ▸ hid⟩

/-- The call of a reply says which thread it is of. -/
theorem of_unique {p p' : PendingVisitorReply} {th th' : Thread} (h : p.Of config_ calls th)
    (h' : p'.Of config_ calls th') (hcall : p.call = p'.call) : th = th' := by
  obtain ⟨call, hi, hthread, -⟩ := h
  obtain ⟨call', hi', hthread', -⟩ := h'
  rw [hcall] at hi
  obtain rfl := Option.some.inj (hi.symm.trans hi')
  exact Option.some.inj (hthread.symm.trans hthread')

/-- Nothing is taken. -/
theorem Waiting.stay (hW : s.Waiting config_) (hext : Extends s.calls s'.calls)
    (htaken : s'.taken.Perm s.taken)
    (hpending : ∀ cameraId p, s'.replies.pending_ cameraId = some p →
      s.replies.pending_ cameraId = some p) : s'.Waiting config_ where
  waiting cameraId p hp := by
    obtain ⟨th, hof, hcamera⟩ := hW.waiting cameraId p (hpending cameraId p hp)
    exact ⟨th, of_extends hext hof, hcamera⟩
  fresh cameraId p hp f hf := hW.fresh cameraId p (hpending cameraId p hp) f (htaken.mem_iff.1 hf)
  once := (htaken.map _).nodup_iff.2 hW.once
  right f hf := by
    obtain ⟨th, hof, hright⟩ := hW.right f (htaken.mem_iff.1 hf)
    exact ⟨th, of_extends hext hof, hright⟩

/-- A reply that waits is taken. -/
theorem Waiting.take (hW : s.Waiting config_) (hext : Extends s.calls s'.calls)
    (htaken : s'.taken.Perm (f :: s.taken))
    (hf : s.replies.pending_ f.heard.cameraId = some f.pending)
    (hfits : Fits f.heard f.now f.pending)
    (hpending : ∀ cameraId p, s'.replies.pending_ cameraId = some p →
      s.replies.pending_ cameraId = some p ∧ cameraId ≠ f.heard.cameraId) : s'.Waiting config_ := by
  obtain ⟨th, hof, hcamera⟩ := hW.waiting _ _ hf
  exact {
    waiting := by
      intro cameraId p hp
      obtain ⟨th, hof, hcamera⟩ := hW.waiting cameraId p (hpending cameraId p hp).1
      exact ⟨th, of_extends hext hof, hcamera⟩
    fresh := by
      intro cameraId p hp g hg
      obtain ⟨hp, hne⟩ := hpending cameraId p hp
      rcases List.mem_cons.1 (htaken.mem_iff.1 hg) with rfl | hg
      · intro hcall
        obtain ⟨th', hof', hcamera'⟩ := hW.waiting cameraId p hp
        have hth := of_unique hof hof' hcall
        exact hne (hcamera'.symm.trans (hth ▸ hcamera))
      · exact hW.fresh cameraId p hp g hg
    once := by
      rw [(htaken.map _).nodup_iff, List.map_cons, List.nodup_cons]
      refine ⟨fun hmem => ?_, hW.once⟩
      obtain ⟨g, hg, hcall⟩ := List.mem_map.1 hmem
      exact hW.fresh _ _ hf g hg hcall
    right := by
      intro g hg
      rcases List.mem_cons.1 (htaken.mem_iff.1 hg) with rfl | hg
      · exact ⟨th, of_extends hext hof, hcamera, hfits⟩
      · obtain ⟨th, hof, hright⟩ := hW.right g hg
        exact ⟨th, of_extends hext hof, hright⟩ }

/-- A reply waits. -/
theorem Waiting.reply (hW : s.Waiting config_) (hthread : call.thread = some th)
    {replies : VisitorReplies} (hreplies : replies.pending_ =
      Function.update s.replies.pending_ th.cameraId
        (some ⟨call.input.text, th.personId, call.input.now + seconds config_.hold,
          call.input.conversationId, s.calls.length⟩)) (clock : ℤ) :
    ({ s with replies, calls := s.calls ++ [call], clock } : Desk).Waiting config_ where
  waiting cameraId p hp := by
    simp only [hreplies] at hp
    by_cases hcamera : cameraId = th.cameraId
    · subst hcamera
      rw [Function.update_self, Option.some.injEq] at hp
      subst hp
      exact ⟨th, ⟨call, List.getElem?_concat_length, hthread, rfl, rfl, rfl, rfl⟩, rfl⟩
    · rw [Function.update_of_ne hcamera] at hp
      obtain ⟨th', hof, hcamera'⟩ := hW.waiting cameraId p hp
      exact ⟨th', of_extends (extends_append _ _) hof, hcamera'⟩
  fresh cameraId p hp f hf := by
    simp only [hreplies] at hp
    by_cases hcamera : cameraId = th.cameraId
    · subst hcamera
      rw [Function.update_self, Option.some.injEq] at hp
      subst hp
      obtain ⟨th', ⟨call', hcall', -⟩, -⟩ := hW.right f hf
      exact Nat.ne_of_lt (List.getElem?_eq_some_iff.1 hcall').1
    · rw [Function.update_of_ne hcamera] at hp
      exact hW.fresh cameraId p hp f hf
  once := hW.once
  right f hf := by
    obtain ⟨th', hof, hright⟩ := hW.right f hf
    exact ⟨th', of_extends (extends_append _ _) hof, hright⟩

theorem perm_say (hf : f ∈ s.flights) : (s.flights.erase f ++ (s.said ++ [f])).Perm s.taken := by
  have herase := (List.perm_cons_erase hf).append_right s.said
  refine List.Perm.trans ?_ herase.symm
  rw [← List.append_assoc]
  exact List.perm_append_singleton f _

theorem perm_take (s : Desk) (f : Flight) : ((s.flights ++ [f]) ++ s.said).Perm (f :: s.taken) := by
  rw [List.append_assoc]
  exact List.perm_middle

theorem Waiting.step {event : Event} (hW : s.Waiting config_) (hstep : Step config_ s event s') :
    s'.Waiting config_ := by
  cases hstep with
  | @open_ input hnow =>
    exact hW.stay (extends_refl _) (.refl _) fun c p hp => (fewer_open input c p).1 hp
  | @reply input outcome thread replies hnow hreply =>
    rcases reply_cases hreply with ⟨rfl, -, -, rfl⟩ | ⟨th, rfl, rfl, -, -, -, -, rfl⟩
    · exact hW.stay (extends_append _ _) (.refl _) fun c p hp => hp
    · exact hW.reply rfl rfl input.now
  | find hi hcall => exact hW.stay (extends_progress _ _ _) (.refl _) fun c p hp => hp
  | @deliver i call heard now pending replies hi hcall hnow hdeliver =>
    rcases deliver_cases hdeliver with ⟨rfl, hfewer⟩ | ⟨p, rfl, hp, hfits, purged, hfewer, rfl⟩
    · refine hW.stay (extends_progress _ _ _) (.of_eq ?_) fun c p hp => (hfewer c p).1 hp
      simp [taken]
    · refine hW.take (f := ⟨p, heard, now, some i⟩) (extends_progress _ _ _) (perm_take s _) hp
        hfits fun c p' hp' => ?_
      by_cases hc : c = heard.cameraId
      · simp [hc] at hp'
      · simp only [Function.update_of_ne hc] at hp'
        exact ⟨(hfewer c p').1 hp', hc⟩
  | @wake heard now pending replies hnow hdeliver =>
    rcases deliver_cases hdeliver with ⟨rfl, hfewer⟩ | ⟨p, rfl, hp, hfits, purged, hfewer, rfl⟩
    · refine hW.stay (extends_refl _) (.of_eq ?_) fun c p hp => (hfewer c p).1 hp
      simp [taken]
    · refine hW.take (f := ⟨p, heard, now, none⟩) (extends_refl _) (perm_take s _) hp
        hfits fun c p' hp' => ?_
      by_cases hc : c = heard.cameraId
      · simp [hc] at hp'
      · simp only [Function.update_of_ne hc] at hp'
        exact ⟨(hfewer c p').1 hp', hc⟩
  | @say flight hflight =>
    refine hW.stay ?_ (perm_say hflight) fun c p hp => hp
    cases flight.caller with
    | none => exact extends_refl _
    | some i => exact extends_progress _ _ _

/-! ### The calls -/

theorem mem_progress (h : call ∈ s.progress i k) : call ∈ s.calls ∨
    ∃ call', s.calls[i]? = some call' ∧ call = { call' with progress := k } := by
  obtain ⟨j, hj⟩ := List.getElem?_of_mem h
  rw [getElem?_progress] at hj
  obtain ⟨call', hcall', rfl⟩ := Option.map_eq_some_iff.1 hj
  split_ifs with hij
  · subst hij
    exact .inr ⟨call', hcall', rfl⟩
  · exact .inl (List.mem_of_getElem? hcall')

/-- A call goes on. -/
theorem Calls.progress (hC : s.Calls) {call : Call} (hi : s.calls[i]? = some call)
    (hthread : call.thread ≠ none) {replies : VisitorReplies} {flights said : List Flight}
    {clock : ℤ} (hflights : ∀ f ∈ flights, f ∈ s.flights ∨ f.caller = some i) :
    Desk.Calls ⟨replies, s.progress i k, flights, said, clock⟩ where
  accepted call' hmem th hth := by
    rcases mem_progress hmem with hmem | ⟨call', hi', rfl⟩
    · exact hC.accepted call' hmem th hth
    · exact hC.accepted call' (List.mem_of_getElem? hi') th hth
  refused call' hmem hnone := by
    rcases mem_progress hmem with hmem | ⟨call', hi', rfl⟩
    · exact hC.refused call' hmem hnone
    · obtain rfl := Option.some.inj (hi.symm.trans hi')
      exact absurd hnone hthread
  callers f hf j hj := by
    have hold : ∃ call, s.calls[j]? = some call ∧ call.thread ≠ none := by
      rcases hflights f hf with hf | hi'
      · exact hC.callers f hf j hj
      · obtain rfl := Option.some.inj (hj.symm.trans hi')
        exact ⟨call, hi, hthread⟩
    obtain ⟨call', hcall', hne⟩ := hold
    obtain ⟨call'', hcall'', -, hsame⟩ := extends_progress s i k j call' hcall'
    exact ⟨call'', hcall'', hsame ▸ hne⟩

/-- A call that has not answered has its thread. -/
theorem Calls.thread (hC : s.Calls) (hi : s.calls[i]? = some call)
    (hopen : ∀ outcome, call.progress ≠ .answered outcome) : call.thread ≠ none := by
  intro hnone
  obtain ⟨outcome, hcall, -⟩ := hC.refused call (List.mem_of_getElem? hi) hnone
  exact hopen outcome hcall

theorem Calls.step {event : Event} (hC : s.Calls) (hstep : Step config_ s event s') :
    s'.Calls := by
  cases hstep with
  | open_ hnow => exact ⟨hC.accepted, hC.refused, hC.callers⟩
  | @reply input outcome thread replies hnow hreply =>
    refine ⟨fun call hmem th hth => ?_, fun call hmem hnone => ?_, fun f hf i hi => ?_⟩
    · rcases List.mem_append.1 hmem with hmem | hmem
      · exact hC.accepted call hmem th hth
      · obtain rfl := List.mem_singleton.1 hmem
        rcases reply_cases hreply with ⟨rfl, -⟩ | ⟨th', rfl, -, huser, htime, -⟩
        · cases hth
        · exact Option.some.inj hth ▸ ⟨huser, htime⟩
    · rcases List.mem_append.1 hmem with hmem | hmem
      · exact hC.refused call hmem hnone
      · obtain rfl := List.mem_singleton.1 hmem
        rcases reply_cases hreply with ⟨rfl, hqueued, hsaid, -⟩ | ⟨th', rfl, -⟩
        · exact ⟨outcome, if_neg hqueued, hqueued, hsaid⟩
        · cases hnone
    · obtain ⟨call, hcall, hne⟩ := hC.callers f hf i hi
      obtain ⟨call', hcall', -, hsame⟩ := extends_append s.calls _ i call hcall
      exact ⟨call', hcall', hsame ▸ hne⟩
  | find hi hcall =>
    exact hC.progress hi (hC.thread hi fun outcome h => by simp [hcall] at h) fun f hf => .inl hf
  | @deliver i call heard now pending replies hi hcall hnow hdeliver =>
    refine hC.progress hi (hC.thread hi fun outcome h => by simp [hcall] at h) fun f hf => ?_
    rcases List.mem_append.1 hf with hf | hf
    · exact .inl hf
    · obtain ⟨p, -, rfl⟩ := Option.map_eq_some_iff.1 (Option.mem_toList.1 hf)
      exact .inr rfl
  | @wake heard now pending replies hnow hdeliver =>
    refine ⟨hC.accepted, hC.refused, fun f hf i hi => ?_⟩
    rcases List.mem_append.1 hf with hf | hf
    · exact hC.callers f hf i hi
    · obtain ⟨p, -, rfl⟩ := Option.map_eq_some_iff.1 (Option.mem_toList.1 hf)
      cases hi
  | @say flight hflight =>
    cases hcaller : flight.caller with
    | none =>
      exact ⟨hC.accepted, hC.refused, fun f hf => hC.callers f (List.mem_of_mem_erase hf)⟩
    | some i =>
      obtain ⟨call, hi, hthread⟩ := hC.callers flight hflight i hcaller
      exact hC.progress hi hthread fun f hf => .inl (List.mem_of_mem_erase hf)

/-! ### Own replies -/

/-- The reply of a call was handed to `say`. -/
def Said (s : Desk) (i : ℕ) : Prop := ∃ f ∈ s.said, f.pending.call = i

/-- A call only takes its own reply, unless that was said already; and a reply only replaces one
whose time is up, or one to the same conversation. -/
def Keeps (config_ : VisitorRepliesConfig) (s : Desk) : Event → Prop
  | .reply input => ∀ thread pending, s.replies.threads_ input.conversationId = some thread →
      input.userId ∈ thread.recipients → input.now ≤ thread.acceptUntil →
      utf8Characters input.text ≤ config_.maxChars →
      s.replies.pending_ thread.cameraId = some pending →
        pending.until_ < input.now ∨ pending.conversationId = input.conversationId
  | .deliver i heard now => ∀ pending, s.replies.pending_ heard.cameraId = some pending →
      Fits heard now pending → pending.call = i ∨ s.Said i
  | _ => True

/-- The calls that answer that their reply was said tell the truth. -/
structure Honest (s : Desk) : Prop where
  answered : ∀ (i : ℕ) (call : Call), s.calls[i]? = some call →
    call.progress = .answered .said → s.Said i
  flying : ∀ f ∈ s.flights, ∀ i, f.caller = some i → f.pending.call = i ∨ s.Said i

/-- A call goes on to anything but the answer that its reply was said. -/
theorem Honest.progress (hH : s.Honest) (hk : k ≠ .answered .said) {replies : VisitorReplies}
    {flights : List Flight} {clock : ℤ} (hflights : ∀ f ∈ flights, ∀ i, f.caller = some i →
      f.pending.call = i ∨ s.Said i) :
    Desk.Honest ⟨replies, s.progress i k, flights, s.said, clock⟩ where
  answered j call hj hsaid := by
    simp only [getElem?_progress] at hj
    obtain ⟨call', hj', rfl⟩ := Option.map_eq_some_iff.1 hj
    split_ifs at hsaid with hij
    · exact absurd hsaid hk
    · exact hH.answered j call' hj' hsaid
  flying := hflights

theorem Honest.step {event : Event} (hH : s.Honest) (hkeeps : s.Keeps config_ event)
    (hstep : Step config_ s event s') : s'.Honest := by
  cases hstep with
  | open_ hnow => exact ⟨hH.answered, hH.flying⟩
  | @reply input outcome thread replies hnow hreply =>
    refine ⟨fun j call hj hsaid => ?_, hH.flying⟩
    by_cases hlt : j < s.calls.length
    · rw [List.getElem?_append_left hlt] at hj
      exact hH.answered j call hj hsaid
    · rw [List.getElem?_append_right (by omega)] at hj
      obtain rfl := List.mem_singleton.1 (List.mem_of_getElem? hj)
      rcases reply_cases hreply with ⟨-, hqueued, hne, -⟩ | ⟨th, -, rfl, -⟩
      · rw [if_neg hqueued, Progress.answered.injEq] at hsaid
        exact absurd hsaid hne
      · cases hsaid
  | @find i call found hi hcall =>
    refine hH.progress ?_ hH.flying
    split_ifs <;> decide
  | @deliver i call heard now pending replies hi hcall hnow hdeliver =>
    refine hH.progress ?_ fun f hf j hj => ?_
    · split_ifs <;> decide
    · rcases List.mem_append.1 hf with hf | hf
      · exact hH.flying f hf j hj
      · obtain ⟨p, hp, rfl⟩ := Option.map_eq_some_iff.1 (Option.mem_toList.1 hf)
        obtain rfl := Option.some.inj hj
        rcases deliver_cases hdeliver with ⟨rfl, -⟩ | ⟨p', rfl, hp', hfits, -⟩
        · cases hp
        · obtain rfl := Option.some.inj hp
          exact hkeeps p' hp' hfits
  | @wake heard now pending replies hnow hdeliver =>
    refine ⟨hH.answered, fun f hf i hi => ?_⟩
    rcases List.mem_append.1 hf with hf | hf
    · exact hH.flying f hf i hi
    · obtain ⟨p, -, rfl⟩ := Option.map_eq_some_iff.1 (Option.mem_toList.1 hf)
      cases hi
  | @say flight hflight =>
    have hmore {i : ℕ} (h : s.Said i) : ∃ f ∈ s.said ++ [flight], f.pending.call = i := by
      obtain ⟨f, hf, hcall⟩ := h
      exact ⟨f, List.mem_append_left _ hf, hcall⟩
    have hflying : ∀ f ∈ s.flights.erase flight, ∀ i, f.caller = some i →
        f.pending.call = i ∨ ∃ f ∈ s.said ++ [flight], f.pending.call = i := fun f hf i hi =>
      (hH.flying f (List.mem_of_mem_erase hf) i hi).imp_right hmore
    cases hcaller : flight.caller with
    | none => exact ⟨fun j call hj hsaid => hmore (hH.answered j call hj hsaid), hflying⟩
    | some i =>
      refine ⟨fun j call hj hsaid => ?_, hflying⟩
      simp only [getElem?_progress] at hj
      obtain ⟨call', hj', rfl⟩ := Option.map_eq_some_iff.1 hj
      split_ifs at hsaid with hij
      · subst hij
        rcases hH.flying flight hflight i hcaller with hown | hsaid'
        · exact ⟨flight, List.mem_append_right _ (List.mem_singleton_self _), hown⟩
        · exact hmore hsaid'
      · exact hmore (hH.answered j call' hj' hsaid)

/-! ### Replies that wait -/

/-- The reply of a call waits, or it was taken to be said, or its time is up, or a newer one to the
same conversation has replaced it. -/
def Accounted (config_ : VisitorRepliesConfig) (s : Desk) (i : ℕ) (input : VisitorReplyInput) :
    Prop :=
  (∃ cameraId p, s.replies.pending_ cameraId = some p ∧ p.call = i) ∨
    (∃ f ∈ s.taken, f.pending.call = i) ∨ input.now + seconds config_.hold < s.clock ∨
    ∃ j call, i < j ∧ s.calls[j]? = some call ∧ Call.thread call ≠ none ∧
      call.input.conversationId = input.conversationId

/-- No reply is lost. -/
def Unlost (config_ : VisitorRepliesConfig) (s : Desk) : Prop :=
  ∀ (i : ℕ) (call : Call), s.calls[i]? = some call → call.thread ≠ none →
    s.Accounted config_ i call.input

/-- A step that only takes from a waiting reply what it gives elsewhere. -/
theorem Accounted.mono {input : VisitorReplyInput} (h : s.Accounted config_ i input)
    (hext : Extends s.calls s'.calls) (hclock : s.clock ≤ s'.clock)
    (htaken : ∀ f ∈ s.taken, f ∈ s'.taken)
    (hpending : ∀ cameraId p, s.replies.pending_ cameraId = some p → p.call = i →
      s'.Accounted config_ i input) : s'.Accounted config_ i input := by
  rcases h with ⟨cameraId, p, hp, hcall⟩ | ⟨f, hf, hcall⟩ | hlate | ⟨j, call, hij, hj, hne, hid⟩
  · exact hpending cameraId p hp hcall
  · exact .inr (.inl ⟨f, htaken f hf, hcall⟩)
  · exact .inr (.inr (.inl (by omega)))
  · obtain ⟨call', hj', hinput, hthread⟩ := hext j call hj
    exact .inr (.inr (.inr ⟨j, call', hij, hj', hthread ▸ hne, hinput ▸ hid⟩))

/-- The time of a waiting reply is that of its call. -/
theorem Waiting.late (hW : s.Waiting config_) {cameraId : ℤ}
    (hp : s.replies.pending_ cameraId = some p) (hi : s.calls[p.call]? = some call) :
    p.until_ = call.input.now + seconds config_.hold ∧
      p.conversationId = call.input.conversationId := by
  obtain ⟨th, ⟨call', hi', -, -, -, huntil, hid⟩, -⟩ := hW.waiting cameraId p hp
  obtain rfl := Option.some.inj (hi.symm.trans hi')
  exact ⟨huntil, hid⟩

/-- A reply that nobody takes still waits, or its time is up. -/
theorem Accounted.fewer (hW : s.Waiting config_) (hi : s.calls[i]? = some call)
    (h : s.Accounted config_ i call.input) (hext : Extends s.calls s'.calls)
    (hclock : s.clock ≤ s'.clock) (htaken : ∀ f ∈ s.taken, f ∈ s'.taken)
    (hfewer : Fewer s'.clock s.replies s'.replies) : s'.Accounted config_ i call.input := by
  refine h.mono hext hclock htaken fun cameraId p hp hcall => ?_
  subst hcall
  rcases (hfewer cameraId p).2 hp with hp' | hlate
  · exact .inl ⟨cameraId, p, hp', rfl⟩
  · exact .inr (.inr (.inl ((hW.late hp hi).1 ▸ hlate)))

/-- A reply that is taken is accounted for. -/
theorem Accounted.take (hW : s.Waiting config_) (hi : s.calls[i]? = some call)
    (h : s.Accounted config_ i call.input) (hext : Extends s.calls s'.calls)
    (hclock : s.clock ≤ s'.clock) (htaken : s'.taken.Perm (f :: s.taken))
    (hf : s.replies.pending_ f.heard.cameraId = some f.pending) {purged : VisitorReplies}
    (hfewer : Fewer s'.clock s.replies purged)
    (hreplies : s'.replies.pending_ = Function.update purged.pending_ f.heard.cameraId none) :
    s'.Accounted config_ i call.input := by
  refine h.mono hext hclock (fun g hg => htaken.mem_iff.2 (List.mem_cons_of_mem _ hg))
    fun cameraId p hp hcall => ?_
  subst hcall
  by_cases hcamera : cameraId = f.heard.cameraId
  · subst hcamera
    obtain rfl := Option.some.inj (hf.symm.trans hp)
    exact .inr (.inl ⟨f, htaken.mem_iff.2 List.mem_cons_self, rfl⟩)
  · rcases (hfewer cameraId p).2 hp with hp' | hlate
    · refine .inl ⟨cameraId, p, ?_, rfl⟩
      rw [hreplies, Function.update_of_ne hcamera, hp']
    · exact .inr (.inr (.inl ((hW.late hp hi).1 ▸ hlate)))

/-- What a call that goes on was before. -/
theorem progress_getElem? {j : ℕ} (hj : (s.progress i k)[j]? = some call) :
    ∃ call', s.calls[j]? = some call' ∧ call'.input = call.input ∧ call'.thread = call.thread := by
  rw [getElem?_progress] at hj
  obtain ⟨call', hj', rfl⟩ := Option.map_eq_some_iff.1 hj
  refine ⟨call', hj', ?_, ?_⟩
  · split_ifs <;> rfl
  · split_ifs <;> rfl

theorem Unlost.step {event : Event} (hU : s.Unlost config_) (hW : s.Waiting config_)
    (hkeeps : s.Keeps config_ event) (hstep : Step config_ s event s') : s'.Unlost config_ := by
  cases hstep with
  | @open_ input hnow =>
    intro i call hi hne
    exact (hU i call hi hne).fewer hW hi (extends_refl _) hnow (fun f hf => hf) (fewer_open input)
  | @reply input outcome thread replies hnow hreply =>
    intro i call hi hne
    by_cases hlt : i < s.calls.length
    · rw [List.getElem?_append_left hlt] at hi
      refine (hU i call hi hne).mono (extends_append _ _) hnow (fun f hf => hf)
        fun cameraId p hp hcall => ?_
      rcases reply_cases hreply with
        ⟨-, -, -, rfl⟩ | ⟨th, rfl, rfl, huser, htime, hlong, hthread, rfl⟩
      · exact .inl ⟨cameraId, p, hp, hcall⟩
      · by_cases hcamera : cameraId = th.cameraId
        · subst hcamera hcall
          obtain ⟨huntil, hid⟩ := hW.late hp hi
          rcases hkeeps th p hthread huser htime hlong hp with hlate | hsame
          · exact .inr (.inr (.inl (huntil ▸ hlate)))
          · refine .inr (.inr (.inr ⟨s.calls.length, _, hlt, List.getElem?_concat_length,
              Option.some_ne_none th, ?_⟩))
            exact hsame.symm.trans hid
        · exact .inl ⟨cameraId, p, (Function.update_of_ne hcamera _ _).trans hp, hcall⟩
    · rw [List.getElem?_append_right (by omega)] at hi
      obtain ⟨hlt', hget⟩ := List.getElem?_eq_some_iff.1 hi
      rw [List.length_singleton] at hlt'
      obtain rfl : call = _ := hget.symm.trans (List.getElem_singleton hlt')
      rcases reply_cases hreply with ⟨rfl, -⟩ | ⟨th, rfl, rfl, huser, htime, hlong, hthread, rfl⟩
      · exact absurd rfl hne
      · refine .inl ⟨th.cameraId, _, Function.update_self _ _ _, ?_⟩
        simp only
        omega
  | @find i call found hi hcall =>
    intro j call' hj hne
    obtain ⟨call'', hj', hinput, hthread⟩ := progress_getElem? hj
    rw [← hinput]
    exact (hU j call'' hj' (hthread ▸ hne)).mono (extends_progress _ _ _) (Int.le_refl _) (fun f hf => hf)
      fun cameraId p hp hcall => .inl ⟨cameraId, p, hp, hcall⟩
  | @deliver i call heard now pending replies hi hcall hnow hdeliver =>
    intro j call' hj hne
    obtain ⟨call'', hj', hinput, hthread⟩ := progress_getElem? hj
    rw [← hinput]
    rcases deliver_cases hdeliver with ⟨rfl, hfewer⟩ | ⟨p, rfl, hp, hfits, purged, hfewer, rfl⟩
    · refine (hU j call'' hj' (hthread ▸ hne)).fewer hW hj' (extends_progress _ _ _) hnow
        (fun f hf => ?_) hfewer
      simpa [taken] using hf
    · exact (hU j call'' hj' (hthread ▸ hne)).take (f := ⟨p, heard, now, some i⟩) hW hj'
        (extends_progress _ _ _) hnow (perm_take s _) hp hfewer rfl
  | @wake heard now pending replies hnow hdeliver =>
    intro j call hj hne
    rcases deliver_cases hdeliver with ⟨rfl, hfewer⟩ | ⟨p, rfl, hp, hfits, purged, hfewer, rfl⟩
    · refine (hU j call hj hne).fewer hW hj (extends_refl _) hnow (fun f hf => ?_) hfewer
      simpa [taken] using hf
    · exact (hU j call hj hne).take (f := ⟨p, heard, now, none⟩) hW hj (extends_refl _) hnow
        (perm_take s _) hp hfewer rfl
  | @say flight hflight =>
    intro j call hj hne
    have hback : ∃ call', s.calls[j]? = some call' ∧ call'.input = call.input ∧
        call'.thread = call.thread := by
      cases hcaller : flight.caller with
      | none =>
        simp only [hcaller] at hj
        exact ⟨call, hj, rfl, rfl⟩
      | some i =>
        simp only [hcaller] at hj
        exact progress_getElem? hj
    obtain ⟨call', hj', hinput, hthread⟩ := hback
    rw [← hinput]
    refine (hU j call' hj' (hthread ▸ hne)).mono ?_ (Int.le_refl _)
      (fun f hf => (perm_say hflight).mem_iff.2 hf)
      fun cameraId p hp hcall => .inl ⟨cameraId, p, hp, hcall⟩
    cases flight.caller with
    | none => exact extends_refl _
    | some i => exact extends_progress _ _ _

end Steps

/-! ### Runs -/

variable {config_ : VisitorRepliesConfig} {clock : ℤ} {h : List (Desk × Event)} {s : Desk}

theorem Runs.kept (hrun : Runs config_ clock h s) : s.Waiting config_ ∧ s.Calls := by
  refine Run.invariant (J := fun _ s => s.Waiting config_ ∧ s.Calls) hrun ?_ ?_
  · refine ⟨⟨?_, ?_, List.nodup_nil, ?_⟩, ⟨?_, ?_, ?_⟩⟩
    · exact fun c p hp => nomatch hp
    · exact fun c p hp => nomatch hp
    · exact fun f hf => nomatch hf
    · exact fun call hcall => nomatch hcall
    · exact fun call hcall => nomatch hcall
    · exact fun f hf => nomatch hf
  · rintro h s notes s' ⟨hW, hC⟩ ⟨event, hstep, -⟩
    exact ⟨hW.step hstep, hC.step hstep⟩

theorem Runs.honest (hrun : Runs config_ clock h s) (hkeeps : ∀ n ∈ h, n.1.Keeps config_ n.2) :
    s.Honest ∧ s.Unlost config_ := by
  have hall := Run.invariant_of_notes
    (J := fun _ s => s.Waiting config_ ∧ s.Honest ∧ s.Unlost config_) hrun hkeeps
    ⟨(Runs.kept .start).1, ⟨fun i call hi => (nomatch hi), fun f hf => (nomatch hf)⟩,
      fun i call hi => (nomatch hi)⟩ (by
      rintro h s notes s' ⟨hW, hH, hU⟩ ⟨event, hstep, rfl⟩ hok
      have hone := hok _ List.mem_cons_self
      exact ⟨hW.step hstep, hH.step hone hstep, hU.step hW hone hstep⟩)
  exact hall.2

end Desk

open Desk

/-- A household reply comes from a recipient in time, and is said at most once, to the right visitor
and in time.  It is not lost, and its sender is not told that it was said when it was not, as long
as a call only takes its own reply, and a reply only replaces one to the same conversation. -/
theorem replies_reach_visitors {config_ : VisitorRepliesConfig} {clock : ℤ}
    {h : List (Desk × Event)} {s : Desk} (hrun : Runs config_ clock h s) :
    (∀ call ∈ s.calls, call.progress = .answered .queued ∨ call.progress = .answered .said →
      ∃ th, call.thread = some th ∧ call.input.userId ∈ th.recipients ∧
        call.input.now ≤ th.acceptUntil) ∧
    (s.said.map fun f => f.pending.call).Nodup ∧
    (∀ f ∈ s.said, ∃ call th, s.calls[f.pending.call]? = some call ∧ Call.thread call = some th ∧
      f.pending.text = call.input.text ∧ f.heard.visitor = true ∧
      f.heard.cameraId = Thread.cameraId th ∧ f.now ≤ call.input.now + seconds config_.hold ∧
      ¬(th.personId > 0 ∧ f.heard.visitorPersonId > 0 ∧ th.personId ≠ f.heard.visitorPersonId)) ∧
    ((∀ n ∈ h, n.1.Keeps config_ n.2) →
      ∀ (i : ℕ) (call : Call), s.calls[i]? = some call →
        (call.progress = .answered .said → s.Said i) ∧
        (call.thread ≠ none → s.Accounted config_ i call.input)) := by
  obtain ⟨hW, hC⟩ := Runs.kept hrun
  refine ⟨fun call hcall hanswered => ?_, ?_, fun f hf => ?_, fun hkeeps i call hi => ?_⟩
  · cases hthread : call.thread with
    | some th => exact ⟨th, rfl, hC.accepted call hcall th hthread⟩
    | none =>
      obtain ⟨outcome, houtcome, hqueued, hsaid⟩ := hC.refused call hcall hthread
      rw [houtcome, Progress.answered.injEq, Progress.answered.injEq] at hanswered
      exact (hanswered.elim hqueued hsaid).elim
  · have hboth := hW.once
    rw [taken, List.map_append] at hboth
    exact (List.nodup_append.1 hboth).2.1
  · obtain ⟨th, ⟨call, hcall, hthread, htext, hperson, huntil, -⟩, hcamera, hclosed, hvisitor,
      hnow, hfits⟩ := hW.right f (List.mem_append_right _ hf)
    exact ⟨call, th, hcall, hthread, htext, hvisitor, hcamera.symm, huntil ▸ hnow, hperson ▸ hfits⟩
  · obtain ⟨hH, hU⟩ := Runs.honest hrun hkeeps
    exact ⟨hH.answered i call hi, hU i call hi⟩

/-- Two members reply to two visitors of one camera. -/
theorem reply_taken_for_another : ∃ h s, Runs {} 0 h s ∧ ∃ call, s.calls[0]? = some call ∧
    call.progress = .answered .said ∧ ¬s.Said 0 := by
  refine ⟨_, _, ((((((Run.start.next
    ⟨.open_ ⟨"a", 1, 0, [7], 0⟩, .open_ (by decide), rfl⟩).next
    ⟨.open_ ⟨"b", 1, 0, [8], 0⟩, .open_ (by decide), rfl⟩).next
    ⟨.reply ⟨7, "a", [97], 0⟩, .reply (by decide) rfl, rfl⟩).next
    ⟨.reply ⟨8, "b", [98], 0⟩, .reply (by decide) rfl, rfl⟩).next
    ⟨.find 0 true, .find rfl rfl, rfl⟩).next
    ⟨.deliver 0 { cameraId := 1 } 0, .deliver rfl rfl (by decide) rfl, rfl⟩).next
    ⟨.say _, .say List.mem_cons_self, rfl⟩, _, rfl, rfl, ?_⟩
  rintro ⟨f, hf, hcall⟩
  obtain rfl := List.mem_singleton.1 hf
  cases hcall

/-- One member replies to one visitor. -/
theorem reply_reaches_visitor : ∃ h s, Runs {} 0 h s ∧ s.Said 0 := by
  have hrun : ∃ h s, Runs {} 0 h s ∧ (∀ n ∈ h, n.1.Keeps {} n.2) ∧ ∃ call,
      s.calls[0]? = some call ∧ call.progress = .answered .said := by
    refine ⟨_, _, ((((Run.start.next
      ⟨.open_ ⟨"a", 1, 0, [7], 0⟩, .open_ (by decide), rfl⟩).next
      ⟨.reply ⟨7, "a", [97], 0⟩, .reply (by decide) rfl, rfl⟩).next
      ⟨.find 0 true, .find rfl rfl, rfl⟩).next
      ⟨.deliver 0 { cameraId := 1 } 0, .deliver rfl rfl (by decide) rfl, rfl⟩).next
      ⟨.say _, .say List.mem_cons_self, rfl⟩, ?_, _, rfl, rfl⟩
    simp only [List.nil_append, List.cons_append, List.forall_mem_cons]
    refine ⟨trivial, fun thread pending _ _ _ _ hp => (nomatch hp), trivial,
      fun pending hp _ => ?_, trivial, nofun⟩
    obtain rfl := Option.some.inj hp
    exact .inl rfl
  obtain ⟨h, s, hrun, hkeeps, call, hi, hsaid⟩ := hrun
  exact ⟨h, s, hrun, ((replies_reach_visitors hrun).2.2.2 hkeeps 0 call hi).1 hsaid⟩

end Replies

end Voice

end ArgusBackend
