import ArgusBackend.Library.Places
import ArgusBackend.Safety.Attempts

/-!
# The failures recorded while attempts run

* `Exclusive` : a user is in flight exactly while one run of theirs is in progress;
* `Guarded` : a run in progress has its user to itself and the rows were recorded, after every event;
* `Bounded` : what the rows and the runs in progress say about the failures recorded, kept by every
  event whose clear comes in time.
-/

namespace ArgusBackend

namespace Safety

namespace Lockout

open Places

/-! ### Who is in flight -/

/-- A try of a user is under way. -/
def busy (userId : ℤ) (a : Attempt) : Bool := a.inProgress && a.userId = userId

/-- A user is in flight exactly while one run of theirs is in progress. -/
def Exclusive (w : World) : Prop :=
  ∀ u, w.attempts.countP (busy u) = if u ∈ w.db.inFlight then 1 else 0

section Exclusive

variable {limits : Limits} {w : World} {i j : ℕ} {a a' b : Attempt} {db : Db} {found : PinMatch}
  {note : Option Note}

/-- A step of a run keeps the user in flight, reserves or releases. -/
theorem step_kind (h : a.step limits w found = some (a', db, note)) :
    a'.userId = a.userId ∧
      ((a'.inProgress = a.inProgress ∧ db.inFlight = w.db.inFlight) ∨
        (a.inProgress = false ∧ a'.inProgress = true ∧ a.userId ∉ w.db.inFlight ∧
          db.inFlight = insert a.userId w.db.inFlight) ∨
        (a.inProgress = true ∧ a'.inProgress = false ∧
          db.inFlight = w.db.inFlight.erase a.userId)) := by
  unfold Attempt.step at h
  cases hpoint : a.point with
  | finished verdict => simp [hpoint] at h
  | occupy now =>
    simp only [hpoint] at h
    split at h <;> obtain ⟨rfl, rfl, -⟩ : _ = a' ∧ _ = db ∧ _ = note := by simpa using h
    next => exact ⟨rfl, .inl ⟨by simp [Attempt.inProgress, Attempt.goto, hpoint], rfl⟩⟩
    next hfree =>
      exact ⟨rfl, .inr (.inl ⟨by simp [Attempt.inProgress, hpoint], rfl, hfree, rfl⟩)⟩
  | count now =>
    simp only [hpoint] at h
    split at h <;> obtain ⟨rfl, rfl, -⟩ : _ = a' ∧ _ = db ∧ _ = note := by simpa using h
    all_goals exact ⟨rfl, .inl ⟨by simp [Attempt.inProgress, Attempt.goto, hpoint], rfl⟩⟩
  | settle isLocked found =>
    obtain ⟨rfl, rfl, -⟩ : _ = a' ∧ _ = db ∧ _ = note := by simpa [hpoint] using h
    refine ⟨rfl, .inr (.inr ⟨by simp [Attempt.inProgress, hpoint], ?_, rfl⟩)⟩
    unfold Attempt.after
    split_ifs <;> rfl
  | abandon =>
    obtain ⟨rfl, rfl, -⟩ : _ = a' ∧ _ = db ∧ _ = note := by simpa [hpoint] using h
    exact ⟨rfl, .inr (.inr ⟨by simp [Attempt.inProgress, hpoint], rfl, rfl⟩)⟩
  | clear found =>
    obtain ⟨rfl, rfl, -⟩ : _ = a' ∧ _ = db ∧ _ = note := by simpa [hpoint] using h
    refine ⟨rfl, .inl ⟨?_, rfl⟩⟩
    unfold Attempt.after
    split_ifs <;> simp [Attempt.inProgress, Attempt.goto, hpoint]
  | _ =>
    obtain ⟨rfl, rfl, -⟩ : _ = a' ∧ _ = db ∧ _ = note := by simpa [hpoint] using h
    exact ⟨rfl, .inl ⟨by simp [Attempt.inProgress, Attempt.goto, hpoint], rfl⟩⟩

theorem Exclusive.run {k : ℕ} (hx : Exclusive w) (hi : w.attempts[i]? = some a)
    (h : a.step limits w found = some (a', db, note)) :
    Exclusive { w with db, attempts := w.attempts.set i a', nextSerial := k } := by
  intro u
  obtain ⟨huser, hkind⟩ := step_kind h
  have hcount := @countP_replace _ _ _ _ a' (busy u) hi
  have hold := hx u
  rcases hkind with ⟨hsame, hin⟩ | ⟨hidle, hbusy, hfree, hin⟩ | ⟨hbusy, hidle, hin⟩
  · have heq : busy u a' = busy u a := by simp [busy, huser, hsame]
    rw [heq] at hcount
    simp only [hin]
    omega
  · have ha : busy u a = false := by simp [busy, hidle]
    have ha' : busy u a' = decide (a.userId = u) := by simp [busy, hbusy, huser]
    rw [ha, ha'] at hcount
    by_cases hu : a.userId = u
    · subst hu
      rw [if_neg hfree] at hold
      simp only [hin, Finset.mem_insert_self, if_true, decide_true] at hcount ⊢
      simp only [Bool.false_eq_true, if_false] at hcount
      omega
    · have hmem : u ∈ insert a.userId w.db.inFlight ↔ u ∈ w.db.inFlight := by
        simp [Ne.symm hu]
      simp only [hu, decide_false, Bool.false_eq_true, if_false, Nat.add_zero] at hcount
      simp only [hin, hmem]
      exact hcount.trans hold
  · have ha : busy u a = decide (a.userId = u) := by simp [busy, hbusy]
    have ha' : busy u a' = false := by simp [busy, hidle]
    rw [ha, ha'] at hcount
    by_cases hu : a.userId = u
    · subst hu
      have hle : w.attempts.countP (busy a.userId) ≤ 1 := by
        rw [hold]
        split <;> omega
      simp only [decide_true, if_true, Bool.false_eq_true, if_false] at hcount
      simp only [hin, Finset.mem_erase, ne_eq, not_true, false_and, if_false]
      omega
    · have hmem : u ∈ w.db.inFlight.erase a.userId ↔ u ∈ w.db.inFlight := by
        simp [Ne.symm hu]
      simp only [hu, decide_false, Bool.false_eq_true, if_false, Nat.add_zero] at hcount
      simp only [hin, hmem]
      exact hcount.trans hold

theorem Exclusive.same (hx : Exclusive w) (hi : w.attempts[i]? = some a)
    (huser : a'.userId = a.userId) (hsame : a'.inProgress = a.inProgress) :
    Exclusive { w with attempts := w.attempts.set i a' } := by
  intro u
  have hcount := @countP_replace _ _ _ _ a' (busy u) hi
  have heq : busy u a' = busy u a := by simp [busy, huser, hsame]
  rw [heq] at hcount
  have hold := hx u
  simp only
  omega

/-- Two runs of a user in progress are one. -/
theorem Exclusive.eq (hx : Exclusive w) (hi : w.attempts[i]? = some a) (ha : a.inProgress = true)
    (hj : w.attempts[j]? = some b) (hb : b.inProgress = true) (huser : b.userId = a.userId) :
    i = j := by
  refine eq_of_countP_le_one (p := busy a.userId) ?_ hi (by simp [busy, ha]) hj
    (by simp [busy, hb, huser])
  rw [hx]
  split <;> omega

end Exclusive

/-! ### Failures and rows -/

section Failures

variable {h : List Note} {u v since : ℤ} {s : ℕ} {now : ℤ}

theorem failures_recorded :
    failures (h ++ [.recorded s v now]) u =
      if v = u then failures h u ++ [(s, now)] else failures h u := by
  rw [failures, List.foldl_concat]
  rfl

theorem failures_accepted {t : ℤ} :
    failures (h ++ [.accepted s v t]) u = if v = u then [] else failures h u := by
  rw [failures, List.foldl_concat]
  rfl

theorem failures_wiped :
    failures (h ++ [.wiped v]) u = if v = u then [] else failures h u := by
  rw [failures, List.foldl_concat]
  rfl

theorem failures_cleared : failures (h ++ [.cleared s v]) u = failures h u := by
  rw [failures, List.foldl_concat]
  rfl

theorem failures_invalid : failures (h ++ [.invalid s v]) u = failures h u := by
  rw [failures, List.foldl_concat]
  rfl

theorem failuresSince_le {since' : ℤ} (hle : since ≤ since') :
    failuresSince h u since' ≤ failuresSince h u since :=
  List.countP_mono_left fun f _ hf => by
    simp only [decide_eq_true_eq] at hf ⊢
    omega

theorem othersSince_le {since' : ℤ} (hle : since ≤ since') :
    othersSince h u since' s ≤ othersSince h u since s :=
  List.countP_mono_left fun f _ hf => by
    simp only [decide_eq_true_eq] at hf ⊢
    exact ⟨by omega, hf.2⟩

theorem othersSince_le_failuresSince : othersSince h u since s ≤ failuresSince h u since :=
  List.countP_mono_left fun f _ hf => by
    simp only [decide_eq_true_eq] at hf ⊢
    exact hf.1

variable {db : Db}

theorem countSince_prune {v' since' : ℤ} (hle : since' ≤ since) :
    (db.pruneUser v' since').countSince u since = db.countSince u since := by
  unfold Db.pruneUser Db.countSince
  rw [List.countP_filter]
  refine List.countP_congr fun row _ => ?_
  simp only [Bool.and_eq_true, decide_eq_true_eq, Bool.not_eq_true', decide_eq_false_iff_not]
  omega

theorem countSince_purge {cutoff : ℤ} (hle : cutoff ≤ since) :
    (db.purgeBefore cutoff).countSince u since = db.countSince u since := by
  unfold Db.purgeBefore Db.countSince
  rw [List.countP_filter]
  refine List.countP_congr fun row _ => ?_
  simp only [Bool.and_eq_true, decide_eq_true_eq]
  omega

theorem countSince_clear (hne : v ≠ u) :
    (db.clearUser v).countSince u since = db.countSince u since := by
  unfold Db.clearUser Db.countSince
  rw [List.countP_filter]
  refine List.countP_congr fun row _ => ?_
  simp only [Bool.and_eq_true, decide_eq_true_eq]
  omega

theorem countSince_insert :
    (db.insertFailure ⟨v, now⟩).countSince u since =
      db.countSince u since + if v = u ∧ since < now then 1 else 0 := by
  unfold Db.insertFailure Db.countSince
  rw [List.countP_append, List.countP_singleton]
  simp only [decide_eq_true_eq]

theorem countSince_le {since' : ℤ} (hle : since ≤ since') :
    db.countSince u since' ≤ db.countSince u since :=
  List.countP_mono_left fun row _ hrow => by
    simp only [decide_eq_true_eq] at hrow ⊢
    exact ⟨hrow.1, by omega⟩

end Failures

/-- The clock that a run has read, while it goes by it. -/
def Point.now? : Point → Option ℤ
  | .occupy now | .prune now | .count now | .record now => some now
  | _ => none

/-- What stands after every event: a run in progress has its user to itself, and every row is a
failure that was recorded. -/
structure Guarded (h : List Note) (w : World) : Prop where
  exclusive : Exclusive w
  stored : ∀ row ∈ w.db.attempts, ∃ s, .recorded s row.userId row.at_ ∈ h

/-- What stands as well while the clears come in time. -/
structure Bounded (limits : Limits) (h : List Note) (w : World) : Prop where
  past : ∀ a ∈ w.attempts, ∀ now, a.point.now? = some now → now ≤ w.clock
  numbered : ∀ a ∈ w.attempts, a.point ≠ .clock → a.serial < w.nextSerial
  rows : ∀ u since, w.clock - limits.windowSeconds ≤ since →
    failuresSince h u since ≤ w.db.countSince u since
  recording : ∀ a ∈ w.attempts, ∀ now, a.point = .record now →
    failuresSince h a.userId (w.clock - limits.windowSeconds) < limits.maxFailures
  comparing : ∀ a ∈ w.attempts, a.point = .compare false →
    othersSince h a.userId (w.clock - limits.windowSeconds) a.serial < limits.maxFailures

/-- Past its settlement a run reads no clock, records nothing and compares nothing. -/
theorem after_idle (isLocked : Bool) (found : PinMatch) :
    (Attempt.after isLocked found).now? = none ∧
      (∀ now, Attempt.after isLocked found ≠ .record now) ∧
      Attempt.after isLocked found ≠ .compare false := by
  unfold Attempt.after
  split_ifs <;> exact ⟨rfl, fun _ => Point.noConfusion, Point.noConfusion⟩

theorem settled_idle (isLocked : Bool) (found : PinMatch) :
    (if Attempt.accepts isLocked found = true then Point.clear found
        else Attempt.after isLocked found).now? = none ∧
      (∀ now, (if Attempt.accepts isLocked found = true then Point.clear found
        else Attempt.after isLocked found) ≠ .record now) ∧
      (if Attempt.accepts isLocked found = true then Point.clear found
        else Attempt.after isLocked found) ≠ .compare false := by
  split
  next => exact ⟨rfl, fun _ => Point.noConfusion, Point.noConfusion⟩
  next => exact after_idle isLocked found

section Steps

variable {limits : Limits} {h h' : List Note} {w : World} {i k : ℕ} {a a' : Attempt} {db : Db}
  {found : PinMatch} {note : Option Note}

/-- One run moves on; the others are in progress for other users, or their failures stay. -/
theorem Bounded.replace (hB : Bounded limits h w) (hk : w.nextSerial ≤ k)
    (hrows : ∀ u since, w.clock - limits.windowSeconds ≤ since →
      failuresSince h' u since ≤ db.countSince u since)
    (hother : ∀ j b, j ≠ i → w.attempts[j]? = some b → b.inProgress = true →
      failures h' b.userId = failures h b.userId ∨ failures h' b.userId = [])
    (hpast : ∀ now, a'.point.now? = some now → now ≤ w.clock)
    (hnumber : a'.serial < k)
    (hrecord : ∀ now, a'.point = .record now →
      failuresSince h' a'.userId (w.clock - limits.windowSeconds) < limits.maxFailures)
    (hcompare : a'.point = .compare false →
      othersSince h' a'.userId (w.clock - limits.windowSeconds) a'.serial < limits.maxFailures) :
    Bounded limits h' { w with db, attempts := w.attempts.set i a', nextSerial := k } where
  past := fun b hb now hnow => by
    rcases mem_replaced hb with rfl | ⟨j, -, hj⟩
    · exact hpast now hnow
    · exact hB.past b (List.mem_of_getElem? hj) now hnow
  numbered := fun b hb hpoint => by
    rcases mem_replaced hb with rfl | ⟨j, -, hj⟩
    · exact hnumber
    · exact (hB.numbered b (List.mem_of_getElem? hj) hpoint).trans_le hk
  rows := hrows
  recording := fun b hb now hpoint => by
    rcases mem_replaced hb with rfl | ⟨j, hne, hj⟩
    · exact hrecord now hpoint
    · -- another run in progress is another user's, or its failures were wiped
      have hbound := hB.recording b (List.mem_of_getElem? hj) now hpoint
      rcases hother j b hne hj (by simp [Attempt.inProgress, hpoint]) with hsame | hnone
      · simpa only [failuresSince, hsame] using hbound
      · simp only [failuresSince, hnone, List.countP_nil]
        omega
  comparing := fun b hb hpoint => by
    rcases mem_replaced hb with rfl | ⟨j, hne, hj⟩
    · exact hcompare hpoint
    · have hbound := hB.comparing b (List.mem_of_getElem? hj) hpoint
      rcases hother j b hne hj (by simp [Attempt.inProgress, hpoint]) with hsame | hnone
      · simpa only [othersSince, hsame] using hbound
      · simp only [othersSince, hnone, List.countP_nil]
        omega

/-- A run goes over one await. -/
theorem Bounded.run (hB : Bounded limits h w) (hx : Exclusive w) (hi : w.attempts[i]? = some a)
    (hstep : a.step limits w found = some (a', db, note))
    (hclears : ∀ n, note = some n → ClearsInTime h n) :
    Bounded limits (h ++ note.toList)
      { w with db, attempts := w.attempts.set i a'
               nextSerial := if a.point = .clock then w.nextSerial + 1 else w.nextSerial } := by
  have ha := List.mem_of_getElem? hi
  unfold Attempt.step at hstep
  cases hpoint : a.point with
  | clock =>
    obtain ⟨rfl, rfl, rfl⟩ : _ = a' ∧ _ = db ∧ _ = note := by simpa [hpoint] using hstep
    simp only [if_true, Option.toList_none, List.append_nil]
    exact hB.replace (Nat.le_succ _) hB.rows (fun _ _ _ _ _ => .inl rfl)
      (fun now hnow => by cases hnow; exact le_rfl) (Nat.lt_succ_self _)
      (fun _ hp => by cases hp) (fun hp => by cases hp)
  | finished verdict => simp [hpoint] at hstep
  | occupy now =>
    have hnow := hB.past a ha now (by rw [hpoint]; rfl)
    simp only [hpoint] at hstep
    split at hstep <;> obtain ⟨rfl, rfl, rfl⟩ : _ = a' ∧ _ = db ∧ _ = note := by simpa using hstep
    · simp only [reduceCtorEq, if_false, Option.toList_none, List.append_nil]
      exact hB.replace le_rfl hB.rows (fun _ _ _ _ _ => .inl rfl)
        (fun _ hn => by cases hn) (hB.numbered a ha (by simp [hpoint]))
        (fun _ hp => by cases hp) (fun hp => by cases hp)
    · simp only [reduceCtorEq, if_false, Option.toList_none, List.append_nil]
      exact hB.replace le_rfl hB.rows (fun _ _ _ _ _ => .inl rfl)
        (fun _ hn => by cases hn; exact hnow)
        (hB.numbered a ha (by simp [hpoint])) (fun _ hp => by cases hp) (fun hp => by cases hp)
  | prune now =>
    have hnow := hB.past a ha now (by rw [hpoint]; rfl)
    obtain ⟨rfl, rfl, rfl⟩ : _ = a' ∧ _ = db ∧ _ = note := by simpa [hpoint] using hstep
    simp only [reduceCtorEq, if_false, Option.toList_none, List.append_nil]
    refine hB.replace le_rfl (fun u since hsince => ?_)
      (fun _ _ _ _ _ => .inl rfl)
      (fun _ hn => by cases hn; exact hnow) (hB.numbered a ha (by simp [hpoint]))
      (fun _ hp => by cases hp) (fun hp => by cases hp)
    -- what is pruned has left the window by now
    rw [countSince_prune (by omega)]
    exact hB.rows u since hsince
  | count now =>
    have hnow := hB.past a ha now (by rw [hpoint]; rfl)
    simp only [hpoint] at hstep
    split at hstep
    next hmax =>
      obtain ⟨rfl, rfl, rfl⟩ : _ = a' ∧ _ = db ∧ _ = note := by simpa using hstep
      simp only [reduceCtorEq, if_false, Option.toList_none, List.append_nil]
      exact hB.replace le_rfl hB.rows (fun _ _ _ _ _ => .inl rfl)
        (fun _ hn => by cases hn) (hB.numbered a ha (by simp [hpoint]))
        (fun _ hp => by cases hp) (fun hp => by cases hp)
    next hmax =>
      obtain ⟨rfl, rfl, rfl⟩ : _ = a' ∧ _ = db ∧ _ = note := by simpa using hstep
      simp only [reduceCtorEq, if_false, Option.toList_none, List.append_nil]
      refine hB.replace le_rfl hB.rows (fun _ _ _ _ _ => .inl rfl)
        (fun _ hn => by cases hn; exact hnow)
        (hB.numbered a ha (by simp [hpoint])) (fun _ _ => ?_) (fun hp => by cases hp)
      calc failuresSince h a.userId (w.clock - limits.windowSeconds)
          ≤ w.db.countSince a.userId (w.clock - limits.windowSeconds) := hB.rows _ _ le_rfl
        _ ≤ w.db.countSince a.userId (now - limits.windowSeconds) := countSince_le (by omega)
        _ < limits.maxFailures := Nat.lt_of_not_le hmax
  | record now =>
    have hbound := hB.recording a ha now hpoint
    obtain ⟨rfl, rfl, rfl⟩ : _ = a' ∧ _ = db ∧ _ = note := by simpa [hpoint] using hstep
    simp only [reduceCtorEq, if_false, Option.toList_some]
    refine hB.replace le_rfl (fun u since hsince => ?_)
      (fun j b hne hj hb => .inl ?_) (fun _ hn => by cases hn)
      (hB.numbered a ha (by simp [hpoint])) (fun _ hp => by cases hp) (fun _ => ?_)
    · have hrows := hB.rows u since hsince
      rw [countSince_insert]
      simp only [failuresSince, failures_recorded] at hrows ⊢
      by_cases hu : a.userId = u
      · simp only [hu, if_true, List.countP_append, List.countP_singleton, decide_eq_true_eq,
          true_and]
        omega
      · simp only [hu, if_false, false_and]
        omega
    · rw [failures_recorded, if_neg]
      intro huser
      exact hne (Exclusive.eq hx hi (by simp [Attempt.inProgress, hpoint]) hj hb huser.symm).symm
    · refine lt_of_le_of_lt ?_ hbound
      refine le_trans (le_of_eq ?_) (othersSince_le_failuresSince (s := a.serial))
      change (failures (h ++ [.recorded a.serial a.userId now]) a.userId).countP _ = _
      rw [failures_recorded, if_pos rfl, List.countP_append, List.countP_singleton]
      simp only [ne_eq, not_true_eq_false, and_false, decide_false, Bool.false_eq_true, if_false,
        Nat.add_zero, othersSince, Attempt.goto]
      rfl
  | compare isLocked =>
    obtain ⟨rfl, rfl, rfl⟩ : _ = a' ∧ _ = db ∧ _ = note := by simpa [hpoint] using hstep
    simp only [reduceCtorEq, if_false]
    have hnumber := hB.numbered a ha (by simp [hpoint])
    split
    next haccepts =>
      -- the acceptance starts the failures of the user anew
      refine hB.replace le_rfl (fun u since hsince => ?_)
        (fun j b hne hj hb => ?_) (fun _ hn => by cases hn) hnumber
        (fun _ hp => by cases hp) (fun hp => by cases hp)
      · simp only [failuresSince, Option.toList_some, failures_accepted]
        split
        next => exact Nat.zero_le _
        next => exact hB.rows u since hsince
      · rw [Option.toList_some, failures_accepted]
        split
        next => exact .inr rfl
        next => exact .inl rfl
    next haccepts =>
      rw [Option.toList_none, List.append_nil]
      exact hB.replace le_rfl hB.rows (fun _ _ _ _ _ => .inl rfl)
        (fun _ hn => by cases hn) hnumber
        (fun _ hp => by cases hp) (fun hp => by cases hp)
  | abandon =>
    obtain ⟨rfl, rfl, rfl⟩ : _ = a' ∧ _ = db ∧ _ = note := by simpa [hpoint] using hstep
    simp only [reduceCtorEq, if_false, Option.toList_none, List.append_nil]
    exact hB.replace le_rfl hB.rows (fun _ _ _ _ _ => .inl rfl)
      (fun _ hn => by cases hn) (hB.numbered a ha (by simp [hpoint]))
      (fun _ hp => by cases hp) (fun hp => by cases hp)
  | settle isLocked found =>
    obtain ⟨rfl, rfl, rfl⟩ : _ = a' ∧ _ = db ∧ _ = note := by simpa [hpoint] using hstep
    simp only [reduceCtorEq, if_false, Option.toList_none, List.append_nil]
    have hidle := settled_idle isLocked found
    exact hB.replace le_rfl hB.rows (fun _ _ _ _ _ => .inl rfl)
      (fun _ hn => absurd hn (by simp [Attempt.goto, hidle.1]))
      (hB.numbered a ha (by simp [hpoint]))
      (fun _ hp => absurd hp (hidle.2.1 _)) (fun hp => absurd hp hidle.2.2)
  | clear found =>
    obtain ⟨rfl, rfl, rfl⟩ : _ = a' ∧ _ = db ∧ _ = note := by simpa [hpoint] using hstep
    have hnone : failures h a.userId = [] := hclears _ rfl
    have hidle := after_idle false found
    simp only [reduceCtorEq, if_false, Option.toList_some]
    refine hB.replace le_rfl (fun u since hsince => ?_)
      (fun _ _ _ _ _ => .inl failures_cleared)
      (fun _ hn => absurd hn (by simp [Attempt.goto, hidle.1]))
      (hB.numbered a ha (by simp [hpoint]))
      (fun _ hp => absurd hp (hidle.2.1 _)) (fun hp => absurd hp hidle.2.2)
    rw [failuresSince, failures_cleared]
    by_cases hu : a.userId = u
    · rw [← hu, hnone]
      exact Nat.zero_le _
    · rw [countSince_clear hu]
      exact hB.rows u since hsince
  | alarm =>
    obtain ⟨rfl, rfl, rfl⟩ : _ = a' ∧ _ = db ∧ _ = note := by simpa [hpoint] using hstep
    simp only [reduceCtorEq, if_false, Option.toList_none, List.append_nil]
    exact hB.replace le_rfl hB.rows (fun _ _ _ _ _ => .inl rfl)
      (fun _ hn => by cases hn) (hB.numbered a ha (by simp [hpoint]))
      (fun _ hp => by cases hp) (fun hp => by cases hp)
  | refuse error =>
    obtain ⟨rfl, rfl, rfl⟩ : _ = a' ∧ _ = db ∧ _ = note := by simpa [hpoint] using hstep
    simp only [reduceCtorEq, if_false]
    have hsame : ∀ u, failures (h ++ (if error = .pinInvalid then
        some (Note.invalid a.serial a.userId) else none).toList) u = failures h u := by
      intro u
      split
      next => exact failures_invalid
      next => rw [Option.toList_none, List.append_nil]
    refine hB.replace le_rfl (fun u since hsince => ?_)
      (fun _ _ _ _ _ => .inl (hsame _)) (fun _ hn => by cases hn)
      (hB.numbered a ha (by simp [hpoint])) (fun _ hp => by cases hp) (fun hp => by cases hp)
    rw [failuresSince, hsame]
    exact hB.rows u since hsince

theorem throw_spec (hthrow : a.throw = some a') :
    a'.userId = a.userId ∧ a'.serial = a.serial ∧ a'.inProgress = a.inProgress ∧
      a.point ≠ .clock ∧ a'.point.now? = none ∧ (∀ now, a'.point ≠ .record now) ∧
        a'.point ≠ .compare false := by
  unfold Attempt.throw at hthrow
  cases hpoint : a.point <;> simp only [hpoint, Option.some.injEq, reduceCtorEq] at hthrow <;>
    subst hthrow <;> simp [Attempt.goto, Attempt.inProgress, hpoint, Point.now?]

/-- A step of a run adds at most the row of the failure it records. -/
theorem step_stored {row : PinFailureInput} (hstep : a.step limits w found = some (a', db, note))
    (hrow : row ∈ db.attempts) :
    row ∈ w.db.attempts ∨ note = some (.recorded a.serial row.userId row.at_) := by
  unfold Attempt.step at hstep
  cases hpoint : a.point with
  | finished verdict => simp [hpoint] at hstep
  | occupy now | count now =>
    simp only [hpoint] at hstep
    split at hstep <;> obtain ⟨-, rfl, -⟩ : _ = a' ∧ _ = db ∧ _ = note := by simpa using hstep
    all_goals exact .inl hrow
  | prune now | clear found =>
    obtain ⟨-, rfl, -⟩ : _ = a' ∧ _ = db ∧ _ = note := by simpa [hpoint] using hstep
    exact .inl (List.mem_of_mem_filter hrow)
  | record now =>
    obtain ⟨-, rfl, rfl⟩ : _ = a' ∧ _ = db ∧ _ = note := by simpa [hpoint] using hstep
    rcases List.mem_append.1 hrow with hbefore | hnew
    · exact .inl hbefore
    · obtain rfl := List.mem_singleton.1 hnew
      exact .inr rfl
  | _ =>
    obtain ⟨-, rfl, -⟩ : _ = a' ∧ _ = db ∧ _ = note := by simpa [hpoint] using hstep
    exact .inl hrow

theorem Guarded.act {w' : World} {ev : Event} (hG : Guarded h w)
    (hact : act limits w ev = some (w', note)) : Guarded (h ++ note.toList) w' := by
  have hkeep : ∀ row ∈ w.db.attempts, ∃ s, .recorded s row.userId row.at_ ∈ h ++ note.toList :=
    fun row hrow => (hG.stored row hrow).imp fun s hs => List.mem_append_left _ hs
  cases acted hact with
  | verifyPin =>
    refine ⟨fun u => ?_, hkeep⟩
    rw [List.countP_append, hG.exclusive u]
    rfl
  | run hi hstep =>
    refine ⟨hG.exclusive.run hi hstep, fun row hrow => ?_⟩
    rcases step_stored hstep hrow with hbefore | rfl
    · exact hkeep row hbefore
    · exact ⟨_, List.mem_append_right _ List.mem_cons_self⟩
  | throw hi hthrow =>
    obtain ⟨huser, -, hsame, -⟩ := throw_spec hthrow
    exact ⟨hG.exclusive.same hi huser hsame, hkeep⟩
  | purgeExpired | wipe =>
    exact ⟨hG.exclusive, fun row hrow => hkeep row (List.mem_of_mem_filter hrow)⟩
  | tick => exact ⟨hG.exclusive, hkeep⟩

/-- Every event keeps the bounds. -/
theorem Bounded.act {w' : World} {ev : Event} (hB : Bounded limits h w) (hx : Exclusive w)
    (hact : act limits w ev = some (w', note))
    (hclears : ∀ n, note = some n → ClearsInTime h n) :
    Bounded limits (h ++ note.toList) w' := by
  cases acted hact with
  | verifyPin =>
    rw [Option.toList_none, List.append_nil]
    refine ⟨fun b hb now hnow => ?_, fun b hb hpoint => ?_, hB.rows, fun b hb now hpoint => ?_,
      fun b hb hpoint => ?_⟩
    all_goals rcases List.mem_append.1 hb with hold | hnew
    · exact hB.past b hold now hnow
    · obtain rfl := List.mem_singleton.1 hnew
      cases hnow
    · exact hB.numbered b hold hpoint
    · obtain rfl := List.mem_singleton.1 hnew
      exact absurd rfl hpoint
    · exact hB.recording b hold now hpoint
    · obtain rfl := List.mem_singleton.1 hnew
      cases hpoint
    · exact hB.comparing b hold hpoint
    · obtain rfl := List.mem_singleton.1 hnew
      cases hpoint
  | run hi hstep =>
    exact hB.run hx hi hstep hclears
  | @throw i a a' hi hthrow =>
    rw [Option.toList_none, List.append_nil]
    obtain ⟨huser, hserial, hsame, hclock, hnow, hrecord, hcompare⟩ := throw_spec hthrow
    exact hB.replace le_rfl hB.rows (fun _ _ _ _ _ => .inl rfl)
      (fun _ hn => by rw [hnow] at hn; cases hn)
      (hserial ▸ hB.numbered a (List.mem_of_getElem? hi) hclock)
      (fun _ hp => absurd hp (hrecord _)) (fun hp => absurd hp hcompare)
  | purgeExpired hle =>
    rw [Option.toList_none, List.append_nil]
    refine ⟨hB.past, hB.numbered, fun u since hsince => ?_, hB.recording, hB.comparing⟩
    -- the purge read its clock before, so what it deletes has left the window
    rw [countSince_purge (by simp only at hsince; omega)]
    exact hB.rows u since hsince
  | wipe =>
    rw [Option.toList_some]
    refine ⟨hB.past, hB.numbered, fun u since hsince => ?_, fun b hb now hpoint => ?_,
      fun b hb hpoint => ?_⟩
    · rw [failuresSince, failures_wiped]
      split
      next => exact Nat.zero_le _
      next hu =>
        rw [countSince_clear hu]
        exact hB.rows u since hsince
    · have hbound := hB.recording b hb now hpoint
      rw [failuresSince, failures_wiped]
      split
      next => exact lt_of_le_of_lt (Nat.zero_le _) hbound
      next => exact hbound
    · have hbound := hB.comparing b hb hpoint
      rw [othersSince, failures_wiped]
      split
      next => exact lt_of_le_of_lt (Nat.zero_le _) hbound
      next => exact hbound
  | tick hle =>
    rw [Option.toList_none, List.append_nil]
    refine ⟨fun b hb t ht => ?_, hB.numbered, fun u since hsince => ?_,
      fun b hb t hpoint => ?_, fun b hb hpoint => ?_⟩
    · have := hB.past b hb t ht
      simp only
      omega
    · exact hB.rows u since (by simp only at hsince; omega)
    · exact lt_of_le_of_lt (failuresSince_le (by simp only; omega)) (hB.recording b hb t hpoint)
    · exact lt_of_le_of_lt (othersSince_le (by simp only; omega)) (hB.comparing b hb hpoint)

/-- What an event remembers of an acceptance or a failure keeps below the limit. -/
theorem Bounded.note_below {w' : World} {ev : Event} {n : Note} (hB : Bounded limits h w)
    (hact : Lockout.act limits w ev = some (w', some n)) :
    AcceptsBelow limits h n ∧ ∀ s u now, n = .recorded s u now →
      failuresSince h u (w.clock - limits.windowSeconds) < limits.maxFailures := by
  cases acted hact with
  | @run i found a a' db note hi hstep =>
    have ha := List.mem_of_getElem? hi
    unfold Attempt.step at hstep
    cases hpoint : a.point with
    | record now =>
      obtain ⟨-, -, rfl⟩ : _ = a' ∧ _ = db ∧ _ = n := by simpa [hpoint] using hstep
      refine ⟨trivial, fun s u t heq => ?_⟩
      cases heq
      exact hB.recording a ha now hpoint
    | compare isLocked =>
      simp only [hpoint, Option.some.injEq, Prod.mk.injEq] at hstep
      obtain ⟨-, -, hnote⟩ := hstep
      split at hnote
      next haccepts =>
        obtain rfl := Option.some.inj hnote
        -- a locked run does not accept
        have hunlocked : isLocked = false := by
          simp only [Attempt.accepts, Bool.and_eq_true, Bool.not_eq_true'] at haccepts
          exact haccepts.1
        subst hunlocked
        exact ⟨hB.comparing a ha hpoint, fun _ _ _ heq => by cases heq⟩
      next => cases hnote
    | clear found =>
      obtain ⟨-, -, rfl⟩ : _ = a' ∧ _ = db ∧ _ = n := by simpa [hpoint] using hstep
      exact ⟨trivial, fun _ _ _ heq => by cases heq⟩
    | refuse error =>
      simp only [hpoint, Option.some.injEq, Prod.mk.injEq] at hstep
      obtain ⟨-, -, hnote⟩ := hstep
      split at hnote
      next =>
        obtain rfl := Option.some.inj hnote
        exact ⟨trivial, fun _ _ _ heq => by cases heq⟩
      next => cases hnote
    | occupy now | count now =>
      simp only [hpoint] at hstep
      split at hstep <;> simp at hstep
    | _ => simp [hpoint] at hstep
  | wipe => exact ⟨trivial, fun _ _ _ heq => by cases heq⟩

end Steps

end Lockout

end Safety

end ArgusBackend
