import ArgusBackend.Safety.Failures

/-!
# The lockout bounds guessing

* `Kept` : the bounds hold and no attempt is accepted at the limit, after every run;
* `Spanned` : what a span of the window adds: failures recorded in it, answers owed for them;
* `lockout_bounds` : the four bounds, the first two in runs whose clears come in time;
* `answers_exceed_span`, `late_clear_forgives` : where answers go beyond the limit.
-/

namespace ArgusBackend

namespace Safety

namespace Lockout

open Places

/-! ### Whole runs -/

/-- No run has begun. -/
def start (clock : ℤ) : World := { clock }

section Runs

variable {limits : Limits} {h h₁ h₂ : List Note} {w w₁ w₂ : World}

/-- What is kept while the clears come in time. -/
structure Kept (limits : Limits) (h : List Note) (w : World) : Prop where
  guarded : Guarded h w
  bounded : Bounded limits h w
  accepts : Chronicle (AcceptsBelow limits) h

theorem guarded_start (clock : ℤ) : Guarded [] (start clock) where
  exclusive _ := rfl
  stored _ hrow := absurd hrow List.not_mem_nil

theorem kept_start (clock : ℤ) : Kept limits [] (start clock) where
  guarded := guarded_start clock
  bounded := {
    past := fun _ ha => absurd ha List.not_mem_nil
    numbered := fun _ ha => absurd ha List.not_mem_nil
    rows := fun _ _ _ => Nat.zero_le _
    recording := fun _ ha => absurd ha List.not_mem_nil
    comparing := fun _ ha => absurd ha List.not_mem_nil }
  accepts := Chronicle.nil

theorem Kept.act {w' : World} {ev : Event} {note : Option Note} (hK : Kept limits h w)
    (hact : Lockout.act limits w ev = some (w', note))
    (hclears : Chronicle ClearsInTime (h ++ note.toList)) : Kept limits (h ++ note.toList) w' := by
  cases note with
  | none =>
    refine ⟨hK.guarded.act hact,
      hK.bounded.act hK.guarded.exclusive hact fun _ hn => (by cases hn), ?_⟩
    rw [Option.toList_none, List.append_nil]
    exact hK.accepts
  | some n =>
    refine ⟨hK.guarded.act hact, hK.bounded.act hK.guarded.exclusive hact fun m hm => ?_, ?_⟩
    · obtain rfl := Option.some.inj hm
      exact (Chronicle.of_concat hclears).2
    · exact hK.accepts.concat (hK.bounded.note_below hact).1

theorem Guarded.of_run {clock : ℤ} (hrun : Run (Step limits) (start clock) h w) : Guarded h w :=
  hrun.invariant (guarded_start clock) fun _ _ _ _ hG ⟨_, _, hact, hnotes⟩ =>
    hnotes ▸ hG.act hact

theorem Kept.run (hK : Kept limits h₁ w₁) (hrun : Run (Step limits) w₁ h₂ w₂)
    (hclears : Chronicle ClearsInTime (h₁ ++ h₂)) : Kept limits (h₁ ++ h₂) w₂ := by
  refine hrun.invariant
    (J := fun h w => Chronicle ClearsInTime (h₁ ++ h) → Kept limits (h₁ ++ h) w)
    (fun _ => by rwa [List.append_nil]) ?_ hclears
  rintro h w notes w' hJ ⟨ev, note, hact, rfl⟩ hall
  rw [← List.append_assoc] at hall ⊢
  exact (hJ (Chronicle.of_append hall)).act hact hall

end Runs

/-! ### A span of the window -/

/-- The user's failures start anew. -/
def Ends (u : ℤ) : Note → Prop
  | .accepted _ v _ | .wiped v => v = u
  | _ => False

instance (u : ℤ) : DecidablePred (Ends u)
  | .accepted _ v _ | .wiped v => inferInstanceAs (Decidable (v = u))
  | .recorded .. | .cleared .. | .invalid .. => instDecidableFalse

/-- A failure of the user that an attempt made from `s₀` on recorded. -/
def madeFrom (u : ℤ) (s₀ : ℕ) : Note → Bool
  | .recorded s v _ => v = u && s₀ ≤ s
  | _ => false

/-- An answer `PinInvalid` to an attempt of the user made from `s₀` on. -/
def invalidFrom (u : ℤ) (s₀ : ℕ) : Note → Bool
  | .invalid s v => v = u && s₀ ≤ s
  | _ => false

/-- A run that has recorded its failure may still be answered `PinInvalid`. -/
def Point.owes : Point → Bool
  | .compare false | .settle false _ | .clear _ | .refuse .pinInvalid => true
  | _ => false

/-- A try of a user that is still to be counted. -/
def owes (u : ℤ) (s₀ : ℕ) (a : Attempt) : Bool := a.userId = u && (s₀ ≤ a.serial && a.point.owes)

/-- What stands in a span that began at the clock `c₀`, before the run `s₀` was numbered. -/
structure Spanned (limits : Limits) (u : ℤ) (s₀ : ℕ) (c₀ : ℤ) (before h : List Note) (w : World) :
    Prop where
  numbered : s₀ ≤ w.nextSerial
  later : c₀ ≤ w.clock
  dated : ∀ a ∈ w.attempts, s₀ ≤ a.serial → ∀ now, a.point.now? = some now → c₀ ≤ now
  remembered : h.countP (madeFrom u s₀) ≤
    (failures (before ++ h) u).countP fun failure => c₀ ≤ failure.2
  answered : h.countP (invalidFrom u s₀) + w.attempts.countP (owes u s₀) ≤
    h.countP (madeFrom u s₀)
  few : h.countP (madeFrom u s₀) ≤ limits.maxFailures

section Spans

variable {limits : Limits} {u : ℤ} {s₀ : ℕ} {c₀ : ℤ} {before h : List Note} {w w' : World}
  {i k : ℕ} {a a' : Attempt} {db : Db} {found : PinMatch} {note : Option Note}

theorem after_owes (isLocked : Bool) (found : PinMatch) :
    (Attempt.after isLocked found).owes = true → isLocked = false := by
  unfold Attempt.after
  cases isLocked <;> split_ifs <;> simp_all [Point.owes]

/-- A run keeps the clock it read, or reads the clock. -/
theorem step_dated (h : a.step limits w found = some (a', db, note)) {now : ℤ}
    (hnow : a'.point.now? = some now) :
    (a.point.now? = some now ∧ a'.serial = a.serial) ∨ now = w.clock := by
  unfold Attempt.step at h
  cases hpoint : a.point with
  | finished verdict => simp [hpoint] at h
  | occupy t | count t =>
    simp only [hpoint] at h
    split at h <;> obtain ⟨rfl, rfl, -⟩ : _ = a' ∧ _ = db ∧ _ = note := by simpa using h
    all_goals simp_all [Attempt.goto, Point.now?]
  | settle isLocked found =>
    obtain ⟨rfl, rfl, -⟩ : _ = a' ∧ _ = db ∧ _ = note := by simpa [hpoint] using h
    exact absurd hnow (by simp [Attempt.goto, (settled_idle isLocked found).1])
  | clear found =>
    obtain ⟨rfl, rfl, -⟩ : _ = a' ∧ _ = db ∧ _ = note := by simpa [hpoint] using h
    exact absurd hnow (by simp [Attempt.goto, (after_idle false found).1])
  | _ =>
    obtain ⟨rfl, rfl, -⟩ : _ = a' ∧ _ = db ∧ _ = note := by simpa [hpoint] using h
    simp_all [Attempt.goto, Point.now?]

/-- A run records a failure, is answered `PinInvalid`, or comes to owe nothing more. -/
theorem step_owes (h : a.step limits w found = some (a', db, note)) :
    (∃ now, a.point = .record now ∧ note = some (.recorded a.serial a.userId now) ∧
        a' = a.goto (.compare false)) ∨
      (a.point = .refuse .pinInvalid ∧ note = some (.invalid a.serial a.userId) ∧
        a'.point.owes = false) ∨
      ((∀ s v now, note ≠ some (.recorded s v now)) ∧ (∀ s v, note ≠ some (.invalid s v)) ∧
        a'.userId = a.userId ∧ (a'.point.owes = true → a.point.owes = true ∧ a'.serial = a.serial)) := by
  unfold Attempt.step at h
  cases hpoint : a.point with
  | finished verdict => simp [hpoint] at h
  | occupy t | count t =>
    simp only [hpoint] at h
    split at h <;> obtain ⟨rfl, rfl, rfl⟩ : _ = a' ∧ _ = db ∧ _ = note := by simpa using h
    all_goals exact .inr (.inr ⟨by simp, by simp, rfl, by simp [Attempt.goto, Point.owes]⟩)
  | record now =>
    obtain ⟨rfl, rfl, rfl⟩ : _ = a' ∧ _ = db ∧ _ = note := by simpa [hpoint] using h
    exact .inl ⟨now, rfl, rfl, rfl⟩
  | compare isLocked =>
    obtain ⟨rfl, rfl, rfl⟩ : _ = a' ∧ _ = db ∧ _ = note := by simpa [hpoint] using h
    refine .inr (.inr ⟨by split <;> simp, by split <;> simp, rfl, ?_⟩)
    cases isLocked <;> simp [Attempt.goto, Point.owes]
  | settle isLocked found =>
    obtain ⟨rfl, rfl, rfl⟩ : _ = a' ∧ _ = db ∧ _ = note := by simpa [hpoint] using h
    refine .inr (.inr ⟨by simp, by simp, rfl, fun howes => ⟨?_, rfl⟩⟩)
    have hunlocked : isLocked = false := by
      simp only [Attempt.goto] at howes
      split at howes
      next haccepts =>
        simp only [Attempt.accepts, Bool.and_eq_true, Bool.not_eq_true'] at haccepts
        exact haccepts.1
      next => exact after_owes isLocked found howes
    subst hunlocked
    rfl
  | clear found =>
    obtain ⟨rfl, rfl, rfl⟩ : _ = a' ∧ _ = db ∧ _ = note := by simpa [hpoint] using h
    exact .inr (.inr ⟨by simp, by simp, rfl, fun _ => ⟨rfl, rfl⟩⟩)
  | refuse error =>
    obtain ⟨rfl, rfl, rfl⟩ : _ = a' ∧ _ = db ∧ _ = note := by simpa [hpoint] using h
    by_cases herror : error = .pinInvalid
    · -- the answer that is owed
      subst herror
      exact .inr (.inl ⟨rfl, rfl, rfl⟩)
    · rw [if_neg herror]
      exact .inr (.inr ⟨by simp, by simp, rfl, by simp [Attempt.goto, Point.owes]⟩)
  | _ =>
    obtain ⟨rfl, rfl, rfl⟩ : _ = a' ∧ _ = db ∧ _ = note := by simpa [hpoint] using h
    exact .inr (.inr ⟨by simp, by simp, rfl, by simp [Attempt.goto, Point.owes]⟩)

/-- What neither records a failure of the user nor starts them anew leaves them. -/
theorem failures_same {n : Note} (hends : ¬Ends u n) (hrecorded : ∀ s v now, n ≠ .recorded s v now) :
    failures (h ++ [n]) u = failures h u := by
  cases n with
  | recorded s v now => exact absurd rfl (hrecorded s v now)
  | accepted s v t => exact failures_accepted.trans (if_neg hends)
  | cleared s v => exact failures_cleared
  | wiped v => exact failures_wiped.trans (if_neg hends)
  | invalid s v => exact failures_invalid

/-- What is neither a failure nor an answer leaves what a span counts. -/
theorem Spanned.quiet (hS : Spanned limits u s₀ c₀ before h w)
    (hrecorded : ∀ s v now, note ≠ some (.recorded s v now))
    (hinvalid : ∀ s v, note ≠ some (.invalid s v)) (hends : ∀ n, note = some n → ¬Ends u n)
    (hnumbered : w.nextSerial ≤ w'.nextSerial) (hclock : w.clock ≤ w'.clock)
    (hdated : ∀ a ∈ w'.attempts, s₀ ≤ a.serial → ∀ now, a.point.now? = some now → c₀ ≤ now)
    (howes : w'.attempts.countP (owes u s₀) ≤ w.attempts.countP (owes u s₀)) :
    Spanned limits u s₀ c₀ before (h ++ note.toList) w' := by
  cases note with
  | none =>
    rw [Option.toList_none, List.append_nil]
    exact ⟨hS.numbered.trans hnumbered, hS.later.trans hclock, hdated, hS.remembered,
      (Nat.add_le_add_left howes _).trans hS.answered, hS.few⟩
  | some n =>
    have hmade : (h ++ [n]).countP (madeFrom u s₀) = h.countP (madeFrom u s₀) := by
      rw [List.countP_append]
      cases n with
      | recorded s v now => exact absurd rfl (hrecorded s v now)
      | _ => rfl
    have hanswered : (h ++ [n]).countP (invalidFrom u s₀) = h.countP (invalidFrom u s₀) := by
      rw [List.countP_append]
      cases n with
      | invalid s v => exact absurd rfl (hinvalid s v)
      | _ => rfl
    have hsame : failures (before ++ (h ++ [n])) u = failures (before ++ h) u := by
      rw [← List.append_assoc]
      exact failures_same (hends n rfl) fun s v now heq => hrecorded s v now (congrArg some heq)
    rw [Option.toList_some]
    exact ⟨hS.numbered.trans hnumbered, hS.later.trans hclock, hdated,
      by rw [hmade, hsame]; exact hS.remembered,
      by rw [hmade, hanswered]; exact (Nat.add_le_add_left howes _).trans hS.answered,
      by rw [hmade]; exact hS.few⟩

/-- One run moves on inside the span. -/
theorem Spanned.run (hS : Spanned limits u s₀ c₀ before h w)
    (hB : Bounded limits (before ++ h) w) (hin : w.clock < c₀ + limits.windowSeconds)
    (hi : w.attempts[i]? = some a) (hstep : a.step limits w found = some (a', db, note))
    (hk : w.nextSerial ≤ k) (hends : ∀ n, note = some n → ¬Ends u n) :
    Spanned limits u s₀ c₀ before (h ++ note.toList)
      { w with db, attempts := w.attempts.set i a', nextSerial := k } := by
  have ha := List.mem_of_getElem? hi
  -- a run of the span has read the time within it
  have hdated : ∀ b ∈ w.attempts.set i a', s₀ ≤ b.serial → ∀ now, b.point.now? = some now →
      c₀ ≤ now := fun b hb hserial now hnow => by
    rcases mem_replaced hb with rfl | ⟨j, -, hj⟩
    · rcases step_dated hstep hnow with ⟨hbefore, hsame⟩ | rfl
      · exact hS.dated a ha (hsame ▸ hserial) now hbefore
      · exact hS.later
    · exact hS.dated b (List.mem_of_getElem? hj) hserial now hnow
  have hcount := @countP_replace _ _ _ _ a' (owes u s₀) hi
  have hanswered := hS.answered
  rcases step_owes hstep with ⟨now, hpoint, rfl, rfl⟩ | ⟨hpoint, rfl, hover⟩ |
    ⟨hrecorded, hinvalid, huser, howes⟩
  · -- the failure is recorded: the window before it starts before the span
    have hbound := hB.recording a ha now hpoint
    have hmade : (h ++ [Note.recorded a.serial a.userId now]).countP (madeFrom u s₀) =
        h.countP (madeFrom u s₀) + if a.userId = u ∧ s₀ ≤ a.serial then 1 else 0 := by
      rw [List.countP_append, List.countP_singleton]
      simp [madeFrom]
    have hnone : (h ++ [Note.recorded a.serial a.userId now]).countP (invalidFrom u s₀) =
        h.countP (invalidFrom u s₀) := by
      rw [List.countP_append]
      rfl
    have hold : owes u s₀ a = false := by simp [owes, hpoint, Point.owes]
    have hnew : owes u s₀ (a.goto (.compare false)) = decide (a.userId = u ∧ s₀ ≤ a.serial) := by
      simp only [owes, Attempt.goto, Point.owes, Bool.and_true, Bool.decide_and]
      rfl
    rw [hold, hnew] at hcount
    simp only [Bool.false_eq_true, if_false, decide_eq_true_eq] at hcount
    have hremembered := hS.remembered
    have hwithin : (failures (before ++ h) u).countP (fun failure => c₀ ≤ failure.2) ≤
        failuresSince (before ++ h) u (w.clock - limits.windowSeconds) :=
      List.countP_mono_left fun f _ hf => by
        simp only [decide_eq_true_eq] at hf ⊢
        omega
    refine ⟨hS.numbered.trans hk, hS.later, hdated, ?_, ?_, ?_⟩
    · rw [Option.toList_some, hmade, ← List.append_assoc, failures_recorded]
      by_cases hu : a.userId = u
      · rw [if_pos hu, List.countP_append, List.countP_singleton]
        -- only a run that began in the span counts
        by_cases hserial : s₀ ≤ a.serial
        · have hlate := hS.dated a ha hserial now (by rw [hpoint]; rfl)
          simp only [hu, hserial, hlate, and_self, decide_true, if_true]
          omega
        · simp only [hserial, and_false, if_false]
          omega
      · simp only [hu, false_and, if_false]
        omega
    · rw [Option.toList_some, hmade, hnone]
      simp only
      omega
    · rw [Option.toList_some, hmade]
      split
      next hmine =>
        rw [hmine.1] at hbound
        omega
      next => exact hS.few
  · -- the answer is one that was owed
    have hmade : (h ++ [Note.invalid a.serial a.userId]).countP (madeFrom u s₀) =
        h.countP (madeFrom u s₀) := by
      rw [List.countP_append]
      rfl
    have hone : (h ++ [Note.invalid a.serial a.userId]).countP (invalidFrom u s₀) =
        h.countP (invalidFrom u s₀) + if a.userId = u ∧ s₀ ≤ a.serial then 1 else 0 := by
      rw [List.countP_append, List.countP_singleton]
      simp [invalidFrom]
    have hold : owes u s₀ a = decide (a.userId = u ∧ s₀ ≤ a.serial) := by
      simp [owes, hpoint, Point.owes]
    have hnew : owes u s₀ a' = false := by simp [owes, hover]
    rw [hold, hnew] at hcount
    simp only [Bool.false_eq_true, if_false, decide_eq_true_eq] at hcount
    refine ⟨hS.numbered.trans hk, hS.later, hdated, ?_, ?_, ?_⟩
    · rw [Option.toList_some, hmade, ← List.append_assoc, failures_invalid]
      exact hS.remembered
    · rw [Option.toList_some, hmade, hone]
      simp only
      omega
    · rw [Option.toList_some, hmade]
      exact hS.few
  · -- neither: what the run owes does not grow
    refine hS.quiet hrecorded hinvalid hends hk le_rfl hdated ?_
    have hle : owes u s₀ a' = true → owes u s₀ a = true := by
      simp only [owes, Bool.and_eq_true, decide_eq_true_eq, huser]
      rintro ⟨hu, hserial, hpoint⟩
      obtain ⟨hbefore, hsame⟩ := howes hpoint
      exact ⟨hu, hsame ▸ hserial, hbefore⟩
    cases howes' : owes u s₀ a' with
    | false =>
      rw [howes'] at hcount
      simp only [Bool.false_eq_true, if_false] at hcount
      simp only
      omega
    | true =>
      rw [howes', hle howes'] at hcount
      simp only [if_true] at hcount
      simp only
      omega

/-- Every event inside the span keeps it. -/
theorem Spanned.act {ev : Event} (hS : Spanned limits u s₀ c₀ before h w)
    (hB : Bounded limits (before ++ h) w) (hin : w.clock < c₀ + limits.windowSeconds)
    (hact : Lockout.act limits w ev = some (w', note))
    (hends : ∀ n, note = some n → ¬Ends u n) :
    Spanned limits u s₀ c₀ before (h ++ note.toList) w' := by
  cases acted hact with
  | verifyPin =>
    refine hS.quiet (by simp) (by simp) hends le_rfl le_rfl (fun b hb hserial now hnow => ?_) ?_
    · rcases List.mem_append.1 hb with hold | hnew
      · exact hS.dated b hold hserial now hnow
      · obtain rfl := List.mem_singleton.1 hnew
        cases hnow
    · rw [List.countP_append]
      simp [owes, Point.owes]
  | run hi hstep =>
    exact hS.run hB hin hi hstep (by split <;> omega) hends
  | @throw i a a' hi hthrow =>
    -- a run that threw owes nothing
    have hgone : a'.point.owes = false ∧ a'.point.now? = none := by
      unfold Attempt.throw at hthrow
      cases hpoint : a.point <;>
        simp only [hpoint, Option.some.injEq, reduceCtorEq] at hthrow <;> subst hthrow <;>
        exact ⟨rfl, rfl⟩
    refine hS.quiet (by simp) (by simp) hends le_rfl le_rfl (fun b hb hserial now hnow => ?_) ?_
    · rcases mem_replaced hb with rfl | ⟨j, -, hj⟩
      · rw [hgone.2] at hnow
        cases hnow
      · exact hS.dated b (List.mem_of_getElem? hj) hserial now hnow
    · have hcount := @countP_replace _ _ _ _ a' (owes u s₀) hi
      have hnew : owes u s₀ a' = false := by simp [owes, hgone.1]
      rw [hnew] at hcount
      simp only [Bool.false_eq_true, if_false] at hcount
      simp only
      omega
  | purgeExpired hle =>
    exact hS.quiet (by simp) (by simp) hends le_rfl le_rfl hS.dated le_rfl
  | wipe =>
    exact hS.quiet (by simp) (by simp) hends le_rfl le_rfl hS.dated le_rfl
  | tick hle =>
    exact hS.quiet (by simp) (by simp) hends le_rfl (by simp only; omega) hS.dated le_rfl

theorem spanned_start (hB : Bounded limits before w) :
    Spanned limits u w.nextSerial w.clock before [] w where
  numbered := le_rfl
  later := le_rfl
  dated := fun a ha hserial now hnow => by
    have hlt := hB.numbered a ha fun hpoint => by rw [hpoint] at hnow; cases hnow
    omega
  remembered := Nat.zero_le _
  answered := by
    have hnone : w.attempts.countP (owes u w.nextSerial) = 0 := by
      refine List.countP_eq_zero.2 fun a ha howes => ?_
      simp only [owes, Bool.and_eq_true, decide_eq_true_eq] at howes
      have hlt := hB.numbered a ha fun hpoint => by
        rw [hpoint] at howes
        exact Bool.noConfusion howes.2.2
      omega
    rw [hnone]
    rfl
  few := Nat.zero_le _

/-- The clock does not go back. -/
theorem act_clock {ev : Event} (hact : Lockout.act limits w ev = some (w', note)) :
    w.clock ≤ w'.clock := by
  cases acted hact with
  | tick hle => exact hle
  | _ => exact le_rfl

/-- While the span lasts and the user's failures do not start anew, the run keeps it. -/
theorem Spanned.of_run {w₀ : World} (hK : Kept limits before w₀)
    (hrun : Run (Step limits) w₀ h w) (hclears : Chronicle ClearsInTime (before ++ h))
    (hin : w.clock < w₀.clock + limits.windowSeconds) (hends : ∀ n ∈ h, ¬Ends u n) :
    Spanned limits u w₀.nextSerial w₀.clock before h w := by
  refine (hrun.invariant (J := fun h w => Chronicle ClearsInTime (before ++ h) →
      w.clock < w₀.clock + limits.windowSeconds → (∀ n ∈ h, ¬Ends u n) →
        Kept limits (before ++ h) w ∧ Spanned limits u w₀.nextSerial w₀.clock before h w)
    (fun _ _ _ => ⟨by rwa [List.append_nil], spanned_start hK.bounded⟩) ?_ hclears hin hends).2
  rintro h w notes w' hJ ⟨ev, note, hact, rfl⟩ hall hin' hends'
  rw [← List.append_assoc] at hall
  have hbefore := lt_of_le_of_lt (act_clock hact) hin'
  obtain ⟨hKept, hS⟩ := hJ (Chronicle.of_append hall) hbefore
    fun n hn => hends' n (List.mem_append_left _ hn)
  refine ⟨?_, hS.act hKept.bounded hbefore hact fun n hn => hends' n (by simp [hn])⟩
  rw [← List.append_assoc]
  exact hKept.act hact hall

end Spans

/-! ### The bounds -/

/-- Nobody else's run keeps an attempt out, and failures that have left the window do not lock it.
-/
def Admits (limits : Limits) (h : List Note) (w : World) : Prop :=
  ∀ (i : ℕ) (a : Attempt), w.attempts[i]? = some a →
    (∀ now found, a.point = .occupy now →
      (∀ b ∈ w.attempts, b.userId = a.userId → b.inProgress = false) →
        a.step limits w found =
          some (a.goto (.prune now), { w.db with inFlight := insert a.userId w.db.inFlight }, none)) ∧
    (∀ now found, a.point = .count now →
      (∀ s t, .recorded s a.userId t ∈ h → t ≤ now - limits.windowSeconds) →
        a.step limits w found = some (a.goto (.record now), w.db, none))

theorem Guarded.admits {limits : Limits} {h : List Note} {w : World} (hG : Guarded h w)
    (hpositive : 0 < limits.maxFailures) : Admits limits h w := by
  refine fun i a hi => ⟨fun now found hpoint hidle => ?_, fun now found hpoint hleft => ?_⟩
  · have hfree : a.userId ∉ w.db.inFlight := by
      intro hin
      have hone := hG.exclusive a.userId
      rw [if_pos hin] at hone
      obtain ⟨b, hb, hbusy⟩ := List.countP_pos_iff.1 (hone ▸ Nat.one_pos)
      simp only [busy, Bool.and_eq_true, decide_eq_true_eq] at hbusy
      rw [hidle b hb hbusy.2] at hbusy
      exact Bool.noConfusion hbusy.1
    simp only [Attempt.step, hpoint, if_neg hfree]
  · have hnone : w.db.countSince a.userId (now - limits.windowSeconds) = 0 := by
      refine List.countP_eq_zero.2 fun row hrow hcounted => ?_
      simp only [decide_eq_true_eq] at hcounted
      obtain ⟨s, hs⟩ := hG.stored row hrow
      have := hleft s row.at_ (hcounted.1 ▸ hs)
      omega
    have hunlocked : ¬limits.maxFailures ≤ w.db.countSince a.userId (now - limits.windowSeconds) := by
      omega
    simp only [Attempt.step, hpoint, if_neg hunlocked]

/-- **The PIN lockout bounds guessing**: at most the limit of wrong answers in a span, and no
acceptance at the limit, while the clears of accepted attempts come in time; one comparison of a user
at a time, and nobody kept out without cause, always. -/
theorem lockout_bounds (limits : Limits) (clock : ℤ) {h₁ h₂ : List Note} {w₁ w₂ : World}
    (hbefore : Run (Step limits) (start clock) h₁ w₁) (hspan : Run (Step limits) w₁ h₂ w₂) :
    (Chronicle ClearsInTime (h₁ ++ h₂) →
      (∀ u, w₂.clock < w₁.clock + limits.windowSeconds → (∀ n ∈ h₂, ¬Ends u n) →
        h₂.countP (invalidFrom u w₁.nextSerial) ≤ limits.maxFailures) ∧
      Chronicle (AcceptsBelow limits) (h₁ ++ h₂)) ∧
    (∀ (i j : ℕ) (a b : Attempt) (x y : Bool), w₂.attempts[i]? = some a → w₂.attempts[j]? = some b →
      a.point = .compare x → b.point = .compare y → b.userId = a.userId → i = j) ∧
    (0 < limits.maxFailures → Admits limits (h₁ ++ h₂) w₂) := by
  have hG : Guarded (h₁ ++ h₂) w₂ := Guarded.of_run (hbefore.append hspan)
  refine ⟨fun hclears => ?_, fun i j a b x y hi hj ha hb huser => ?_, hG.admits⟩
  · have hK₁ : Kept limits h₁ w₁ := by
      have := (@kept_start limits clock).run hbefore (by
        rw [List.nil_append]
        exact Chronicle.of_append hclears)
      rwa [List.nil_append] at this
    refine ⟨fun u hin hends => ?_, (hK₁.run hspan hclears).accepts⟩
    have hS := Spanned.of_run hK₁ hspan hclears hin hends
    have hanswered := hS.answered
    have hfew := hS.few
    omega
  · exact Exclusive.eq hG.exclusive hi (by simp [Attempt.inProgress, ha]) hj
      (by simp [Attempt.inProgress, hb]) huser

/-! ### Runs of one user -/

/-- A sequence of events. -/
def play (limits : Limits) (w : World) : List Event → Option (World × List Note)
  | [] => some (w, [])
  | ev :: evs =>
    (act limits w ev).bind fun r => (play limits r.1 evs).map fun r' => (r'.1, r.2.toList ++ r'.2)

theorem run_play {limits : Limits} {evs : List Event} {w w' : World} {notes : List Note}
    (h : play limits w evs = some (w', notes)) : Run (Step limits) w notes w' := by
  induction evs generalizing w notes with
  | nil =>
    obtain ⟨rfl, rfl⟩ : w = w' ∧ [] = notes := by simpa [play] using h
    exact .start
  | cons ev evs ih =>
    obtain ⟨⟨w₁, note⟩, hact, hrest⟩ := Option.bind_eq_some_iff.1 h
    obtain ⟨⟨w₂, later⟩, hlater, heq⟩ := Option.map_eq_some_iff.1 hrest
    obtain ⟨rfl, rfl⟩ : w₂ = w' ∧ note.toList ++ later = notes := by simpa using heq
    have hfirst : Run (Step limits) w note.toList w₁ := Run.start.next ⟨ev, note, hact, rfl⟩
    exact hfirst.append (ih hlater)

/-- Two sequences one after the other: the clock and the notes after each. -/
def playBoth (limits : Limits) (first second : List Event) :
    Option ((ℤ × List Note) × ℤ × List Note) :=
  (play limits (start 0) first).bind fun r =>
    (play limits r.1 second).map fun r' => ((r.1.clock, r.2), r'.1.clock, r'.2)

theorem run_playBoth {limits : Limits} {first second : List Event} {c₁ c₂ : ℤ} {h₁ h₂ : List Note}
    (h : playBoth limits first second = some ((c₁, h₁), c₂, h₂)) :
    ∃ w₁ w₂, Run (Step limits) (start 0) h₁ w₁ ∧ Run (Step limits) w₁ h₂ w₂ ∧
      w₁.clock = c₁ ∧ w₂.clock = c₂ := by
  obtain ⟨⟨w₁, n₁⟩, hfirst, hrest⟩ := Option.bind_eq_some_iff.1 h
  obtain ⟨⟨w₂, n₂⟩, hsecond, heq⟩ := Option.map_eq_some_iff.1 hrest
  obtain ⟨⟨rfl, rfl⟩, rfl, rfl⟩ : (w₁.clock = c₁ ∧ n₁ = h₁) ∧ w₂.clock = c₂ ∧ n₂ = h₂ := by
    simpa using heq
  exact ⟨w₁, w₂, run_play hfirst, run_play hsecond, rfl, rfl⟩

/-- An attempt of user 7, taken over `awaits` awaits. -/
def attempt (i awaits : ℕ) (found : PinMatch) : List Event :=
  .verifyPin ⟨7, "u", some "0000", none⟩ ⟨7, "d", "s", 0⟩ :: List.replicate awaits (.run i found)

/-- Four wrong answers and an acceptance; in the span after it five wrong answers, as many as the
limit, and an attempt with the right code that finds the user locked. -/
theorem lockout_bounds_at_limit :
    ∃ h₁ h₂ w₁ w₂, Run (Step {}) (start 0) h₁ w₁ ∧ Run (Step {}) w₁ h₂ w₂ ∧
      .accepted 4 7 0 ∈ h₁ ∧ h₂.countP (invalidFrom 7 w₁.nextSerial) = 5 ∧
      h₂.countP (invalidFrom 7 w₁.nextSerial) ≤ ({} : Limits).maxFailures ∧
      Chronicle (AcceptsBelow {}) (h₁ ++ h₂) ∧ Admits {} (h₁ ++ h₂) w₂ := by
  have hplay : ((play {} (start 0) (attempt 0 8 {} ++ attempt 1 8 {} ++ attempt 2 8 {} ++
      attempt 3 8 {} ++ attempt 4 8 { disarm := true })).any fun first =>
    (play {} first.1 (.tick 5 :: (attempt 5 8 {} ++ attempt 6 8 {} ++ attempt 7 8 {} ++
        attempt 8 8 {} ++ attempt 9 8 {} ++ attempt 10 7 { disarm := true }))).any fun second =>
      decide ((Chronicle ClearsInTime (first.2 ++ second.2) ∧
        second.1.clock < first.1.clock + ({} : Limits).windowSeconds ∧
        ∀ n ∈ second.2, ¬Ends 7 n) ∧ .accepted 4 7 0 ∈ first.2 ∧
        second.2.countP (invalidFrom 7 first.1.nextSerial) = 5)) = true := by
    decide +kernel
  obtain ⟨⟨w₁, h₁⟩, hfirst, hrest⟩ := (Option.any_eq_true _ _).1 hplay
  obtain ⟨⟨w₂, h₂⟩, hsecond, hfacts⟩ := (Option.any_eq_true _ _).1 hrest
  obtain ⟨⟨hclears, hin, hends⟩, haccepted, hfive⟩ := of_decide_eq_true hfacts
  have hbefore := run_play hfirst
  have hspan := run_play hsecond
  obtain ⟨hbounds, -, hadmits⟩ := lockout_bounds {} 0 hbefore hspan
  obtain ⟨hlimit, haccepts⟩ := hbounds hclears
  exact ⟨h₁, h₂, w₁, w₂, hbefore, hspan, haccepted, hfive, hlimit 7 hin hends, haccepts,
    hadmits (by decide)⟩

/-- A failure is dated when its attempt reads the clock: an attempt whose comparison lasts is
answered in a later span, and the failures of that span are counted without it. -/
theorem answers_exceed_span :
    ∃ h₁ h₂ w₁ w₂, Run (Step {}) (start 0) h₁ w₁ ∧ Run (Step {}) w₁ h₂ w₂ ∧
      w₂.clock < w₁.clock + ({} : Limits).windowSeconds ∧ (∀ n ∈ h₂, ¬Ends 7 n) ∧
      ({} : Limits).maxFailures < h₂.countP (invalidFrom 7 0) := by
  have hplay : playBoth {} (attempt 0 5 {} ++ [.tick 800])
      (List.replicate 3 (.run 0 {}) ++ attempt 1 8 {} ++ attempt 2 8 {} ++ attempt 3 8 {} ++
        attempt 4 8 {} ++ .tick 900 :: attempt 5 8 {}) =
      some ((800, [.recorded 0 7 0]), 900, [.invalid 0 7, .recorded 1 7 800, .invalid 1 7,
        .recorded 2 7 800, .invalid 2 7, .recorded 3 7 800, .invalid 3 7, .recorded 4 7 800,
        .invalid 4 7, .recorded 5 7 900, .invalid 5 7]) := by
    decide +kernel
  obtain ⟨w₁, w₂, hbefore, hspan, hfirst, hlast⟩ := run_playBoth hplay
  refine ⟨_, _, w₁, w₂, hbefore, hspan, ?_, ?_, ?_⟩
  · rw [hfirst, hlast]
    decide
  · simp [Ends]
  · decide

/-- The user is released before the failures are cleared: a clear that comes late forgives what was
recorded after the acceptance. -/
theorem late_clear_forgives :
    ∃ h₁ h₂ w₁ w₂, Run (Step {}) (start 0) h₁ w₁ ∧ Run (Step {}) w₁ h₂ w₂ ∧
      w₂.clock < w₁.clock + ({} : Limits).windowSeconds ∧ (∀ n ∈ h₂, ¬Ends 7 n) ∧
      ({} : Limits).maxFailures < h₂.countP (invalidFrom 7 1) := by
  have hplay : playBoth {} (attempt 0 7 { disarm := true })
      (attempt 1 8 {} ++ attempt 2 8 {} ++ attempt 3 8 {} ++ attempt 4 8 {} ++
        .run 0 {} :: (attempt 5 8 {} ++ attempt 6 8 {})) =
      some ((0, [.recorded 0 7 0, .accepted 0 7 0]), 0, [.recorded 1 7 0, .invalid 1 7,
        .recorded 2 7 0, .invalid 2 7, .recorded 3 7 0, .invalid 3 7, .recorded 4 7 0,
        .invalid 4 7, .cleared 0 7, .recorded 5 7 0, .invalid 5 7, .recorded 6 7 0,
        .invalid 6 7]) := by
    decide +kernel
  obtain ⟨w₁, w₂, hbefore, hspan, hfirst, hlast⟩ := run_playBoth hplay
  refine ⟨_, _, w₁, w₂, hbefore, hspan, ?_, ?_, ?_⟩
  · rw [hfirst, hlast]
    decide
  · simp [Ends]
  · decide

end Lockout

end Safety

end ArgusBackend
