import ArgusBackend.Library.Tasks

/-!
# Crews: tasks with a phase of their own

A pool in which every task carries a phase, which moves with each answer the task gets.  The phase
is a history of the task alone: what it holds, what it has done.  A `Protocol` says which operations
a task may await in a phase, and which answers are possible there.

* `Task.Obeys` : the task keeps to a protocol, with the rules `obeys_bind`, `obeys_call`;
* `Crew.Step` : one turn, with a condition on the operations that are carried out;
* `Crew.invariant`, `Crew.invariant_of_notes` : the rule of invariants, which speak of the state and
  of all phases.
-/

namespace ArgusBackend

/-- What a task may await in a phase, and the answers it can get there. -/
structure Protocol {κ Op : Type} {Ans : Op → Type} (after : κ → (op : Op) → Option (Ans op) → κ) where
  allowed : κ → Op → Prop := fun _ _ => True
  answers : κ → (op : Op) → Option (Ans op) → Prop := fun _ _ _ => True

namespace Task

variable {κ Op : Type} {Ans : Op → Type} {α β : Type}
  {after : κ → (op : Op) → Option (Ans op) → κ} (P : Protocol after)

/-- From the phase on the task keeps to the protocol, and ends in `post`. -/
def Obeys (post : Option α → κ → Prop) : κ → Task Op Ans α → Prop
  | k, .done result => post result k
  | k, .await op next =>
    P.allowed k op ∧ ∀ r, P.answers k op r → (next r).Obeys post (after k op r)

section Rules

variable {P} {post post' : Option α → κ → Prop} {Q : Option β → κ → Prop} {k : κ}

theorem Obeys.mono {t : Task Op Ans α} (h : t.Obeys P post k)
    (hpost : ∀ r k, post r k → post' r k) : t.Obeys P post' k := by
  induction t generalizing k with
  | done result => exact hpost _ _ h
  | await op next ih => exact ⟨h.1, fun r hr => ih r (h.2 r hr)⟩

theorem obeys_pure {a : α} (h : post (some a) k) : (pure a : Task Op Ans α).Obeys P post k := h

theorem obeys_throw (h : post none k) : (throw : Task Op Ans α).Obeys P post k := h

/-- The rule of sequence: a throw of the first task skips the second. -/
theorem obeys_bind {t : Task Op Ans β} {f : β → Task Op Ans α} (ht : t.Obeys P Q k)
    (hnone : ∀ k, Q none k → post none k) (hf : ∀ b k, Q (some b) k → (f b).Obeys P post k) :
    (t >>= f).Obeys P post k := by
  induction t generalizing k with
  | done result =>
    cases result with
    | none => exact hnone k ht
    | some b => exact hf b k ht
  | await op next ih => exact ⟨ht.1, fun r hr => ih r (ht.2 r hr)⟩

/-- One operation, and what the task does with its answer. -/
theorem obeys_call {op : Op} {f : Ans op → Task Op Ans α} (hop : P.allowed k op)
    (hnone : P.answers k op none → post none (after k op none))
    (hf : ∀ ans, P.answers k op (some ans) → (f ans).Obeys P post (after k op (some ans))) :
    (call op >>= f).Obeys P post k := by
  refine ⟨hop, fun r hr => ?_⟩
  cases r with
  | none => exact hnone hr
  | some ans => exact hf ans hr

/-- The last operation of a task. -/
theorem obeys_last {op : Op} {post : Option (Ans op) → κ → Prop} (hop : P.allowed k op)
    (hpost : ∀ r, P.answers k op r → post r (after k op r)) :
    (call op : Task Op Ans (Ans op)).Obeys P post k :=
  ⟨hop, hpost⟩

theorem obeys_attempt {t : Task Op Ans α} {post : Option (Option α) → κ → Prop}
    (h : t.Obeys P (fun r => post (some r)) k) : t.attempt.Obeys P post k := by
  induction t generalizing k with
  | done result => exact h
  | await op next ih => exact ⟨h.1, fun r hr => ih r (h.2 r hr)⟩

end Rules

/-! ### A task among more operations -/

section Lift

variable {Op' : Type} {Ans' : Op' → Type}

/-- The same task, where there are more operations. -/
def lift (emb : Op → Op') (back : ∀ op, Ans' (emb op) → Ans op) : Task Op Ans α → Task Op' Ans' α
  | .done result => .done result
  | .await op next => .await (emb op) fun r => (next (r.map (back op))).lift emb back

variable {emb : Op → Op'} {back : ∀ op, Ans' (emb op) → Ans op}

theorem lift_bind {t : Task Op Ans β} {f : β → Task Op Ans α} :
    (t >>= f).lift emb back = t.lift emb back >>= fun b => (f b).lift emb back := by
  induction t with
  | done result => cases result <;> rfl
  | await op next ih => exact congrArg (Task.await (emb op)) (funext fun r => ih _)

/-- What a task awaits, it awaits among more operations. -/
theorem obeys_lift {κ' : Type} {after' : κ' → (op : Op') → Option (Ans' op) → κ'}
    {P' : Protocol after'} {p : Op → Prop} {J : κ' → Prop} {t : Task Op Ans α} {k : κ'} (hk : J k)
    (hasks : t.Asks p) (hop : ∀ op k, p op → J k → P'.allowed k (emb op) ∧
      ∀ r, P'.answers k (emb op) r → J (after' k (emb op) r)) :
    (t.lift emb back).Obeys P' (fun _ => J) k := by
  induction t generalizing k with
  | done result => exact hk
  | await op next ih =>
    exact ⟨(hop op k hasks.1 hk).1, fun r hr => ih _ ((hop op k hasks.1 hk).2 r hr) (hasks.2 _)⟩

/-- One operation of a lifted task, and what the task does with its answer. -/
theorem obeys_lift_call {κ' : Type} {after' : κ' → (op : Op') → Option (Ans' op) → κ'}
    {P' : Protocol after'} {post : Option α → κ' → Prop} {k : κ'} {op : Op}
    {f : Ans op → Task Op Ans α} (hop : P'.allowed k (emb op))
    (hnone : P'.answers k (emb op) none → post none (after' k (emb op) none))
    (hf : ∀ ans, P'.answers k (emb op) (some ans) →
      ((f (back op ans)).lift emb back).Obeys P' post (after' k (emb op) (some ans))) :
    ((call op >>= f).lift emb back).Obeys P' post k := by
  refine ⟨hop, fun r hr => ?_⟩
  cases r with
  | none => exact hnone hr
  | some ans => exact hf ans hr

end Lift

end Task

/-- How a crew works: what an operation does, what serves a request, where a task begins and how
its phase moves, and which operations can throw. -/
structure Workshop (σ ν κ Env Req Op : Type) (Ans : Op → Type) where
  exec : Env → (op : Op) → σ → Ans op × List ν × σ
  program : Req → Task Op Ans Unit
  first : Req → κ
  after : κ → (op : Op) → Option (Ans op) → κ
  fallible : Op → Bool := fun _ => false

/-- A request that is being served: its phase and what is left of its task. -/
structure Member (κ Req Op : Type) (Ans : Op → Type) where
  request : Req
  phase : κ
  task : Task Op Ans Unit

/-- The shared state and the tasks at work on it. -/
structure Crew (σ κ Req Op : Type) (Ans : Op → Type) where
  shared : σ
  members : List (Member κ Req Op Ans) := []

/-- A request comes, a task takes its next step, or what it awaits throws. -/
inductive Turn (Env Req : Type) where
  | spawn (req : Req)
  | run (member : ℕ) (env : Env)
  | fail (member : ℕ)
  deriving DecidableEq, Repr

namespace Crew

variable {σ ν κ Env Req Op : Type} {Ans : Op → Type} (W : Workshop σ ν κ Env Req Op Ans)

/-- The requests under way and their phases. -/
def roles (c : Crew σ κ Req Op Ans) : List (Req × κ) := c.members.map fun m => (m.request, m.phase)

/-- A member gets an answer, or a throw. -/
def resume (c : Crew σ κ Req Op Ans) (i : ℕ) (req : Req) (k : κ) (op : Op)
    (next : Option (Ans op) → Task Op Ans Unit) (r : Option (Ans op)) :
    List (Member κ Req Op Ans) :=
  c.members.set i ⟨req, W.after k op r, next r⟩

/-- What a turn does; none when it cannot be taken. -/
def act (c : Crew σ κ Req Op Ans) : Turn Env Req → Option (Crew σ κ Req Op Ans × List ν)
  | .spawn req =>
    some ({ c with members := c.members ++ [⟨req, W.first req, W.program req⟩] }, [])
  | .run i env =>
    match c.members[i]? with
    | some ⟨req, k, .await op next⟩ =>
      let (ans, notes, shared) := W.exec env op c.shared
      some ({ shared, members := c.resume W i req k op next (some ans) }, notes)
    | _ => none
  | .fail i =>
    match c.members[i]? with
    | some ⟨req, k, .await op next⟩ =>
      if W.fallible op then
        some ({ c with members := c.resume W i req k op next none }, [])
      else none
    | _ => none

/-- What a turn carries out meets a condition on the state and the phases before it. -/
def Meets (ok : σ → List (Req × κ) → κ → Op → Prop) (c : Crew σ κ Req Op Ans) :
    Turn Env Req → Prop
  | .run i _ =>
    match c.members[i]? with
    | some ⟨_, k, .await op _⟩ => ok c.shared c.roles k op
    | _ => True
  | _ => True

/-- A turn whose operation meets a condition. -/
def Step (ok : σ → List (Req × κ) → κ → Op → Prop) (c : Crew σ κ Req Op Ans) (notes : List ν)
    (c' : Crew σ κ Req Op Ans) : Prop :=
  ∃ t : Turn Env Req, c.Meets ok t ∧ act W c t = some (c', notes)

/-- Any turn. -/
abbrev Free : σ → List (Req × κ) → κ → Op → Prop := fun _ _ _ _ => True

/-- Play turns one after the other. -/
def play (c : Crew σ κ Req Op Ans) (ts : List (Turn Env Req)) :
    Option (Crew σ κ Req Op Ans × List ν) :=
  Run.play (act W) c ts

variable {W} {ok : σ → List (Req × κ) → κ → Op → Prop} {c c' c₀ : Crew σ κ Req Op Ans}
  {h notes : List ν}

theorem meets_free (t : Turn Env Req) : c.Meets Free t := by
  cases t with
  | run i env =>
    simp only [Meets]
    split <;> trivial
  | _ => trivial

theorem run_of_play {ts : List (Turn Env Req)} (hplay : play W c ts = some (c', notes))
    (hrun : Run (Step W Free) c₀ h c) : Run (Step W Free) c₀ (h ++ notes) c' :=
  hrun.append (Run.of_play (fun _ t _ _ hact => ⟨t, meets_free t, hact⟩) hplay)

section Checked

variable (W) (ok) [∀ s ks k op, Decidable (ok s ks k op)]

/-- Whether what a turn carries out meets a condition that can be decided. -/
def checks (c : Crew σ κ Req Op Ans) (t : Turn Env Req) : Bool :=
  match t with
  | .run i _ =>
    match c.members[i]? with
    | some ⟨_, k, .await op _⟩ => decide (ok c.shared c.roles k op)
    | _ => true
  | _ => true

variable {W} {ok} in
theorem meets_of_checks {t : Turn Env Req} (h : checks ok c t = true) : c.Meets ok t := by
  cases t with
  | run i env =>
    simp only [checks] at h
    simp only [Meets]
    split <;> simp_all
  | _ => trivial

/-- Play turns one after the other, as long as they meet the condition. -/
def playIf (c : Crew σ κ Req Op Ans) (ts : List (Turn Env Req)) :
    Option (Crew σ κ Req Op Ans × List ν) :=
  Run.play (fun c t => if checks ok c t then act W c t else none) c ts

variable {W} {ok} in
theorem run_of_playIf {ts : List (Turn Env Req)} (hplay : playIf W ok c ts = some (c', notes))
    (hrun : Run (Step W ok) c₀ h c) : Run (Step W ok) c₀ (h ++ notes) c' := by
  refine hrun.append (Run.of_play (fun c t c' notes hact => ?_) hplay)
  split at hact
  next hchecks => exact ⟨t, meets_of_checks hchecks, hact⟩
  next => cases hact

end Checked

/-- What meets a condition is a turn. -/
theorem step_free (hstep : Step W ok c notes c') : Step W Free c notes c' := by
  obtain ⟨t, -, hact⟩ := hstep
  exact ⟨t, meets_free t, hact⟩

theorem run_free (hrun : Run (Step W ok) c₀ h c) : Run (Step W Free) c₀ h c := by
  induction hrun with
  | start => exact .start
  | next _ hs ih => exact ih.next (step_free hs)

/-- A turn leaves the state or carries out one operation. -/
theorem step_shared (hstep : Step W ok c notes c') :
    c'.shared = c.shared ∨ ∃ env op, c'.shared = (W.exec env op c.shared).2.2 := by
  obtain ⟨t, -, hact⟩ := hstep
  cases t with
  | spawn req =>
    obtain ⟨rfl, -⟩ : _ = c' ∧ [] = notes := by simpa [act] using hact
    exact .inl rfl
  | run i env =>
    simp only [act] at hact
    split at hact
    next req k op next hi =>
      obtain ⟨rfl, -⟩ : _ = c' ∧ _ = notes := by simpa using hact
      exact .inr ⟨env, op, rfl⟩
    next => cases hact
  | fail i =>
    simp only [act] at hact
    split at hact
    next req k op next hi =>
      split at hact
      next =>
        obtain ⟨rfl, -⟩ : _ = c' ∧ [] = notes := by simpa using hact
        exact .inl rfl
      next => cases hact
    next => cases hact

theorem roles_getElem? {i : ℕ} {req : Req} {k : κ} {t : Task Op Ans Unit}
    (hi : c.members[i]? = some ⟨req, k, t⟩) : c.roles[i]? = some (req, k) := by
  rw [roles, List.getElem?_map, hi]
  rfl

theorem roles_resume {s : σ} {i : ℕ} {req : Req} {k : κ} {op : Op}
    {next : Option (Ans op) → Task Op Ans Unit} {r : Option (Ans op)} :
    (⟨s, c.resume W i req k op next r⟩ : Crew σ κ Req Op Ans).roles =
      c.roles.set i (req, W.after k op r) := by
  rw [roles, resume, List.map_set, roles]

/-- A member that goes on keeps to the protocol, and the others stay as they were. -/
theorem resume_obeys {P : Req → Protocol W.after} {post : Req → Option Unit → κ → Prop} {i : ℕ}
    {req : Req} {k : κ} {op : Op} {next : Option (Ans op) → Task Op Ans Unit} {r : Option (Ans op)}
    (hobeys : ∀ m ∈ c.members, m.task.Obeys (P m.request) (post m.request) m.phase)
    (hi : c.members[i]? = some ⟨req, k, .await op next⟩) (hr : (P req).answers k op r) :
    ∀ m ∈ c.resume W i req k op next r, m.task.Obeys (P m.request) (post m.request) m.phase := by
  intro m hm
  rcases List.mem_or_eq_of_mem_set hm with hold | rfl
  · exact hobeys m hold
  · exact (hobeys _ (List.mem_of_getElem? hi)).2 _ hr

/-- **The rule of invariants** for crews whose programs keep to a protocol, in a run whose notes
all meet a condition. -/
theorem invariant_of_notes (P : Req → Protocol W.after) {post : Req → Option Unit → κ → Prop}
    {fit : ν → Prop} {J : List ν → σ → List (Req × κ) → Prop}
    (hrun : Run (Step W ok) c₀ h c) (hfit : ∀ n ∈ h, fit n) (hstart : J [] c₀.shared c₀.roles)
    (hmembers : ∀ m ∈ c₀.members, m.task.Obeys (P m.request) (post m.request) m.phase)
    (hprogram : ∀ req, (W.program req).Obeys (P req) (post req) (W.first req))
    (hspawn : ∀ h s ks req, J h s ks → J h s (ks ++ [(req, W.first req)]))
    (hop : ∀ h s ks i req k env op, J h s ks → ks[i]? = some (req, k) → (P req).allowed k op →
      ok s ks k op → (∀ n ∈ (W.exec env op s).2.1, fit n) →
        (P req).answers k op (some (W.exec env op s).1) ∧
          J (h ++ (W.exec env op s).2.1) (W.exec env op s).2.2
            (ks.set i (req, W.after k op (some (W.exec env op s).1))))
    (hfail : ∀ h s ks i req k op, J h s ks → ks[i]? = some (req, k) → (P req).allowed k op →
      W.fallible op = true →
        (P req).answers k op none ∧ J h s (ks.set i (req, W.after k op none))) :
    J h c.shared c.roles ∧
      ∀ m ∈ c.members, m.task.Obeys (P m.request) (post m.request) m.phase := by
  refine hrun.invariant_of_notes (J := fun h c => J h c.shared c.roles ∧
    ∀ m ∈ c.members, m.task.Obeys (P m.request) (post m.request) m.phase) hfit
    ⟨hstart, hmembers⟩ ?_
  rintro h c notes c' ⟨hJ, hobeys⟩ ⟨t, hmeets, hact⟩ hnotes
  cases t with
  | spawn req =>
    -- a new member is at its first phase, which its program obeys
    obtain ⟨rfl, rfl⟩ : _ = c' ∧ [] = notes := by simpa [act] using hact
    refine ⟨?_, fun m hm => ?_⟩
    · rw [List.append_nil, roles, List.map_append]
      exact hspawn _ _ _ req hJ
    · rcases List.mem_append.1 hm with hold | hnew
      · exact hobeys m hold
      · rw [List.mem_singleton.1 hnew]
        exact hprogram req
  | run i env =>
    -- the member that takes its turn obeys what comes after the answer
    simp only [act] at hact
    simp only [Meets] at hmeets
    split at hact
    next req k op next hi =>
      obtain ⟨rfl, rfl⟩ : _ = c' ∧ _ = notes := by simpa using hact
      simp only [hi] at hmeets
      have hobey := hobeys _ (List.mem_of_getElem? hi)
      obtain ⟨hans, hJ'⟩ := hop _ _ _ i req k env op hJ (roles_getElem? hi) hobey.1 hmeets hnotes
      refine ⟨?_, resume_obeys hobeys hi hans⟩
      rw [roles_resume]
      exact hJ'
    next => cases hact
  | fail i =>
    -- an operation that throws leaves the store
    simp only [act] at hact
    split at hact
    next req k op next hi =>
      split at hact
      next hfallible =>
        obtain ⟨rfl, rfl⟩ : _ = c' ∧ [] = notes := by simpa using hact
        have hobey := hobeys _ (List.mem_of_getElem? hi)
        obtain ⟨hans, hJ'⟩ := hfail _ _ _ i req k op hJ (roles_getElem? hi) hobey.1 hfallible
        refine ⟨?_, resume_obeys hobeys hi hans⟩
        rw [List.append_nil, roles_resume]
        exact hJ'
      next => cases hact
    next => cases hact

/-- The rule of invariants for the runs of a crew without members. -/
theorem invariant (P : Req → Protocol W.after) {post : Req → Option Unit → κ → Prop}
    {J : List ν → σ → List (Req × κ) → Prop} {s₀ : σ}
    (hrun : Run (Step W ok) ⟨s₀, []⟩ h c) (hstart : J [] s₀ [])
    (hprogram : ∀ req, (W.program req).Obeys (P req) (post req) (W.first req))
    (hspawn : ∀ h s ks req, J h s ks → J h s (ks ++ [(req, W.first req)]))
    (hop : ∀ h s ks i req k env op, J h s ks → ks[i]? = some (req, k) → (P req).allowed k op →
      ok s ks k op → (P req).answers k op (some (W.exec env op s).1) ∧
        J (h ++ (W.exec env op s).2.1) (W.exec env op s).2.2
          (ks.set i (req, W.after k op (some (W.exec env op s).1))))
    (hfail : ∀ h s ks i req k op, J h s ks → ks[i]? = some (req, k) → (P req).allowed k op →
      W.fallible op = true →
        (P req).answers k op none ∧ J h s (ks.set i (req, W.after k op none))) :
    J h c.shared c.roles ∧
      ∀ m ∈ c.members, m.task.Obeys (P m.request) (post m.request) m.phase :=
  invariant_of_notes P hrun (fun _ _ => trivial) hstart
    (fun _ hm => absurd hm List.not_mem_nil) hprogram hspawn
    (fun h s ks i req k env op hJ hi hallowed hok _ => hop h s ks i req k env op hJ hi hallowed hok)
    hfail

end Crew

end ArgusBackend
