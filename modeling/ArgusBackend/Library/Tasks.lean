import ArgusBackend.Library.Runs
import Mathlib.Algebra.BigOperators.Group.List.Basic
import Mathlib.Tactic.Abel

/-!
# Tasks that interleave on a shared state

A `Task` awaits one operation after the other; each operation acts on the shared state at once, and
any number of tasks take turns in any order (`Pool`).  An operation may throw, and a task may
catch that; a task may also die between two operations.

* `Task.Safe` is what a task may rely on and must provide while the others run: a `Contract` says
  what an operation needs, which lasting facts its answer brings, and which credits it costs or
  gains;
* `Task.safe_bind`, `Task.safe_attempt` : the rules of the constructs;
* `Pool.invariant` : if every program is safe and every operation keeps an invariant of the state
  and of the credits that are out, every run keeps it;
* `Pool.run_of_replay` : events played one after the other are a run;
* `Task.Ends` is what a task does alone, with the rules `Task.ends_bind`, `Task.ends_attempt`;
* `Task.Asks` bounds the operations a task can come to await, and `Pool.invariant_of_asks` is the
  rule of invariants for that bound alone.
-/

namespace ArgusBackend

/-- A task: it is done, with a result or by a throw, or it awaits an operation. -/
inductive Task (Op : Type) (Ans : Op → Type) (α : Type) : Type
  | done (result : Option α)
  | await (op : Op) (next : Option (Ans op) → Task Op Ans α)

namespace Task

variable {Op : Type} {Ans : Op → Type} {α β : Type}

/-- A task and what comes after it. -/
protected def bind (t : Task Op Ans α) (f : α → Task Op Ans β) : Task Op Ans β :=
  match t with
  | .done none => .done none
  | .done (some a) => f a
  | .await op next => .await op fun r => (next r).bind f

instance : Monad (Task Op Ans) where
  pure a := .done (some a)
  bind := Task.bind

/-- Await one operation. -/
def call (op : Op) : Task Op Ans (Ans op) := .await op .done

/-- Stop here, by a throw. -/
def throw : Task Op Ans α := .done none

/-- Run a task and catch what it throws. -/
def attempt : Task Op Ans α → Task Op Ans (Option α)
  | .done result => .done (some result)
  | .await op next => .await op fun r => (next r).attempt

/-- Run `f` on each element, from the left. -/
def each (f : α → Task Op Ans Unit) : List α → Task Op Ans Unit
  | [] => pure ()
  | a :: rest => do
    f a
    each f rest

/-- Run `f` on each element, from the left, and collect the results. -/
def collect (f : α → Task Op Ans β) : List α → Task Op Ans (List β)
  | [] => pure []
  | a :: rest => do
    let b ← f a
    let bs ← collect f rest
    pure (b :: bs)

/-- The task is over. -/
def isDone : Task Op Ans α → Bool
  | .done _ => true
  | .await _ _ => false

/-- A task alone: its operations one after the other, answered in one environment. -/
def alone {σ ν Env : Type} (exec : Env → (op : Op) → σ → Ans op × List ν × σ) (env : Env) :
    Task Op Ans α → σ → Option α × List ν × σ
  | .done result, s => (result, [], s)
  | .await op next, s =>
    let (ans, notes, s) := exec env op s
    let (result, later, s) := (next (some ans)).alone exec env s
    (result, notes ++ later, s)

/-- The operations a task alone awaits. -/
def awaited {σ ν Env : Type} (exec : Env → (op : Op) → σ → Ans op × List ν × σ) (env : Env) :
    Task Op Ans α → σ → List Op
  | .done _, _ => []
  | .await op next, s =>
    op :: (next (some (exec env op s).1)).awaited exec env (exec env op s).2.2

theorem awaited_call {σ ν Env : Type} {exec : Env → (op : Op) → σ → Ans op × List ν × σ}
    {env : Env} {op : Op} {f : Ans op → Task Op Ans α} {s : σ} :
    (Task.call op >>= f).awaited exec env s =
      op :: (f (exec env op s).1).awaited exec env (exec env op s).2.2 :=
  rfl

/-- Alone, the task ends with a result, and its notes and the state meet `post`. -/
def Ends {σ ν Env : Type} (exec : Env → (op : Op) → σ → Ans op × List ν × σ) (env : Env)
    (post : α → List ν → σ → Prop) (t : Task Op Ans α) (s : σ) : Prop :=
  ∃ a, (t.alone exec env s).1 = some a ∧ post a (t.alone exec env s).2.1 (t.alone exec env s).2.2

section Ends

variable {σ ν Env : Type} {exec : Env → (op : Op) → σ → Ans op × List ν × σ} {env : Env}
  {post post' : α → List ν → σ → Prop} {s : σ}

theorem Ends.mono {t : Task Op Ans α} (h : t.Ends exec env post s)
    (hpost : ∀ a notes s', post a notes s' → post' a notes s') : t.Ends exec env post' s := by
  obtain ⟨a, ha, hend⟩ := h
  exact ⟨a, ha, hpost _ _ _ hend⟩

theorem ends_pure {a : α} (h : post a [] s) : (pure a : Task Op Ans α).Ends exec env post s :=
  ⟨a, rfl, h⟩

theorem ends_await {op : Op} {next : Option (Ans op) → Task Op Ans α} :
    (Task.await op next).Ends exec env post s ↔ (next (some (exec env op s).1)).Ends exec env
      (fun a notes s' => post a ((exec env op s).2.1 ++ notes) s') (exec env op s).2.2 :=
  Iff.rfl

/-- The rule of sequence for a task alone. -/
theorem ends_bind {t : Task Op Ans β} {f : β → Task Op Ans α}
    (h : t.Ends exec env (fun b notes s' => (f b).Ends exec env
      (fun a later s'' => post a (notes ++ later) s'') s') s) :
    (t >>= f).Ends exec env post s := by
  induction t generalizing s post with
  | done result =>
    obtain ⟨b, hb, hend⟩ := h
    obtain rfl : result = some b := hb
    exact hend
  | await op next ih =>
    change (next (some (exec env op s).1) >>= f).Ends exec env
      (fun a notes s' => post a ((exec env op s).2.1 ++ notes) s') (exec env op s).2.2
    refine ih (some (exec env op s).1) (Ends.mono (ends_await.1 h) fun b notes s' hend => ?_)
    refine Ends.mono hend fun a later s'' hpost => ?_
    rwa [← List.append_assoc]

/-- One operation, and what the task does with its answer. -/
theorem ends_call {op : Op} {f : Ans op → Task Op Ans α}
    (h : (f (exec env op s).1).Ends exec env
      (fun a notes s' => post a ((exec env op s).2.1 ++ notes) s') (exec env op s).2.2) :
    (Task.call op >>= f).Ends exec env post s :=
  h

theorem ends_collect_one {f : β → Task Op Ans α} {b : β} {post : List α → List ν → σ → Prop}
    (h : (f b).Ends exec env (fun a => post [a]) s) : (collect f [b]).Ends exec env post s := by
  refine ends_bind (h.mono fun a notes s' hpost => ends_bind (ends_pure (ends_pure ?_)))
  simpa using hpost

/-- What ends is not affected by a catch. -/
theorem ends_attempt {t : Task Op Ans α} (h : t.Ends exec env post s) :
    t.attempt.Ends exec env (fun r notes s' => ∃ a, r = some a ∧ post a notes s') s := by
  induction t generalizing s post with
  | done result =>
    obtain ⟨a, ha, hend⟩ := h
    obtain rfl : result = some a := ha
    exact ⟨some a, rfl, a, rfl, hend⟩
  | await op next ih => exact ih (some (exec env op s).1) (ends_await.1 h)

end Ends

/-! ### The operations a task can await -/

/-- Every operation the task can come to await meets `P`, whatever it is answered. -/
def Asks (P : Op → Prop) : Task Op Ans α → Prop
  | .done _ => True
  | .await op next => P op ∧ ∀ r, (next r).Asks P

section Asks

variable {P : Op → Prop}

@[simp] theorem asks_pure {a : α} : (pure a : Task Op Ans α).Asks P := trivial

@[simp] theorem asks_throw : (throw : Task Op Ans α).Asks P := trivial

@[simp] theorem asks_call {op : Op} : (call op : Task Op Ans (Ans op)).Asks P ↔ P op :=
  ⟨fun h => h.1, fun h => ⟨h, fun _ => trivial⟩⟩

theorem asks_bind {t : Task Op Ans α} {f : α → Task Op Ans β} (h : t.Asks P)
    (hf : ∀ a, (f a).Asks P) : (t >>= f).Asks P := by
  induction t with
  | done result =>
    cases result with
    | none => trivial
    | some a => exact hf a
  | await op next ih => exact ⟨h.1, fun r => ih r (h.2 r)⟩

theorem asks_attempt {t : Task Op Ans α} (h : t.Asks P) : t.attempt.Asks P := by
  induction t with
  | done result => trivial
  | await op next ih => exact ⟨h.1, fun r => ih r (h.2 r)⟩

theorem asks_each {f : α → Task Op Ans Unit} {l : List α} (h : ∀ a ∈ l, (f a).Asks P) :
    (each f l).Asks P := by
  induction l with
  | nil => trivial
  | cons a l ih =>
    exact asks_bind (h a List.mem_cons_self) fun _ =>
      ih fun a' ha' => h a' (List.mem_cons_of_mem _ ha')

end Asks

end Task

/-- What operations need, bring, cost and gain, in a world `W` that moves on while others run; and
which credits a task may hold together. -/
structure Contract (W Op : Type) (Ans : Op → Type) (M : Type) [AddCommMonoid M] where
  future : W → W → Prop
  refl : ∀ w, future w w
  trans : ∀ {w w' w''}, future w w' → future w' w'' → future w w''
  need : W → Op → Prop
  need_mono : ∀ {w w' op}, future w w' → need w op → need w' op
  fact : W → (op : Op) → Ans op → Prop
  cost : Op → M
  gain : (op : Op) → Ans op → M
  held : M → Prop
  held_zero : held 0
  held_add : ∀ {m m'}, held m → held m' → held (m + m')

namespace Task

variable {W Op : Type} {Ans : Op → Type} {α β M : Type} [AddCommMonoid M]
  (C : Contract W Op Ans M)

/-- With the credits `m` in the world `w` the task meets the contract, whatever the others do, and
ends in `Q`.  An operation that throws costs nothing. -/
def Safe (Q : Option α → M → W → Prop) : Task Op Ans α → M → W → Prop
  | .done result, m, w => C.held m ∧ ∀ w', C.future w w' → Q result m w'
  | .await op next, m, w => C.held m ∧ C.need w op ∧
      (∀ w', C.future w w' → (next none).Safe Q m w') ∧
      ∃ rest, m = rest + C.cost op ∧ ∀ w', C.future w w' →
        ∀ ans, C.fact w' op ans → (next (some ans)).Safe Q (rest + C.gain op ans) w'

variable {C} {Q Q' : Option α → M → W → Prop} {m : M} {w w' : W}

theorem Safe.held {t : Task Op Ans α} (h : t.Safe C Q m w) : C.held m := by
  cases t <;> exact h.1

theorem Safe.later {t : Task Op Ans α} (h : t.Safe C Q m w) (hw : C.future w w') :
    t.Safe C Q m w' := by
  cases t with
  | done result => exact ⟨h.1, fun w'' hw' => h.2 w'' (C.trans hw hw')⟩
  | await op next =>
    obtain ⟨hheld, hneed, hnone, rest, hm, hsome⟩ := h
    exact ⟨hheld, C.need_mono hw hneed, fun w'' hw' => hnone w'' (C.trans hw hw'), rest, hm,
      fun w'' hw' => hsome w'' (C.trans hw hw')⟩

theorem Safe.mono {t : Task Op Ans α} (h : t.Safe C Q m w)
    (hQ : ∀ r m w', C.held m → C.future w w' → Q r m w' → Q' r m w') : t.Safe C Q' m w := by
  induction t generalizing m w with
  | done result => exact ⟨h.1, fun w' hw => hQ _ _ _ h.1 hw (h.2 w' hw)⟩
  | await op next ih =>
    obtain ⟨hheld, hneed, hnone, rest, hm, hsome⟩ := h
    refine ⟨hheld, hneed, fun w' hw => ?_, rest, hm, fun w' hw ans hans => ?_⟩
    · exact ih none (hnone w' hw) fun r m w'' hm hw' => hQ r m w'' hm (C.trans hw hw')
    · exact ih (some ans) (hsome w' hw ans hans) fun r m w'' hm hw' =>
        hQ r m w'' hm (C.trans hw hw')

/-- What is safe is safe with more facts. -/
theorem Safe.of_fact {f : W → (op : Op) → Ans op → Prop}
    (hfact : ∀ w op ans, f w op ans → C.fact w op ans) {t : Task Op Ans α}
    (h : t.Safe C Q m w) : t.Safe { C with fact := f } Q m w := by
  induction t generalizing m w with
  | done result => exact h
  | await op next ih =>
    obtain ⟨hheld, hneed, hnone, rest, hm, hsome⟩ := h
    exact ⟨hheld, hneed, fun w' hw => ih none (hnone w' hw), rest, hm,
      fun w' hw ans hans => ih (some ans) (hsome w' hw ans (hfact w' op ans hans))⟩

theorem safe_pure {a : α} (hheld : C.held m) (h : ∀ w', C.future w w' → Q (some a) m w') :
    (pure a : Task Op Ans α).Safe C Q m w :=
  ⟨hheld, h⟩

/-- The rule of sequence: a throw of the first task skips the second. -/
theorem safe_bind {t : Task Op Ans α} {f : α → Task Op Ans β} {R : Option β → M → W → Prop}
    (h : t.Safe C (fun r m w => match r with
      | none => ∀ w', C.future w w' → R none m w'
      | some a => (f a).Safe C R m w) m w) : (t >>= f).Safe C R m w := by
  induction t generalizing m w with
  | done result =>
    cases result with
    | none => exact ⟨h.1, fun w' hw => h.2 w (C.refl w) w' hw⟩
    | some a => exact h.2 w (C.refl w)
  | await op next ih =>
    obtain ⟨hheld, hneed, hnone, rest, hm, hsome⟩ := h
    exact ⟨hheld, hneed, fun w' hw => ih none (hnone w' hw), rest, hm,
      fun w' hw ans hans => ih (some ans) (hsome w' hw ans hans)⟩

theorem safe_attempt {t : Task Op Ans α} {R : Option (Option α) → M → W → Prop}
    (h : t.Safe C (fun r m w => R (some r) m w) m w) : t.attempt.Safe C R m w := by
  induction t generalizing m w with
  | done result => exact h
  | await op next ih =>
    obtain ⟨hheld, hneed, hnone, rest, hm, hsome⟩ := h
    exact ⟨hheld, hneed, fun w' hw => ih none (hnone w' hw), rest, hm,
      fun w' hw ans hans => ih (some ans) (hsome w' hw ans hans)⟩

end Task

/-! ### Pools of tasks -/

/-- The shared state and the tasks at work on it. -/
structure Pool (σ Op : Type) (Ans : Op → Type) where
  shared : σ
  tasks : List (Task Op Ans Unit)

/-- What can happen to a pool: a request starts a task, a task takes its next step, the operation
a task awaits throws, or a task dies. -/
inductive Event (Env Req : Type) where
  | spawn (req : Req)
  | run (task : ℕ) (env : Env)
  | fail (task : ℕ)
  | drop (task : ℕ)
  deriving DecidableEq, Repr

namespace Pool

variable {σ ν Op Env Req : Type} {Ans : Op → Type}
  (exec : Env → (op : Op) → σ → Ans op × List ν × σ) (program : Req → Task Op Ans Unit)

/-- What one event does; none when the task it names has no step to take. -/
def act (p : Pool σ Op Ans) : Event Env Req → Option (Pool σ Op Ans × List ν)
  | .spawn req => some ({ p with tasks := p.tasks ++ [program req] }, [])
  | .run i env =>
    match p.tasks[i]? with
    | some (.await op next) =>
      let (ans, notes, shared) := exec env op p.shared
      some ({ shared, tasks := p.tasks.set i (next (some ans)) }, notes)
    | _ => none
  | .fail i =>
    match p.tasks[i]? with
    | some (.await _ next) => some ({ p with tasks := p.tasks.set i (next none) }, [])
    | _ => none
  | .drop i => some ({ p with tasks := p.tasks.eraseIdx i }, [])

/-- One event at a time. -/
def Step (p : Pool σ Op Ans) (notes : List ν) (p' : Pool σ Op Ans) : Prop :=
  ∃ ev : Event Env Req, act exec program p ev = some (p', notes)

/-- What each event does, and when it can happen. -/
inductive Acted (p : Pool σ Op Ans) : Event Env Req → Pool σ Op Ans → List ν → Prop
  | spawn {req : Req} : Acted p (.spawn req) { p with tasks := p.tasks ++ [program req] } []
  | run {i : ℕ} {env : Env} {op : Op} {next : Option (Ans op) → Task Op Ans Unit} :
      p.tasks[i]? = some (.await op next) →
      Acted p (.run i env)
        { shared := (exec env op p.shared).2.2
          tasks := p.tasks.set i (next (some (exec env op p.shared).1)) }
        (exec env op p.shared).2.1
  | fail {i : ℕ} {op : Op} {next : Option (Ans op) → Task Op Ans Unit} :
      p.tasks[i]? = some (.await op next) →
      Acted p (.fail i) { p with tasks := p.tasks.set i (next none) } []
  | drop {i : ℕ} : Acted p (.drop i) { p with tasks := p.tasks.eraseIdx i } []

variable {exec program} in
theorem acted {p p' : Pool σ Op Ans} {ev : Event Env Req} {notes : List ν}
    (hact : act exec program p ev = some (p', notes)) : Acted exec program p ev p' notes := by
  cases ev with
  | spawn req =>
    obtain ⟨rfl, rfl⟩ : _ = p' ∧ [] = notes := by simpa [act] using hact
    exact .spawn
  | run i env =>
    simp only [act] at hact
    split at hact
    next op next hi =>
      obtain ⟨rfl, rfl⟩ : _ = p' ∧ _ = notes := by simpa using hact
      exact .run hi
    next => cases hact
  | fail i =>
    simp only [act] at hact
    split at hact
    next op next hi =>
      obtain ⟨rfl, rfl⟩ : _ = p' ∧ [] = notes := by simpa using hact
      exact .fail hi
    next => cases hact
  | drop i =>
    obtain ⟨rfl, rfl⟩ : _ = p' ∧ [] = notes := by simpa [act] using hact
    exact .drop

/-- No task is in the middle of its steps. -/
def quiet (p : Pool σ Op Ans) : Bool := p.tasks.all Task.isDone

/-- Play events one after the other. -/
def replay (p : Pool σ Op Ans) (h : List ν) :
    List (Event Env Req) → Option (Pool σ Op Ans × List ν)
  | [] => some (p, h)
  | ev :: rest =>
    match act exec program p ev with
    | some (p', notes) => replay p' (h ++ notes) rest
    | none => none

variable {exec program}

theorem run_of_replay {p₀ p p' : Pool σ Op Ans} {h h' : List ν} {events : List (Event Env Req)}
    (hrun : Run (Step exec program) p₀ h p)
    (hreplay : replay exec program p h events = some (p', h')) :
    Run (Step exec program) p₀ h' p' := by
  induction events generalizing p h with
  | nil =>
    obtain ⟨rfl, rfl⟩ : p = p' ∧ h = h' := by simpa [replay] using hreplay
    exact hrun
  | cons ev rest ih =>
    simp only [replay] at hreplay
    split at hreplay
    · rename_i p'' notes hact
      exact ih (hrun.next ⟨ev, hact⟩) hreplay
    · cases hreplay

end Pool

namespace Pool

variable {σ ν Op Env Req M : Type} {Ans : Op → Type} [AddCommMonoid M]
  {exec : Env → (op : Op) → σ → Ans op × List ν × σ} {program : Req → Task Op Ans Unit}
  {C : Contract (List ν × σ) Op Ans M}

/-- Every task meets the contract with its own credits. -/
def Tended (C : Contract (List ν × σ) Op Ans M) (w : List ν × σ) (ms : List M)
    (ts : List (Task Op Ans Unit)) : Prop :=
  List.Forall₂ (fun m t => Task.Safe C (fun _ _ _ => True) t m w) ms ts

theorem Tended.later {w w' : List ν × σ} {ms : List M} {ts : List (Task Op Ans Unit)}
    (h : Tended C w ms ts) (hw : C.future w w') : Tended C w' ms ts :=
  h.imp fun _ _ hsafe => hsafe.later hw

theorem Tended.imp {C' : Contract (List ν × σ) Op Ans M} {w : List ν × σ} {ms : List M}
    {ts : List (Task Op Ans Unit)} (h : Tended C w ms ts)
    (himp : ∀ m, ∀ t ∈ ts, Task.Safe C (fun _ _ _ => True) t m w →
      Task.Safe C' (fun _ _ _ => True) t m w) : Tended C' w ms ts := by
  induction h with
  | nil => exact .nil
  | cons hsafe _ ih =>
    exact .cons (himp _ _ List.mem_cons_self hsafe)
      (ih fun m t ht => himp m t (List.mem_cons_of_mem _ ht))

/-- The task at an index, its credits and those of the others. -/
theorem Tended.split {w : List ν × σ} {ms : List M} {ts : List (Task Op Ans Unit)}
    (h : Tended C w ms ts) {i : ℕ} {t : Task Op Ans Unit} (hi : ts[i]? = some t) :
    ∃ m others, ms.sum = others + m ∧ Task.Safe C (fun _ _ _ => True) t m w ∧
      (∀ m' t' w', C.future w w' → Task.Safe C (fun _ _ _ => True) t' m' w' →
        ∃ ms', ms'.sum = others + m' ∧ Tended C w' ms' (ts.set i t')) ∧
      ∃ ms', ms'.sum = others ∧ Tended C w ms' (ts.eraseIdx i) := by
  induction h generalizing i with
  | nil => simp at hi
  | @cons m₀ t₀ ms ts hsafe htail ih =>
    cases i with
    | zero =>
      obtain rfl : t₀ = t := by simpa using hi
      refine ⟨m₀, ms.sum, by simp [add_comm], hsafe, ?_, ms, rfl, htail⟩
      intro m' t' w' hw hsafe'
      exact ⟨m' :: ms, by simp [add_comm], .cons hsafe' (Tended.later htail hw)⟩
    | succ i =>
      obtain ⟨m, others, hsum, hm, hset, ms', hsum', herase⟩ := ih (by simpa using hi)
      refine ⟨m, m₀ + others, by simp [hsum, add_assoc], hm, ?_, m₀ :: ms', by simp [hsum'], ?_⟩
      · intro m' t' w' hw hsafe'
        obtain ⟨ms'', hsum'', htended⟩ := hset m' t' w' hw hsafe'
        exact ⟨m₀ :: ms'', by simp [hsum'', add_assoc], .cons (hsafe.later hw) htended⟩
      · exact .cons hsafe herase

/-- The credits of tended tasks may be held together. -/
theorem Tended.held {w : List ν × σ} {ms : List M} {ts : List (Task Op Ans Unit)}
    (h : Tended C w ms ts) : C.held ms.sum := by
  induction h with
  | nil => exact C.held_zero
  | cons hsafe _ ih =>
    rw [List.sum_cons]
    exact C.held_add (Task.Safe.held hsafe) ih

/-- What a step does to the state: nothing, or what an operation does whose needs are met. -/
theorem Tended.of_step {h : List ν} {p p' : Pool σ Op Ans} {ms : List M} {notes : List ν}
    (htended : Tended C (h, p.shared) ms p.tasks) (hstep : Step exec program p notes p') :
    (notes = [] ∧ p'.shared = p.shared) ∨ ∃ env op, C.need (h, p.shared) op ∧
      notes = (exec env op p.shared).2.1 ∧ p'.shared = (exec env op p.shared).2.2 := by
  obtain ⟨ev, hev⟩ := hstep
  cases acted hev with
  | @run i env op next hi =>
    obtain ⟨m, others, -, ⟨-, hneed, -⟩, -⟩ := htended.split hi
    exact .inr ⟨env, op, hneed, rfl, rfl⟩
  | _ => exact .inl ⟨rfl, rfl⟩

/-- **The rule of invariants** for pools.  `I` speaks of the notes, the state and the credits that
are out, whether with tasks at work or lost with tasks that died.  The run may start in the middle,
after the notes `h₀`. -/
theorem invariant {ok : ν → Prop} {I : List ν → σ → M → Prop} {p₀ : Pool σ Op Ans}
    {h₀ h : List ν} {p : Pool σ Op Ans} {ms₀ : List M} {lost₀ : M}
    (hrun : Run (Step exec program) p₀ h p) (hok : ∀ n ∈ h, ok n)
    (htended₀ : Tended C (h₀, p₀.shared) ms₀ p₀.tasks) (hlost₀ : C.held lost₀)
    (hstart : I h₀ p₀.shared (ms₀.sum + lost₀))
    (hop : ∀ h s m env op, I h s (m + C.cost op) → C.need (h, s) op →
      (∀ n ∈ (exec env op s).2.1, ok n) →
      I (h ++ (exec env op s).2.1) (exec env op s).2.2 (m + C.gain op (exec env op s).1) ∧
        C.fact (h ++ (exec env op s).2.1, (exec env op s).2.2) op (exec env op s).1 ∧
        C.future (h, s) (h ++ (exec env op s).2.1, (exec env op s).2.2))
    (hprogram : ∀ req w, Task.Safe C (fun _ _ _ => True) (program req) 0 w) :
    ∃ ms lost, Tended C (h₀ ++ h, p.shared) ms p.tasks ∧ C.held lost ∧
      I (h₀ ++ h) p.shared (ms.sum + lost) := by
  refine hrun.invariant_of_notes (J := fun h p => ∃ ms lost,
    Tended C (h₀ ++ h, p.shared) ms p.tasks ∧ C.held lost ∧ I (h₀ ++ h) p.shared (ms.sum + lost))
    hok ?_ ?_
  · rw [List.append_nil]
    exact ⟨ms₀, lost₀, htended₀, hlost₀, hstart⟩
  rintro h ⟨s, ts⟩ notes p' ⟨ms, lost, htended, hheld, hI⟩ ⟨ev, hev⟩ hnotes
  rw [← List.append_assoc]
  generalize h₀ ++ h = h at htended hI ⊢
  cases acted hev with
  | @spawn req =>
    refine ⟨ms ++ [0], lost, ?_, hheld, by simpa using hI⟩
    rw [List.append_nil]
    exact List.rel_append htended (.cons (hprogram req _) .nil)
  | @run i env op next hi =>
    obtain ⟨m, others, hsum, ⟨-, hneed, -, rest, rfl, hnext⟩, hset, -⟩ := htended.split hi
    -- the operation is paid from the task's own credits
    have hcredits : I h s (others + lost + rest + C.cost op) := by
      have heq : others + lost + rest + C.cost op = ms.sum + lost := by
        rw [hsum]
        abel
      rwa [heq]
    obtain ⟨hI', hfact, hfuture⟩ := hop h s (others + lost + rest) env op hcredits hneed hnotes
    obtain ⟨ms', hsum', htended'⟩ := hset _ _ _ hfuture (hnext _ hfuture _ hfact)
    refine ⟨ms', lost, htended', hheld, ?_⟩
    have heq : ms'.sum + lost = others + lost + rest + C.gain op (exec env op s).1 := by
      rw [hsum']
      abel
    rwa [heq]
  | @fail i op next hi =>
    obtain ⟨m, others, hsum, ⟨-, -, hnone, -⟩, hset, -⟩ := htended.split hi
    obtain ⟨ms', hsum', htended'⟩ := hset m (next none) _ (C.refl _) (hnone _ (C.refl _))
    rw [List.append_nil]
    exact ⟨ms', lost, htended', hheld, by rwa [hsum', ← hsum]⟩
  | @drop i =>
    -- the credits of a task that dies are lost
    rw [List.append_nil]
    cases hi : ts[i]? with
    | none =>
      rw [List.getElem?_eq_none_iff] at hi
      exact ⟨ms, lost, by simpa [List.eraseIdx_of_length_le hi] using htended, hheld, hI⟩
    | some t =>
      obtain ⟨m, others, hsum, hsafe, -, ms', hsum', herase⟩ := htended.split hi
      refine ⟨ms', m + lost, herase, C.held_add (Task.Safe.held hsafe) hheld, ?_⟩
      rwa [hsum', ← add_assoc, ← hsum]

/-- **The rule of invariants** for pools whose tasks only await operations that meet `P`: what the
start has and each of these operations keeps, every run keeps. -/
theorem invariant_of_asks {P : Op → Prop} {J : List ν → σ → Prop}
    {p₀ p : Pool σ Op Ans} {h : List ν} (hrun : Run (Step exec program) p₀ h p)
    (htasks : ∀ t ∈ p₀.tasks, t.Asks P) (hstart : J [] p₀.shared)
    (hprogram : ∀ req, (program req).Asks P)
    (hop : ∀ h s env op, J h s → P op →
      J (h ++ (exec env op s).2.1) (exec env op s).2.2) : J h p.shared := by
  refine (hrun.invariant (J := fun h p => J h p.shared ∧ ∀ t ∈ p.tasks, t.Asks P)
    ⟨hstart, htasks⟩ ?_).1
  rintro h ⟨s, ts⟩ notes p' ⟨hJ, hts⟩ ⟨ev, hev⟩
  -- only a task that takes a step changes the state; the others keep to what they may await
  have hset : ∀ {i t}, t.Asks P → ∀ t' ∈ ts.set i t, Task.Asks P t' := fun ht t' ht' =>
    (List.mem_or_eq_of_mem_set ht').elim (hts t') (fun heq => heq ▸ ht)
  cases acted hev with
  | @spawn req =>
    refine ⟨by simpa using hJ, fun t ht => ?_⟩
    rcases List.mem_append.1 ht with ht | ht
    · exact hts t ht
    · exact List.mem_singleton.1 ht ▸ hprogram req
  | @run i env op next hi =>
    have hasks := hts _ (List.mem_of_getElem? hi)
    exact ⟨hop h s env op hJ hasks.1, hset (hasks.2 _)⟩
  | @fail i op next hi =>
    have hasks := hts _ (List.mem_of_getElem? hi)
    exact ⟨by simpa using hJ, hset (hasks.2 none)⟩
  | @drop i =>
    exact ⟨by simpa using hJ, fun t ht => hts t (List.mem_of_mem_eraseIdx ht)⟩

end Pool

end ArgusBackend
