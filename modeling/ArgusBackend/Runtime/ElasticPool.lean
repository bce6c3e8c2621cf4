import ArgusBackend.Library.Places
import ArgusBackend.Library.Runs
import Mathlib.Data.Int.Order.Basic
import Mathlib.Data.List.Basic
import Mathlib.Tactic.Linarith

/-!
# The elastic pool

Jobs wait in a queue until a worker takes one.  A job that finds no idle worker starts a new one, up
to a limit, and idle workers above the core leave after a while.

* `Pool.enqueue`, `Pool.awaken` : one locked block of a caller or of a worker;
* `Pool.Inv`, `pool_keeps_jobs` : a job that was accepted stays until one worker takes it, and as
  long as one waits there is a worker.
-/

namespace ArgusBackend

namespace Runtime

/-- The number of a job. -/
abbrev Job := ℕ

/-- Exchanging one entry changes a count by that entry. -/
lemma countP_exchange {α : Type} (p : α → Bool) {l : List α} {i : ℕ} {old : α} (new : α)
    (h : l[i]? = some old) :
    ((l.set i new).countP p : ℤ) =
      l.countP p - (if p old then 1 else 0) + (if p new then 1 else 0) := by
  have hcount : (l.set i new).countP p + (if p old then 1 else 0) =
      l.countP p + if p new then 1 else 0 := Places.countP_replace h
  split_ifs at hcount ⊢ <;> omega

/-- How many threads and jobs there may be. -/
structure BlockingLaneLimits where
  coreThreads : ℤ := 0
  maxThreads : ℤ := 1
  maxQueued : ℕ := 0

/-- The limits that the constructor makes. -/
def BlockingLaneLimits.made (limits : BlockingLaneLimits) : BlockingLaneLimits where
  coreThreads := max 0 limits.coreThreads
  maxThreads := max (max 1 limits.maxThreads) limits.coreThreads
  maxQueued := limits.maxQueued

/-- What happens to a job when the queue is full. -/
inductive BlockingAdmission where
  | queue | rejectWhenFull
  deriving DecidableEq, Repr

/-- What a worker does between its locked blocks. -/
inductive Worker where
  /-- it is about to lock, fresh or after a job -/
  | fresh
  | busy (job : Job)
  /-- it waits to be woken -/
  | waiting
  | gone
  deriving DecidableEq, Repr

/-- The thread is still there. -/
def Worker.alive (worker : Worker) : Bool := worker ≠ .gone

/-- `taken` and `accepted` are the jobs that workers have taken and that callers have entered. -/
structure Pool where
  queue : List Job := []
  threads : ℤ := 0
  idle : ℤ := 0
  stopping : Bool := false
  workers : List Worker := []
  taken : List Job := []
  accepted : List Job := []

namespace Pool

variable (limits_ : BlockingLaneLimits)

/-- What becomes of a job. -/
inductive Admitted where
  | accepted | rejected | threw
  deriving DecidableEq, Repr

/-- `starts` says whether `std::thread` can start a worker. -/
def enqueue (s : Pool) (job : Job) (admission : BlockingAdmission) (starts : Bool) :
    Admitted × Pool :=
  if admission = .rejectWhenFull ∧ limits_.maxQueued > 0 ∧ s.queue.length ≥ limits_.maxQueued then
    (.rejected, s)
  else
    let s' : Pool := { s with queue := s.queue ++ [job], accepted := s.accepted ++ [job] }
    if (s'.queue.length : ℤ) ≤ s.idle ∨ s.threads ≥ limits_.maxThreads then (.accepted, s')
    else if starts then
      (.accepted, { s' with threads := s.threads + 1, workers := s.workers ++ [.fresh] })
    else if s.threads = 0 then (.threw, s)
    else (.accepted, s')

/-- The end of the wait: a job is taken, or the worker leaves or waits on. -/
def settle (s : Pool) (i : ℕ) (woke : Bool) : Pool :=
  match s.queue with
  | [] =>
    if s.stopping ∨ (woke = false ∧ s.threads > limits_.coreThreads) then
      { s with threads := s.threads - 1, workers := s.workers.set i .gone }
    else { s with idle := s.idle + 1, workers := s.workers.set i .waiting }
  | job :: rest =>
    { s with queue := rest, workers := s.workers.set i (.busy job), taken := s.taken ++ [job] }

/-- A locked block of a worker; `timeout` says whether its wait is over without a job. -/
def awaken (s : Pool) (i : ℕ) (timeout : Bool) : Option Pool :=
  match s.workers[i]? with
  | some .fresh =>
    -- the wait begins, and ends at once when there is a job or the pool stops
    if s.stopping = true ∨ s.queue ≠ [] then some (s.settle limits_ i true)
    else some { s with idle := s.idle + 1, workers := s.workers.set i .waiting }
  | some .waiting =>
    if s.stopping = true ∨ s.queue ≠ [] then
      some ({ s with idle := s.idle - 1 }.settle limits_ i true)
    else if timeout then some ({ s with idle := s.idle - 1 }.settle limits_ i false)
    else some s
  | _ => none

/-- A job is over. -/
def finish (s : Pool) (i : ℕ) : Option Pool :=
  match s.workers[i]? with
  | some (.busy _) => some { s with workers := s.workers.set i .fresh }
  | _ => none

/-- What the threads and the callers do, one step at a time. -/
inductive Step : Pool → Pool → Prop
  | enqueue {s : Pool} (job : Job) (admission : BlockingAdmission) (starts : Bool) :
      Step s (s.enqueue limits_ job admission starts).2
  | awaken {s s' : Pool} (i : ℕ) (timeout : Bool) (h : s.awaken limits_ i timeout = some s') :
      Step s s'
  | finish {s s' : Pool} (i : ℕ) (h : s.finish i = some s') : Step s s'
  | stop {s : Pool} : Step s { s with stopping := true }

/-- The counters count the workers, no job is lost, and somebody is there for those that wait. -/
structure Inv (s : Pool) : Prop where
  threads : s.threads = s.workers.countP Worker.alive
  idle : s.idle = s.workers.count .waiting
  jobs : s.taken ++ s.queue = s.accepted
  served : s.queue ≠ [] → 0 < s.threads

@[simp]
lemma alive_fresh : Worker.alive .fresh = true := rfl

@[simp]
lemma alive_busy (job : Job) : Worker.alive (.busy job) = true := rfl

@[simp]
lemma alive_waiting : Worker.alive .waiting = true := rfl

@[simp]
lemma alive_gone : Worker.alive .gone = false := rfl

lemma count_exchange {workers : List Worker} {i : ℕ} {old : Worker} (new : Worker)
    (h : workers[i]? = some old) :
    ((workers.set i new).count .waiting : ℤ) = workers.count .waiting -
      (if (old == .waiting) = true then 1 else 0) + (if (new == .waiting) = true then 1 else 0) :=
  countP_exchange (fun worker => worker == Worker.waiting) new h

namespace Inv

variable {limits_} {s s' : Pool} {i : ℕ}

lemma idle_le_threads (h : s.Inv) : s.idle ≤ s.threads := by
  have : s.workers.count .waiting ≤ s.workers.countP Worker.alive := by
    refine List.countP_mono_left ?_
    rintro worker - hw
    rw [beq_iff_eq.mp hw]
    rfl
  rw [h.idle, h.threads]
  exact_mod_cast this

lemma threads_nonneg (h : s.Inv) : 0 ≤ s.threads := by
  rw [h.threads]
  exact Int.natCast_nonneg _

lemma enqueue (hmax : 1 ≤ limits_.maxThreads) (h : s.Inv) (job : Job)
    (admission : BlockingAdmission) (starts : Bool) :
    (s.enqueue limits_ job admission starts).2.Inv := by
  have hle := h.idle_le_threads
  have hnn := h.threads_nonneg
  have hjobs : s.taken ++ (s.queue ++ [job]) = s.accepted ++ [job] := by
    rw [← List.append_assoc, h.jobs]
  unfold Pool.enqueue
  dsimp only
  split_ifs with hfull hidle hstarts
  · exact h
  · -- the waiting workers are at least as many as the jobs, or there are as many as allowed
    have hserved : 0 < s.threads := by
      rcases hidle with hidle | hidle
      · simp only [List.length_append, List.length_singleton] at hidle
        omega
      · omega
    exact ⟨h.threads, h.idle, hjobs, fun _ => hserved⟩
  · refine ⟨?_, ?_, hjobs, fun _ => ?_⟩
    · simp [h.threads]
    · simp [h.idle]
    · dsimp only
      omega
  · exact h
  · refine ⟨h.threads, h.idle, hjobs, fun _ => ?_⟩
    dsimp only
    omega

/-- A worker that is awake and counted takes a job, leaves or waits. -/
lemma settle {old : Worker} (woke : Bool) (halive : old.alive = true)
    (hold : s.workers[i]? = some old)
    (hthreads : s.threads = s.workers.countP Worker.alive)
    (hidle : s.idle = s.workers.count .waiting - (if (old == .waiting) = true then 1 else 0))
    (hjobs : s.taken ++ s.queue = s.accepted) (hserved : s.queue ≠ [] → 0 < s.threads) :
    (s.settle limits_ i woke).Inv := by
  unfold Pool.settle
  split
  · next hqueue =>
    split_ifs
    · refine ⟨?_, ?_, hjobs, fun hne => absurd hqueue hne⟩
      · rw [countP_exchange _ _ hold, hthreads, halive]
        simp
      · rw [count_exchange _ hold, hidle]
        simp
    · refine ⟨?_, ?_, hjobs, fun hne => absurd hqueue hne⟩
      · rw [countP_exchange _ _ hold, hthreads, halive]
        simp
      · rw [count_exchange _ hold, hidle]
        simp
  · next job rest hqueue =>
    refine ⟨?_, ?_, ?_, fun _ => hserved (by simp [hqueue])⟩
    · rw [countP_exchange _ _ hold, hthreads, halive]
      simp
    · rw [count_exchange _ hold, hidle]
      simp
    · rw [← hjobs, hqueue]
      simp

lemma awaken {timeout : Bool} (h : s.Inv) (hstep : s.awaken limits_ i timeout = some s') :
    s'.Inv := by
  unfold Pool.awaken at hstep
  split at hstep
  · next hold =>
    split_ifs at hstep with hready
    · cases hstep
      exact settle true rfl hold h.threads (by simp [h.idle]) h.jobs h.served
    · cases hstep
      refine ⟨?_, ?_, h.jobs, h.served⟩
      · rw [countP_exchange _ _ hold, h.threads]
        simp
      · rw [count_exchange _ hold, h.idle]
        simp
  · next hold =>
    split_ifs at hstep with hready htime
    · cases hstep
      exact settle true rfl hold h.threads (by simp [h.idle]) h.jobs h.served
    · cases hstep
      exact settle false rfl hold h.threads (by simp [h.idle]) h.jobs h.served
    · cases hstep
      exact h
  · cases hstep

lemma finish (h : s.Inv) (hstep : s.finish i = some s') : s'.Inv := by
  unfold Pool.finish at hstep
  split at hstep
  · next job hold =>
    cases hstep
    refine ⟨?_, ?_, h.jobs, h.served⟩
    · rw [countP_exchange _ _ hold, h.threads]
      simp
    · rw [count_exchange _ hold, h.idle]
      simp
  · cases hstep

lemma step (hmax : 1 ≤ limits_.maxThreads) (h : s.Inv) (hstep : Step limits_ s s') : s'.Inv := by
  cases hstep with
  | enqueue job admission starts => exact h.enqueue hmax job admission starts
  | awaken i timeout hstep => exact h.awaken hstep
  | finish i hstep => exact h.finish hstep
  | stop => exact ⟨h.threads, h.idle, h.jobs, h.served⟩

end Inv

/-- The states of a pool made with these limits. -/
inductive Reachable : Pool → Prop
  | start : Reachable {}
  | next {s s' : Pool} : Reachable s → Step limits_.made s s' → Reachable s'

variable {limits_}

lemma one_le_maxThreads_made : 1 ≤ limits_.made.maxThreads :=
  le_max_of_le_left (le_max_left 1 limits_.maxThreads)

theorem Reachable.inv {s : Pool} (h : Reachable limits_ s) : s.Inv := by
  induction h with
  | start => exact ⟨rfl, rfl, rfl, fun hne => absurd rfl hne⟩
  | next _ hstep ih => exact ih.step one_le_maxThreads_made hstep

/-- A job that was accepted is in the queue until a worker takes it, the oldest first, and a worker
is there as long as one waits. -/
theorem pool_keeps_jobs {s : Pool} (h : Reachable limits_ s) :
    s.taken ++ s.queue = s.accepted ∧
      (s.queue ≠ [] → ∃ worker ∈ s.workers, worker.alive = true) := by
  refine ⟨h.inv.jobs, fun hne => ?_⟩
  have hthreads := h.inv.served hne
  rw [h.inv.threads] at hthreads
  exact List.countP_pos_iff.mp (by exact_mod_cast hthreads)

end Pool

end Runtime

end ArgusBackend
