import ArgusBackend.Runtime.ElasticPool
import Mathlib.Data.List.Nodup

/-!
# The blocking strand

A strand keeps its own queue and lets a pool run its drains, each of which takes one job and hands
the next one over to the pool.  The post that finds no drain scheduled schedules one, and takes its
job back when the pool throws.

* `Strand.step` : every locked block, and every `submit`, of any number of callers and workers;
* `Strand.Inv` : one thread is in charge as long as the queue is not empty;
* `strand_runs_jobs` : the jobs run once, one at a time and in order, unless the second `submit` of
  a failed post throws too.
-/

namespace ArgusBackend

namespace Runtime

/-- What a thread does between its steps: a call of `post` or `tryPost`, or a drain. -/
inductive Thread where
  /-- `tryPost` has found room -/
  | admitted
  /-- `post` is about to submit a drain -/
  | scheduling (job : Job)
  | failed (job : Job)
  | rescheduling (job : Job)
  | refailed (job : Job)
  | returned (job : Job)
  | threw (job : Job)
  /-- a drain that waits in the pool -/
  | queued
  | looping
  | running (job : Job)
  | ran
  | handing
  | finished
  deriving DecidableEq, Repr

namespace Thread

/-- The thread is in charge of the queue. -/
def active : Thread → Bool
  | .scheduling _ | .failed _ | .rescheduling _ | .refailed _ => true
  | .queued | .looping | .running _ | .ran | .handing => true
  | _ => false

/-- The thread runs a job. -/
def isRunning : Thread → Bool
  | .running _ => true
  | _ => false

end Thread

/-- `posted` numbers the jobs in the order in which they enter the queue; `started` keeps the jobs
that have started, and `broken` says that an empty queue was popped. -/
structure Strand where
  maxQueued : ℕ := 0
  queue : List Job := []
  scheduled : Bool := false
  posted : Job := 0
  threads : List Thread := []
  started : List Job := []
  broken : Bool := false
  deriving DecidableEq, Repr

/-- What the callers, the pool and the jobs do. -/
inductive Event where
  | post
  | tryPost
  | push (i : ℕ)
  | submit (i : ℕ) (ok : Bool)
  | recover (i : ℕ)
  | resubmit (i : ℕ) (ok : Bool)
  | giveUp (i : ℕ)
  | start (i : ℕ)
  | take (i : ℕ)
  | done (i : ℕ)
  | check (i : ℕ)
  | hand (i : ℕ) (ok : Bool)
  deriving DecidableEq, Repr

namespace Strand

/-- The first locked block of `post`, with what the call does next. -/
def push (s : Strand) : Thread × Strand :=
  let s' := { s with queue := s.queue ++ [s.posted], posted := s.posted + 1 }
  if s.scheduled then (.returned s.posted, s')
  else (.scheduling s.posted, { s' with scheduled := true })

/-- A job is pushed, and its thread goes on by what came of it. -/
def pushBy (s : Strand) (threads : Thread → List Thread) : Strand :=
  { s.push.2 with threads := threads s.push.1 }

/-- The locked block of the error path of `post`. -/
def recover (s : Strand) (i : ℕ) (job : Job) : Strand :=
  let remaining := decide (s.queue.tail ≠ [])
  { s with
    queue := s.queue.tail
    scheduled := remaining
    broken := s.broken || decide (s.queue = [])
    threads := s.threads.set i (if remaining then .rescheduling job else .threw job) }

/-- The locked block in which a drain takes its job. -/
def take (s : Strand) (i : ℕ) : Strand :=
  match s.queue with
  | [] => { s with broken := true, threads := s.threads.set i .finished }
  | job :: rest =>
    { s with
      queue := rest
      started := s.started ++ [job]
      threads := s.threads.set i (.running job) }

/-- The locked block after the job. -/
def check (s : Strand) (i : ℕ) : Strand :=
  if s.queue = [] then { s with scheduled := false, threads := s.threads.set i .finished }
  else { s with threads := s.threads.set i .handing }

/-- A thread goes on to `next`, and where `ok` the pool has a new drain. -/
def goOn (s : Strand) (i : ℕ) (next : Thread) (ok : Bool) : Strand :=
  { s with threads := s.threads.set i next ++ if ok then [.queued] else [] }

/-- What an event does; `none` if it does not fit. -/
def step (s : Strand) : Event → Option Strand
  | .post => some (s.pushBy fun thread => s.threads ++ [thread])
  | .tryPost =>
    if s.maxQueued > 0 ∧ s.queue.length ≥ s.maxQueued then some s
    else some { s with threads := s.threads ++ [.admitted] }
  | .push i =>
    match s.threads[i]? with
    | some .admitted => some (s.pushBy fun thread => s.threads.set i thread)
    | _ => none
  | .submit i ok =>
    match s.threads[i]? with
    | some (.scheduling job) => some (s.goOn i (if ok then .returned job else .failed job) ok)
    | _ => none
  | .recover i =>
    match s.threads[i]? with
    | some (.failed job) => some (s.recover i job)
    | _ => none
  | .resubmit i ok =>
    match s.threads[i]? with
    | some (.rescheduling job) => some (s.goOn i (if ok then .threw job else .refailed job) ok)
    | _ => none
  | .giveUp i =>
    match s.threads[i]? with
    | some (.refailed job) =>
      some { s with scheduled := false, threads := s.threads.set i (.threw job) }
    | _ => none
  | .start i =>
    match s.threads[i]? with
    | some .queued => some (s.goOn i .looping false)
    | _ => none
  | .take i =>
    match s.threads[i]? with
    | some .looping => some (s.take i)
    | _ => none
  | .done i =>
    match s.threads[i]? with
    | some (.running _) => some (s.goOn i .ran false)
    | _ => none
  | .check i =>
    match s.threads[i]? with
    | some .ran => some (s.check i)
    | _ => none
  | .hand i ok =>
    match s.threads[i]? with
    | some .handing => some (s.goOn i (if ok then .finished else .looping) ok)
    | _ => none

/-- A run of the strand, with its events. -/
abbrev Runs (maxQueued : ℕ) : List Event → Strand → Prop :=
  Run (fun s notes s' => ∃ e, notes = [e] ∧ s.step e = some s') { maxQueued }

end Strand

/-- The second `submit` of a failed post goes through. -/
def Event.Keeps : Event → Prop
  | .resubmit _ ok => ok = true
  | _ => True

/-- What a thread that is in charge knows of the queue. -/
def Thread.Fits (queue : List Job) : Thread → Prop
  | .scheduling job | .failed job => ∃ rest, queue = job :: rest
  | .refailed _ => False
  | .rescheduling _ | .queued | .looping | .handing => queue ≠ []
  | _ => True

/-- What is known of the job of a call: one that was kept is in the strand or has started, and one
that was taken back is not. -/
def Thread.Accounts (s : Strand) : Thread → Prop
  | .returned job => job ∈ s.started ++ s.queue
  | .rescheduling job | .threw job => job ∉ s.started ++ s.queue ∧ job < s.posted
  | .scheduling job | .failed job => .returned job ∉ s.threads
  | _ => True

/-- One thread is in charge exactly when the strand is scheduled, and then only. -/
structure Strand.Inv (s : Strand) : Prop where
  charge : s.threads.countP Thread.active = if s.scheduled then 1 else 0
  idle : s.scheduled = false → s.queue = []
  fits : ∀ thread ∈ s.threads, thread.Fits s.queue
  accounts : ∀ thread ∈ s.threads, thread.Accounts s
  order : (s.started ++ s.queue).Pairwise (· < ·)
  posted : ∀ job ∈ s.started ++ s.queue, job < s.posted
  intact : s.broken = false

namespace Thread

lemma fits_of_inactive {thread : Thread} (queue : List Job) (h : thread.active = false) :
    thread.Fits queue := by
  cases thread <;> trivial

/-- A job at the end of the queue changes nothing for the thread in charge. -/
lemma Fits.append {thread : Thread} {queue : List Job} (h : thread.Fits queue) (job : Job) :
    thread.Fits (queue ++ [job]) := by
  cases thread with
  | scheduling j =>
    obtain ⟨rest, rfl⟩ := h
    exact ⟨rest ++ [job], rfl⟩
  | failed j =>
    obtain ⟨rest, rfl⟩ := h
    exact ⟨rest ++ [job], rfl⟩
  | refailed j => exact h
  | rescheduling j => exact List.append_ne_nil_of_right_ne_nil _ (List.cons_ne_nil _ _)
  | queued => exact List.append_ne_nil_of_right_ne_nil _ (List.cons_ne_nil _ _)
  | looping => exact List.append_ne_nil_of_right_ne_nil _ (List.cons_ne_nil _ _)
  | handing => exact List.append_ne_nil_of_right_ne_nil _ (List.cons_ne_nil _ _)
  | _ => trivial

/-- What is known of an idle thread rests on the jobs alone. -/
lemma Accounts.of_jobs {thread : Thread} {s s' : Strand} (h : thread.Accounts s)
    (hidle : thread.active = false) (hjobs : s'.started ++ s'.queue = s.started ++ s.queue)
    (hposted : s'.posted = s.posted) : thread.Accounts s' := by
  cases thread with
  | returned job =>
    show job ∈ s'.started ++ s'.queue
    rw [hjobs]
    exact h
  | threw job =>
    show job ∉ s'.started ++ s'.queue ∧ job < s'.posted
    rw [hjobs, hposted]
    exact h
  | _ => trivial

end Thread

lemma mem_set_or {α : Type} {l : List α} {i : ℕ} {a b t : α} (h : t ∈ l.set i a) :
    t = a ∨ t ∈ l.set i b := by
  rcases Places.mem_replaced h with heq | ⟨j, hji, hj⟩
  · exact .inl heq
  · exact .inr (List.mem_of_getElem? ((List.getElem?_set_ne hji.symm).trans hj))

namespace Strand

namespace Inv

variable {s s' : Strand} {i : ℕ} {old : Thread}

/-- Without the thread in charge no other one is. -/
lemma others_idle (h : s.Inv) (hold : s.threads[i]? = some old) (hact : old.active = true)
    {thread : Thread} (hmem : thread ∈ s.threads.set i .finished) : thread.active = false := by
  have hcount := countP_exchange Thread.active Thread.finished hold
  have hcharge := h.charge
  have hzero : (s.threads.set i .finished).countP Thread.active = 0 := by
    simp only [hact, if_true] at hcount
    have : Thread.active .finished = false := rfl
    simp only [this] at hcount
    split_ifs at hcharge <;> simp at hcount <;> omega
  exact Bool.eq_false_iff.mpr (List.countP_eq_zero.mp hzero thread hmem)

/-- The thread in charge takes a step: the others keep what they know, and they are idle. -/
lemma act (h : s.Inv) (new : Thread) (extra : List Thread) (hold : s.threads[i]? = some old)
    (hact : old.active = true)
    (hthreads : s'.threads = s.threads.set i new ++ extra)
    (hcharge : (new :: extra).countP Thread.active = if s'.scheduled then 1 else 0)
    (hidle : s'.scheduled = false → s'.queue = [])
    (hfits : ∀ thread ∈ new :: extra, thread.Fits s'.queue)
    (hnew : ∀ thread ∈ new :: extra, thread.Accounts s')
    (hkept : ∀ thread ∈ s.threads, thread.active = false → thread.Accounts s')
    (horder : (s'.started ++ s'.queue).Pairwise (· < ·))
    (hposted : ∀ job ∈ s'.started ++ s'.queue, job < s'.posted)
    (hintact : s'.broken = false) : s'.Inv := by
  have hcases : ∀ thread ∈ s'.threads,
      thread ∈ new :: extra ∨ thread ∈ s.threads ∧ thread.active = false := by
    intro thread hmem
    rw [hthreads, List.mem_append] at hmem
    rcases hmem with hmem | hmem
    · rcases mem_set_or (b := Thread.finished) hmem with rfl | hfin
      · exact .inl (List.mem_cons_self ..)
      · rcases List.mem_or_eq_of_mem_set hmem with hold' | rfl
        · exact .inr ⟨hold', h.others_idle hold hact hfin⟩
        · exact .inl (List.mem_cons_self ..)
    · exact .inl (List.mem_cons_of_mem _ hmem)
  refine ⟨?_, hidle, ?_, ?_, horder, hposted, hintact⟩
  · have hset := countP_exchange Thread.active new hold
    have hfin := h.charge
    have hone : s.threads.countP Thread.active = 1 := by
      have hpos : 0 < s.threads.countP Thread.active :=
        List.countP_pos_iff.mpr ⟨old, List.mem_of_getElem? hold, hact⟩
      split_ifs at hfin <;> omega
    rw [← hcharge, hthreads, List.countP_append, List.countP_cons]
    simp only [hone, hact, if_true] at hset
    split_ifs at hset ⊢ <;> omega
  · intro thread hmem
    rcases hcases thread hmem with hnew' | ⟨-, hidle'⟩
    · exact hfits thread hnew'
    · exact Thread.fits_of_inactive _ hidle'
  · intro thread hmem
    rcases hcases thread hmem with hnew' | ⟨hold', hidle'⟩
    · exact hnew thread hnew'
    · exact hkept thread hold' hidle'

/-- The thread in charge goes on, or leaves the charge to a new drain. -/
lemma goOn (h : s.Inv) {new : Thread} {ok : Bool} (hold : s.threads[i]? = some old)
    (hact : old.active = true) (hnext : new.active = !ok) (hfits : new.Fits s.queue)
    (hdrain : ok = true → s.queue ≠ []) (hnew : new.Accounts (s.goOn i new ok)) :
    (s.goOn i new ok).Inv := by
  have hsched : s.scheduled = true := by
    by_contra hno
    have hcharge := h.charge
    rw [if_neg hno] at hcharge
    exact List.countP_eq_zero.mp hcharge old (List.mem_of_getElem? hold) hact
  refine h.act new (if ok then [.queued] else []) hold hact rfl ?_ h.idle ?_ ?_ ?_ h.order h.posted
    h.intact
  · show _ = if s.scheduled then 1 else 0
    rw [hsched, List.countP_cons, hnext]
    cases ok <;> rfl
  · intro thread hmem
    rcases List.mem_cons.mp hmem with rfl | hmem
    · exact hfits
    · cases ok with
      | false => cases hmem
      | true =>
        rw [List.mem_singleton.mp hmem]
        exact hdrain rfl
  · intro thread hmem
    rcases List.mem_cons.mp hmem with rfl | hmem
    · exact hnew
    · cases ok with
      | false => cases hmem
      | true =>
        rw [List.mem_singleton.mp hmem]
        trivial
  · intro thread hmem hidle
    exact (h.accounts thread hmem).of_jobs hidle rfl rfl

/-- The post's first locked block: with nobody in charge the queue was empty, and the post is. -/
lemma pushBy (h : s.Inv) {threads : Thread → List Thread}
    (hmem : ∀ new, ∀ thread ∈ threads new, thread ∈ s.threads ∨ thread = new)
    (hcount : ∀ new, ((threads new).countP Thread.active : ℤ) =
      s.threads.countP Thread.active + if new.active then 1 else 0) :
    (s.pushBy threads).Inv := by
  have hlast : s.posted ∉ s.started ++ s.queue := fun hin => lt_irrefl _ (h.posted _ hin)
  have happ : s.started ++ (s.queue ++ [s.posted]) = (s.started ++ s.queue) ++ [s.posted] :=
    (List.append_assoc _ _ _).symm
  have horder : (s.started ++ (s.queue ++ [s.posted])).Pairwise (· < ·) := by
    rw [happ, List.pairwise_append]
    refine ⟨h.order, List.pairwise_singleton _ _, ?_⟩
    rintro job hjob last hlast
    rw [List.mem_singleton.mp hlast]
    exact h.posted job hjob
  have hposted : ∀ job ∈ s.started ++ (s.queue ++ [s.posted]), job < s.posted + 1 := by
    intro job hjob
    rw [happ, List.mem_append, List.mem_singleton] at hjob
    rcases hjob with hjob | rfl
    · exact (h.posted job hjob).trans (Nat.lt_succ_self _)
    · exact Nat.lt_succ_self _
  cases hsched : s.scheduled with
  | true =>
    have heq : s.pushBy threads =
        { s with queue := s.queue ++ [s.posted], posted := s.posted + 1,
                 threads := threads (.returned s.posted) } := by
      simp [Strand.pushBy, push, hsched]
    rw [heq]
    refine ⟨?_, fun hno => absurd (hsched.symm.trans hno) (by decide), ?_, ?_, horder, hposted,
      h.intact⟩
    · have hnew := hcount (.returned s.posted)
      have hinactive : Thread.active (.returned s.posted) = false := rfl
      rw [hinactive] at hnew
      have hcharge := h.charge
      dsimp only
      rw [← hcharge]
      simpa using hnew
    · intro thread hthread
      rcases hmem _ thread hthread with hthread | rfl
      · exact (h.fits thread hthread).append _
      · trivial
    · intro thread hthread
      rcases hmem _ thread hthread with hthread | rfl
      · have hacc := h.accounts thread hthread
        have hfit := h.fits thread hthread
        -- the job of a post that may fail is still at the front, so it is an older one
        have hfront : ∀ job rest, s.queue = job :: rest → Thread.returned job ∉ s.threads →
            Thread.returned job ∉ threads (.returned s.posted) := by
          intro job rest hqueue hno hin
          rcases hmem _ _ hin with hin | heq
          · exact hno hin
          · refine hlast (List.mem_append_right _ ?_)
            rw [← Thread.returned.inj heq, hqueue]
            exact List.mem_cons_self ..
        have hnone : ∀ job, job ∉ s.started ++ s.queue ∧ job < s.posted →
            job ∉ s.started ++ (s.queue ++ [s.posted]) ∧ job < s.posted + 1 := by
          rintro job ⟨hno, hlt⟩
          refine ⟨?_, hlt.trans (Nat.lt_succ_self _)⟩
          rw [happ, List.mem_append, List.mem_singleton]
          exact not_or.mpr ⟨hno, hlt.ne⟩
        cases thread with
        | returned job =>
          show job ∈ s.started ++ (s.queue ++ [s.posted])
          rw [happ]
          exact List.mem_append_left _ hacc
        | threw job => exact hnone job hacc
        | rescheduling job => exact hnone job hacc
        | scheduling job =>
          obtain ⟨rest, hqueue⟩ := hfit
          exact hfront job rest hqueue hacc
        | failed job =>
          obtain ⟨rest, hqueue⟩ := hfit
          exact hfront job rest hqueue hacc
        | _ => trivial
      · show s.posted ∈ s.started ++ (s.queue ++ [s.posted])
        rw [happ]
        exact List.mem_append_right _ (List.mem_singleton_self _)
  | false =>
    have hempty := h.idle hsched
    have hzero : s.threads.countP Thread.active = 0 := by
      have hcharge := h.charge
      rw [hsched] at hcharge
      simpa using hcharge
    have hidle : ∀ thread ∈ s.threads, thread.active = false := fun thread hthread =>
      Bool.eq_false_iff.mpr (List.countP_eq_zero.mp hzero thread hthread)
    have heq : s.pushBy threads =
        { s with queue := s.queue ++ [s.posted], posted := s.posted + 1, scheduled := true,
                 threads := threads (.scheduling s.posted) } := by
      simp [Strand.pushBy, push, hsched]
    rw [heq]
    refine ⟨?_, fun hno => Bool.noConfusion hno, ?_, ?_, horder, hposted, h.intact⟩
    · have hnew := hcount (.scheduling s.posted)
      have hactive : Thread.active (.scheduling s.posted) = true := rfl
      rw [hactive, hzero] at hnew
      dsimp only
      simp only [if_true] at hnew ⊢
      omega
    · intro thread hthread
      rcases hmem _ thread hthread with hthread | rfl
      · exact Thread.fits_of_inactive _ (hidle thread hthread)
      · exact ⟨[], by simp [hempty]⟩
    · intro thread hthread
      rcases hmem _ thread hthread with hthread | rfl
      · have hacc := h.accounts thread hthread
        have hinactive := hidle thread hthread
        cases thread with
        | returned job =>
          show job ∈ s.started ++ (s.queue ++ [s.posted])
          rw [happ]
          exact List.mem_append_left _ hacc
        | threw job =>
          refine ⟨?_, hacc.2.trans (Nat.lt_succ_self _)⟩
          show job ∉ s.started ++ (s.queue ++ [s.posted])
          rw [happ, List.mem_append, List.mem_singleton]
          exact not_or.mpr ⟨hacc.1, hacc.2.ne⟩
        | _ => trivial
      · intro hin
        rcases hmem _ _ hin with hin | heq
        · exact hlast (h.accounts _ hin)
        · cases heq

/-- The post takes its own job back, whatever was appended behind it. -/
lemma recover (h : s.Inv) {job : Job} (hold : s.threads[i]? = some (.failed job)) :
    (s.recover i job).Inv := by
  have hmem := List.mem_of_getElem? hold
  obtain ⟨rest, hqueue⟩ : ∃ rest, s.queue = job :: rest := h.fits _ hmem
  have hacc : Thread.returned job ∉ s.threads := h.accounts _ hmem
  have hsub : (s.started ++ rest).Sublist (s.started ++ s.queue) := by
    rw [hqueue]
    exact (List.sublist_cons_self job rest).append_left s.started
  have hout : job ∉ s.started ++ rest := by
    have hnodup : (s.started ++ job :: rest).Nodup := by
      have := h.order
      rw [hqueue] at this
      exact this.imp fun hlt => hlt.ne
    exact (List.nodup_cons.mp (List.perm_middle.nodup_iff.mp hnodup)).1
  have hold' : job < s.posted := h.posted job (by rw [hqueue]; simp)
  have hjobs : (s.recover i job).started ++ (s.recover i job).queue = s.started ++ rest := by
    simp [Strand.recover, hqueue]
  refine h.act (if rest = [] then .threw job else .rescheduling job) [] hold rfl
    ?_ ?_ ?_ ?_ ?_ ?_ ?_ ?_ ?_
  · by_cases hrest : rest = [] <;> simp [Strand.recover, hqueue, hrest]
  · by_cases hrest : rest = [] <;> simp [Strand.recover, hqueue, hrest, Thread.active]
  · simp [Strand.recover, hqueue]
  · intro thread hthread
    rw [List.mem_singleton.mp hthread]
    by_cases hrest : rest = [] <;> simp [Strand.recover, hqueue, hrest, Thread.Fits]
  · intro thread hthread
    have hnone : job ∉ (s.recover i job).started ++ (s.recover i job).queue ∧
        job < (s.recover i job).posted := by
      rw [hjobs]
      exact ⟨hout, hold'⟩
    rw [List.mem_singleton.mp hthread]
    split_ifs <;> exact hnone
  · intro thread hthread hidle
    have hacc' := h.accounts thread hthread
    cases thread with
    | returned other =>
      show other ∈ (s.recover i job).started ++ (s.recover i job).queue
      have hne : other ≠ job := by
        rintro rfl
        exact hacc hthread
      have hin : other ∈ s.started ++ s.queue := hacc'
      rw [hjobs]
      rw [hqueue] at hin
      simpa [hne] using hin
    | threw other =>
      refine ⟨?_, hacc'.2⟩
      rw [hjobs]
      exact fun hin => hacc'.1 (hsub.subset hin)
    | _ => trivial
  · rw [hjobs]
    exact h.order.sublist hsub
  · rw [hjobs]
    exact fun other hin => h.posted other (hsub.subset hin)
  · simp [Strand.recover, hqueue, h.intact]

/-- A drain takes the oldest job. -/
lemma take (h : s.Inv) (hold : s.threads[i]? = some .looping) : (s.take i).Inv := by
  have hmem := List.mem_of_getElem? hold
  have hne : s.queue ≠ [] := h.fits _ hmem
  obtain ⟨job, rest, hqueue⟩ := List.exists_cons_of_ne_nil hne
  have heq : s.take i =
      { s with queue := rest, started := s.started ++ [job],
               threads := s.threads.set i (.running job) ++ [] } := by
    simp [Strand.take, hqueue]
  have hjobs : (s.started ++ [job]) ++ rest = s.started ++ s.queue := by simp [hqueue]
  have hsched : s.scheduled = true := by
    cases hs : s.scheduled with
    | true => rfl
    | false => exact absurd (h.idle hs) hne
  rw [heq]
  refine h.act (.running job) [] hold rfl rfl ?_ ?_ ?_ ?_ ?_ ?_ ?_ h.intact
  · simp [hsched, Thread.active]
  · exact fun hno => absurd (hsched.symm.trans hno) (by decide)
  · intro thread hthread
    rw [List.mem_singleton.mp hthread]
    trivial
  · intro thread hthread
    rw [List.mem_singleton.mp hthread]
    trivial
  · intro thread hthread hidle
    exact (h.accounts thread hthread).of_jobs hidle hjobs rfl
  · exact hjobs ▸ h.order
  · exact hjobs ▸ h.posted

/-- A drain that finds the queue empty leaves it to the next post. -/
lemma check (h : s.Inv) (hold : s.threads[i]? = some .ran) : (s.check i).Inv := by
  unfold Strand.check
  split_ifs with hqueue
  · refine h.act .finished [] hold rfl (List.append_nil _).symm rfl
      (fun _ => hqueue) ?_ ?_ ?_ h.order h.posted h.intact
    · intro thread hthread
      rw [List.mem_singleton.mp hthread]
      trivial
    · intro thread hthread
      rw [List.mem_singleton.mp hthread]
      trivial
    · intro thread hthread hidle
      exact (h.accounts thread hthread).of_jobs hidle rfl rfl
  · have hgo : (s.goOn i .handing false).Inv := h.goOn hold rfl rfl hqueue (by simp) trivial
    simpa [Strand.goOn] using hgo

/-- One event keeps the invariant. -/
lemma step (h : s.Inv) {e : Event} (hkeeps : e.Keeps) (hstep : s.step e = some s') : s'.Inv := by
  cases e with
  | post =>
    cases hstep
    refine h.pushBy ?_ ?_
    · intro new thread hmem
      simpa using hmem
    · intro new
      rw [List.countP_append, List.countP_singleton]
      split_ifs <;> simp
  | tryPost =>
    simp only [Strand.step] at hstep
    split_ifs at hstep
    · cases hstep
      exact h
    · cases hstep
      refine ⟨?_, h.idle, ?_, ?_, h.order, h.posted, h.intact⟩
      · simp [← h.charge, Thread.active]
      · intro thread hmem
        rcases List.mem_append.mp hmem with hmem | hmem
        · exact h.fits thread hmem
        · rw [List.mem_singleton.mp hmem]
          trivial
      · intro thread hmem
        rcases List.mem_append.mp hmem with hmem | hmem
        · have hacc := h.accounts thread hmem
          cases thread with
          | scheduling job => simpa [Thread.Accounts] using hacc
          | failed job => simpa [Thread.Accounts] using hacc
          | _ => exact hacc
        · rw [List.mem_singleton.mp hmem]
          trivial
  | push i =>
    simp only [Strand.step] at hstep
    split at hstep
    · next hold =>
      cases hstep
      refine h.pushBy ?_ ?_
      · intro new thread hmem
        exact List.mem_or_eq_of_mem_set hmem
      · intro new
        have hcount := countP_exchange Thread.active new hold
        simpa [Thread.active] using hcount
    · cases hstep
  | submit i ok =>
    simp only [Strand.step] at hstep
    split at hstep
    · next job hold =>
      cases hstep
      have hmem := List.mem_of_getElem? hold
      obtain ⟨rest, hqueue⟩ : ∃ rest, s.queue = job :: rest := h.fits _ hmem
      have hacc : Thread.returned job ∉ s.threads := h.accounts _ hmem
      cases ok with
      | true =>
        refine h.goOn hold rfl rfl trivial (fun _ => by simp [hqueue]) ?_
        show job ∈ s.started ++ s.queue
        simp [hqueue]
      | false =>
        refine h.goOn hold rfl rfl ⟨rest, hqueue⟩ (by simp) ?_
        intro hin
        rcases List.mem_append.mp hin with hin | hin
        · rcases List.mem_or_eq_of_mem_set hin with hin | heq
          · exact hacc hin
          · cases heq
        · cases hin
    · cases hstep
  | recover i =>
    simp only [Strand.step] at hstep
    split at hstep
    · next job hold =>
      cases hstep
      exact h.recover hold
    · cases hstep
  | resubmit i ok =>
    simp only [Strand.step] at hstep
    split at hstep
    · next job hold =>
      cases hstep
      have hmem := List.mem_of_getElem? hold
      have hne : s.queue ≠ [] := h.fits _ hmem
      obtain rfl : ok = true := hkeeps
      exact h.goOn hold rfl rfl trivial (fun _ => hne) (h.accounts _ hmem)
    · cases hstep
  | giveUp i =>
    simp only [Strand.step] at hstep
    split at hstep
    · next job hold => exact absurd (h.fits _ (List.mem_of_getElem? hold)) id
    · cases hstep
  | start i =>
    simp only [Strand.step] at hstep
    split at hstep
    · next hold =>
      cases hstep
      have hne : s.queue ≠ [] := h.fits _ (List.mem_of_getElem? hold)
      exact h.goOn hold rfl rfl hne (by simp) trivial
    · cases hstep
  | take i =>
    simp only [Strand.step] at hstep
    split at hstep
    · next hold =>
      cases hstep
      exact h.take hold
    · cases hstep
  | done i =>
    simp only [Strand.step] at hstep
    split at hstep
    · next job hold =>
      cases hstep
      exact h.goOn hold rfl rfl trivial (by simp) trivial
    · cases hstep
  | check i =>
    simp only [Strand.step] at hstep
    split at hstep
    · next hold =>
      cases hstep
      exact h.check hold
    · cases hstep
  | hand i ok =>
    simp only [Strand.step] at hstep
    split at hstep
    · next hold =>
      cases hstep
      have hne : s.queue ≠ [] := h.fits _ (List.mem_of_getElem? hold)
      cases ok with
      | true => exact h.goOn hold rfl rfl trivial (fun _ => hne) trivial
      | false => exact h.goOn hold rfl rfl hne (by simp) trivial
    · cases hstep

end Inv

theorem Runs.inv {maxQueued : ℕ} {s : Strand} {h : List Event} (hrun : Runs maxQueued h s)
    (hkeeps : ∀ e ∈ h, e.Keeps) : s.Inv := by
  refine hrun.invariant_of_notes (J := fun _ s => s.Inv) hkeeps ?_ ?_
  · exact ⟨rfl, fun _ => rfl, by simp, by simp, by simp, by simp, rfl⟩
  · rintro _ s _ s' hinv ⟨e, rfl, hstep⟩ hok
    exact hinv.step (hok e (List.mem_singleton_self e)) hstep

end Strand

/-- A new call, or the part of a `tryPost` that is one. -/
def Event.isCall : Event → Bool
  | .post | .tryPost | .push _ => true
  | _ => false

/-- The steps that a thread has before it, the jobs in the queue apart. -/
def Thread.weight : Thread → ℕ
  | .scheduling _ | .rescheduling _ => 3
  | .failed _ => 2
  | .refailed _ => 1
  | .queued => 2
  | .looping => 1
  | .running _ => 6
  | .ran => 5
  | .handing => 4
  | _ => 0

/-- The steps that are left without a new call. -/
def Strand.remaining (s : Strand) : ℕ :=
  8 * s.queue.length + (s.threads.map Thread.weight).sum

lemma sum_exchange {threads : List Thread} {i : ℕ} {old : Thread} (new : Thread)
    (h : threads[i]? = some old) :
    ((threads.set i new).map Thread.weight).sum + old.weight =
      (threads.map Thread.weight).sum + new.weight := by
  induction threads generalizing i with
  | nil => simp at h
  | cons thread rest ih =>
    cases i with
    | zero =>
      obtain rfl : thread = old := by simpa using h
      simp only [List.set_cons_zero, List.map_cons, List.sum_cons]
      omega
    | succ i =>
      have hrest := ih (i := i) (by simpa using h)
      simp only [List.set_cons_succ, List.map_cons, List.sum_cons]
      omega

namespace Strand

variable {s s' : Strand} {i : ℕ} {old : Thread}

lemma remaining_goOn {next : Thread} {ok : Bool} (hold : s.threads[i]? = some old)
    (hlt : next.weight + (if ok then 2 else 0) < old.weight) :
    (s.goOn i next ok).remaining < s.remaining := by
  have hsum := sum_exchange next hold
  have hdrain : ((if ok then [Thread.queued] else []).map Thread.weight).sum =
      if ok then 2 else 0 := by
    cases ok <;> rfl
  simp only [remaining, goOn, List.map_append, List.sum_append, hdrain]
  omega

/-- Every step but a call leaves fewer. -/
theorem Inv.remaining_lt (h : s.Inv) {e : Event} (hcall : e.isCall = false)
    (hstep : s.step e = some s') : s'.remaining < s.remaining := by
  cases e with
  | post => cases hcall
  | tryPost => cases hcall
  | push i => cases hcall
  | submit i ok =>
    simp only [Strand.step] at hstep
    split at hstep
    · next job hold =>
      cases hstep
      cases ok <;> exact remaining_goOn hold (by simp [Thread.weight])
    · cases hstep
  | recover i =>
    simp only [Strand.step] at hstep
    split at hstep
    · next job hold =>
      cases hstep
      obtain ⟨rest, hqueue⟩ : ∃ rest, s.queue = job :: rest :=
        h.fits _ (List.mem_of_getElem? hold)
      have hsum := sum_exchange (if rest = [] then .threw job else .rescheduling job) hold
      by_cases hrest : rest = [] <;>
        simp [remaining, Strand.recover, hqueue, hrest, Thread.weight, -List.map_set] at hsum ⊢ <;>
        omega
    · cases hstep
  | resubmit i ok =>
    simp only [Strand.step] at hstep
    split at hstep
    · next job hold =>
      cases hstep
      cases ok <;> exact remaining_goOn hold (by simp [Thread.weight])
    · cases hstep
  | giveUp i =>
    simp only [Strand.step] at hstep
    split at hstep
    · next job hold => exact absurd (h.fits _ (List.mem_of_getElem? hold)) id
    · cases hstep
  | start i =>
    simp only [Strand.step] at hstep
    split at hstep
    · next hold =>
      cases hstep
      exact remaining_goOn hold (by simp [Thread.weight])
    · cases hstep
  | take i =>
    simp only [Strand.step] at hstep
    split at hstep
    · next hold =>
      cases hstep
      have hne : s.queue ≠ [] := h.fits _ (List.mem_of_getElem? hold)
      obtain ⟨job, rest, hqueue⟩ := List.exists_cons_of_ne_nil hne
      have hsum := sum_exchange (.running job) hold
      simp [remaining, Strand.take, hqueue, Thread.weight, -List.map_set] at hsum ⊢
      omega
    · cases hstep
  | done i =>
    simp only [Strand.step] at hstep
    split at hstep
    · next job hold =>
      cases hstep
      exact remaining_goOn hold (by simp [Thread.weight])
    · cases hstep
  | check i =>
    simp only [Strand.step] at hstep
    split at hstep
    · next hold =>
      cases hstep
      have hdone := sum_exchange .finished hold
      have hmore := sum_exchange .handing hold
      unfold Strand.check
      split_ifs <;> simp [remaining, Thread.weight, -List.map_set] at hdone hmore ⊢ <;> omega
    · cases hstep
  | hand i ok =>
    simp only [Strand.step] at hstep
    split at hstep
    · next hold =>
      cases hstep
      cases ok <;> exact remaining_goOn hold (by simp [Thread.weight])
    · cases hstep

/-- The thread in charge can go on. -/
theorem Inv.goes_on (h : s.Inv) {thread : Thread} (hmem : thread ∈ s.threads)
    (hact : thread.active = true) :
    ∃ e, e.isCall = false ∧ e.Keeps ∧ (s.step e).isSome = true := by
  obtain ⟨i, hi⟩ := List.getElem?_of_mem hmem
  cases thread with
  | scheduling job => exact ⟨.submit i true, rfl, trivial, by simp [Strand.step, hi]⟩
  | failed job => exact ⟨.recover i, rfl, trivial, by simp [Strand.step, hi]⟩
  | rescheduling job => exact ⟨.resubmit i true, rfl, rfl, by simp [Strand.step, hi]⟩
  | refailed job => exact absurd (h.fits _ hmem) id
  | queued => exact ⟨.start i, rfl, trivial, by simp [Strand.step, hi]⟩
  | looping => exact ⟨.take i, rfl, trivial, by simp [Strand.step, hi]⟩
  | running job => exact ⟨.done i, rfl, trivial, by simp [Strand.step, hi]⟩
  | ran => exact ⟨.check i, rfl, trivial, by simp [Strand.step, hi]⟩
  | handing => exact ⟨.hand i true, rfl, trivial, by simp [Strand.step, hi]⟩
  | _ => cases hact

lemma Inv.count_one (h : s.Inv) {job : Job} (hin : job ∈ s.started ++ s.queue) :
    (s.started ++ s.queue).count job = 1 :=
  List.count_eq_one_of_mem (h.order.imp fun hlt => hlt.ne) hin

lemma Inv.in_charge (h : s.Inv) (hqueue : s.queue ≠ []) :
    ∃ thread ∈ s.threads, thread.active = true := by
  cases hs : s.scheduled with
  | false => exact absurd (h.idle hs) hqueue
  | true =>
    have hcharge := h.charge
    rw [hs] at hcharge
    refine List.countP_pos_iff.mp ?_
    rw [hcharge]
    decide

lemma Inv.one_runs (h : s.Inv) : s.threads.countP Thread.isRunning ≤ 1 := by
  have hle : s.threads.countP Thread.isRunning ≤ s.threads.countP Thread.active := by
    refine List.countP_mono_left ?_
    rintro thread - hrun
    cases thread with
    | running job => rfl
    | _ => cases hrun
  have hcharge := h.charge
  split_ifs at hcharge <;> omega

/-- A strand over a pool whose `submit` may throw, except for the second one of a failed post.  One
job runs at a time; a job that was posted is started once, in the order of the posts, and is in the
queue until then; a job whose post threw never runs; as long as a job waits some thread is in charge
and can go on, and only finitely many steps pass without a new call.  In the pool below no job is
lost, and a worker is alive as long as one waits. -/
theorem strand_runs_jobs {maxQueued : ℕ} {s : Strand} {h : List Event} (hrun : Runs maxQueued h s)
    (hkeeps : ∀ e ∈ h, e.Keeps) {limits_ : BlockingLaneLimits} {p : Pool}
    (hpool : Pool.Reachable limits_ p) :
    (s.threads.countP Thread.isRunning ≤ 1 ∧ s.started.Pairwise (· < ·)) ∧
      (∀ job, .returned job ∈ s.threads → (s.started ++ s.queue).count job = 1 ∧
        (s.queue = [] → s.started.count job = 1)) ∧
      (∀ job, .threw job ∈ s.threads → job ∉ s.started ∧ job ∉ s.queue) ∧
      (s.queue ≠ [] → s.scheduled = true ∧ (∃ thread ∈ s.threads, thread.active = true) ∧
        ∃ e, e.isCall = false ∧ e.Keeps ∧ (s.step e).isSome = true) ∧
      (∀ e s', e.isCall = false → s.step e = some s' → s'.remaining < s.remaining) ∧
      s.broken = false ∧
      p.taken ++ p.queue = p.accepted ∧
      (p.queue ≠ [] → ∃ worker ∈ p.workers, worker.alive = true) := by
  have hinv := hrun.inv hkeeps
  refine ⟨⟨hinv.one_runs, (List.pairwise_append.mp hinv.order).1⟩, ?_, ?_, ?_, ?_, hinv.intact,
    Pool.pool_keeps_jobs hpool⟩
  · intro job hmem
    have hone := hinv.count_one (hinv.accounts _ hmem)
    refine ⟨hone, fun hqueue => ?_⟩
    rwa [hqueue, List.append_nil] at hone
  · intro job hmem
    have hnone : job ∉ s.started ++ s.queue := (hinv.accounts _ hmem).1
    rwa [List.mem_append, not_or] at hnone
  · intro hqueue
    obtain ⟨thread, hmem, hact⟩ := hinv.in_charge hqueue
    refine ⟨?_, ⟨thread, hmem, hact⟩, hinv.goes_on hmem hact⟩
    cases hs : s.scheduled with
    | true => rfl
    | false => exact absurd (hinv.idle hs) hqueue
  · intro e s' hcall hstep
    exact hinv.remaining_lt hcall hstep

lemma Runs.append {maxQueued : ℕ} {s s' : Strand} {h es : List Event} (hrun : Runs maxQueued h s)
    (hes : es.foldlM step s = some s') : Runs maxQueued (h ++ es) s' := by
  induction es generalizing h s with
  | nil =>
    cases hes
    rwa [List.append_nil]
  | cons e es ih =>
    rw [List.foldlM_cons] at hes
    obtain ⟨s₁, hstep, hrest⟩ := Option.bind_eq_some_iff.mp hes
    have hnext := ih (hrun.next ⟨e, rfl, hstep⟩) hrest
    rwa [List.append_assoc] at hnext

/-- A post that failed behind another one leaves the other's job to its second drain. -/
theorem failed_post_hands_on :
    ∃ s : Strand, s.started = [1] ∧ s.threads.countP Thread.isRunning ≤ 1 ∧ s.broken = false := by
  have hrun := @Runs.append 0 _ _ [] [.post, .post, .submit 0 false, .recover 0, .resubmit 0 true,
    .start 2, .take 2] .start rfl
  have hall := strand_runs_jobs hrun (by simp [Event.Keeps])
    (Pool.Reachable.start : Pool.Reachable {} {})
  exact ⟨_, rfl, hall.1.1, hall.2.2.2.2.2.1⟩

/-- When the second `submit` throws too, the job that was posted in between waits with no drain, and
the next post that fails takes it back in place of its own. -/
theorem job_is_stranded :
    (∃ s : Strand, Runs 0
        [.post, .post, .submit 0 false, .recover 0, .resubmit 0 false, .giveUp 0] s ∧
      s.queue = [1] ∧ .returned 1 ∈ s.threads ∧ s.scheduled = false ∧
      s.threads.countP Thread.active = 0) ∧
    ∃ s : Strand, Runs 0
        [.post, .post, .submit 0 false, .recover 0, .resubmit 0 false, .giveUp 0,
          .post, .submit 2 false, .recover 2, .resubmit 2 true, .start 3, .take 3, .done 3,
          .check 3] s ∧
      s.queue = [] ∧ .returned 1 ∈ s.threads ∧ 1 ∉ s.started ∧ .threw 2 ∈ s.threads ∧
      2 ∈ s.started :=
  ⟨⟨_, Runs.append .start rfl, by decide⟩, ⟨_, Runs.append .start rfl, by decide⟩⟩

end Strand

end Runtime

end ArgusBackend
