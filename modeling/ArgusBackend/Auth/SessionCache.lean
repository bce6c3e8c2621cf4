import ArgusBackend.Library.Crews
import ArgusBackend.Library.Places
import ArgusBackend.Library.Table

/-!
# The session contexts that auth keeps

A session is answered with who its user is, which identity knows.  The answer is kept for a while
and forgotten when identity says that the user has changed; an answer may be on its way meanwhile.

* `SessionContextCache.hit`, `insert`, `forget` : what is done under the mutex;
* `resolve` : a look at the cache, the generation, the question to identity, and the insertion;
* `Guarded` : what the generation says about the answers that are on their way;
* `forgotten_not_served` : every run.
-/

namespace ArgusBackend

namespace Auth.SessionCache

open Places

/-! ### The cache -/

/-- What identity says of a user. -/
structure UserIdentity where
  userId : ℤ
  name : String
  lastName : String
  lang : String
  role : String
  isActive : Bool
  deriving DecidableEq

/-- What identity answers. -/
structure GetUserResponse where
  user : Option UserIdentity
  /-- how many times a user was forgotten before, which is not sent -/
  fetched : ℕ
  deriving DecidableEq

/-- What requests are told of a user, and which look at identity it comes from. -/
structure UserContext where
  userId : ℤ
  name : String
  lastName : String
  lang : String
  role : String
  isActive : Bool
  /-- how many times a user was forgotten before identity gave it, which is not kept -/
  fetched : ℕ
  deriving DecidableEq

/-- What is told of a user whom identity knows. -/
def contextOf (user : UserIdentity) (fetched : ℕ) : UserContext where
  userId := user.userId
  name := user.name
  lastName := user.lastName
  lang := user.lang
  role := user.role
  isActive := user.isActive
  fetched

/-- A context and when it is out of date. -/
structure Entry where
  context : UserContext
  expiresAtMs : ℤ
  deriving DecidableEq

/-- The contexts by user, and how often something was forgotten. -/
structure SessionContextCache where
  entries : Table ℤ Entry := ∅
  generation : ℤ := 0

namespace SessionContextCache

variable (cache : SessionContextCache) (userId : ℤ)

/-- The context of a user, if it is not out of date. -/
def hit (nowMs : ℤ) : Option UserContext × SessionContextCache :=
  match cache.entries.lookup userId with
  | none => (none, cache)
  | some entry =>
    if entry.expiresAtMs ≤ nowMs then (none, { cache with entries := cache.entries.erase userId })
    else (some entry.context, cache)

/-- The part of `resolve` that puts an answer into the cache. -/
def insert (context : UserContext) (expiresAtMs generationAtFetch : ℤ) : SessionContextCache :=
  if cache.generation = generationAtFetch then
    { cache with entries := cache.entries.insert userId ⟨context, expiresAtMs⟩ }
  else cache

/-- The context of a user is dropped. -/
def forget : SessionContextCache where
  entries := cache.entries.erase userId
  generation := cache.generation + 1

end SessionContextCache

/-! ### The calls -/

/-- The cache and what was forgotten. -/
structure World where
  cache : SessionContextCache := {}
  /-- the users that were forgotten, in order -/
  forgotten : List ℤ := []

/-- What a call of `resolve` returned, and how many times a user was forgotten before it began. -/
structure Reply where
  userId : ℤ
  begun : ℕ
  result : Option UserContext
  deriving DecidableEq

/-- What a request awaits. -/
inductive Op where
  | begin
  | hit (userId : ℤ)
  | generation
  | getUser (userId : ℤ)
  | nowMs
  | insert (userId : ℤ) (context : UserContext) (expiresAtMs generationAtFetch : ℤ)
  | reply (userId : ℤ) (begun : ℕ) (result : Option UserContext)
  | forget (userId : ℤ)
  deriving DecidableEq

/-- What each of them answers. -/
@[reducible] def Op.Ans : Op → Type
  | .begin => ℕ
  | .hit _ => Option UserContext
  | .generation | .nowMs => ℤ
  | .getUser _ => Option GetUserResponse
  | _ => Unit

/-- The clock, and what identity has to say. -/
structure Env where
  nowMs : ℤ := 0
  answer : Option (Option UserIdentity) := none

/-- The answer of an operation, what is replied, and the cache after it. -/
def exec (env : Env) (op : Op) (s : World) : op.Ans × List Reply × World :=
  match op with
  | .begin => (s.forgotten.length, [], s)
  | .hit userId =>
    let (cached, cache) := s.cache.hit userId env.nowMs
    (cached, [], { s with cache })
  | .generation => (s.cache.generation, [], s)
  | .getUser _ => (env.answer.map fun user => ⟨user, s.forgotten.length⟩, [], s)
  | .nowMs => (env.nowMs, [], s)
  | .insert userId context expiresAtMs generationAtFetch =>
    ((), [], { s with cache := s.cache.insert userId context expiresAtMs generationAtFetch })
  | .reply userId begun result => ((), [⟨userId, begun, result⟩], s)
  | .forget userId =>
    ((), [], { cache := s.cache.forget userId, forgotten := s.forgotten ++ [userId] })

/-- A task of the cache. -/
abbrev CacheTask := Task Op Op.Ans

/-- Await an operation. -/
def ask (op : Op) : CacheTask op.Ans := Task.call op

/-- How long a context is kept. -/
structure Config where
  ttlSeconds : ℤ := 30
  deriving DecidableEq

/-- A context is stored, if nothing was forgotten since it was fetched. -/
def keep (config : Config) (userId : ℤ) (context : UserContext) (generationAtFetch : ℤ) :
    CacheTask Unit := do
  let now ← ask .nowMs
  ask (.insert userId context (now + config.ttlSeconds * 1000) generationAtFetch)

/-- `resolve` -/
def resolve (config : Config) (identity : Bool) (userId : ℤ) : CacheTask (Option UserContext) :=
  if userId ≤ 0 then pure none
  else do
    let cached ← ask (.hit userId)
    match cached with
    | some context => pure (some context)
    | none =>
      if !identity then pure none
      else do
        let generationAtFetch ← ask .generation
        let answer ← ask (.getUser userId)
        match answer with
        | none => pure none
        | some ⟨none, _⟩ => pure none
        | some ⟨some user, fetched⟩ =>
          let context := contextOf user fetched
          if config.ttlSeconds > 0 then
            keep config userId context generationAtFetch
          pure (some context)

/-- A context is asked for, or a user forgotten. -/
inductive Request where
  | resolve (userId : ℤ)
  | forget (userId : ℤ)
  deriving DecidableEq

/-- What serves a request. -/
def program (config : Config) (identity : Bool) : Request → CacheTask Unit
  | .resolve userId => do
    let begun ← ask .begin
    let result ← resolve config identity userId
    ask (.reply userId begun result)
  | .forget userId => ask (.forget userId)

/-- Where a call stands, and what it has seen. -/
inductive Call where
  | idle
  | begun (begun : ℕ)
  | served (begun : ℕ) (fetched : ℕ)
  | read (begun : ℕ) (generation : ℤ)
  | fetched (begun : ℕ) (generation : ℤ) (fetched : ℕ)
  deriving DecidableEq

/-- How far a request has come once an operation is answered. -/
def Call.after : Call → (op : Op) → Option op.Ans → Call
  | _, .begin, some n => .begun n
  | .begun n, .hit _, some (some context) => .served n context.fetched
  | .begun n, .generation, some generation => .read n generation
  | .read n generation, .getUser _, some (some response) =>
    .fetched n generation response.fetched
  | k, _, _ => k

/-- The question to identity is asked on another thread, and may fail. -/
def workshop (config : Config) (identity : Bool) :
    Workshop World Reply Call Env Request Op Op.Ans where
  exec := exec
  program := program config identity
  first _ := .idle
  after := Call.after
  fallible
    | .getUser _ => true
    | _ => false

/-! ### What is not served -/

/-- Of the first times a user was forgotten all were before the answer. -/
def Since (forgotten : List ℤ) (userId : ℤ) (begun fetched : ℕ) : Prop :=
  begun ≤ forgotten.length ∧ ∀ i < begun, forgotten[i]? = some userId → i < fetched

/-- What a call has in hand.  The generation it has read is at least as old as the answer. -/
def Call.Sound (forgotten : List ℤ) (userId : ℤ) : Call → Prop
  | .idle => True
  | .begun n => n ≤ forgotten.length
  | .served n t => Since forgotten userId n t
  | .read n generation => (n : ℤ) ≤ generation ∧ generation ≤ forgotten.length
  | .fetched n generation t => (n : ℤ) ≤ generation ∧ generation ≤ t ∧ t ≤ forgotten.length

/-- The user of a call. -/
def Request.userId : Request → ℤ
  | .resolve userId => userId
  | .forget userId => userId

/-- What a context in the cache or in a reply comes from. -/
structure Guarded (h : List Reply) (s : World) (ks : List (Request × Call)) : Prop where
  generation : s.cache.generation = s.forgotten.length
  entries : ∀ userId entry, s.cache.entries.lookup userId = some entry →
    Since s.forgotten userId s.forgotten.length entry.context.fetched
  calls : ∀ r ∈ ks, r.2.Sound s.forgotten r.1.userId
  replies : ∀ reply ∈ h, ∀ context, reply.result = some context →
    Since s.forgotten reply.userId reply.begun context.fetched

/-- A call inserts and returns what it has in hand. -/
def protocol (req : Request) : Protocol Call.after where
  allowed k op :=
    match op with
    | .begin => k = .idle
    | .hit userId => (∃ begun, k = .begun begun) ∧ userId = req.userId
    | .generation => ∃ begun, k = .begun begun
    | .getUser _ => ∃ begun generation, k = .read begun generation
    | .nowMs => True
    | .insert userId context _ generation =>
      (∃ begun, k = .fetched begun generation context.fetched) ∧ userId = req.userId
    | .reply userId begun result => userId = req.userId ∧ ∀ context, result = some context →
        k = .served begun context.fetched ∨
          ∃ generation, k = .fetched begun generation context.fetched
    | .forget _ => True

section Steps

variable {h : List Reply} {s : World} {ks : List (Request × Call)} {i : ℕ} {req : Request}
  {k : Call} {op : Op} {forgotten : List ℤ} {userId v : ℤ} {n m t : ℕ}

lemma Since.of_le (hn : n ≤ forgotten.length) (hle : n ≤ t) : Since forgotten userId n t :=
  ⟨hn, fun _ hi _ => hi.trans_le hle⟩

lemma Since.mono (h : Since forgotten userId m t) (hle : n ≤ m) : Since forgotten userId n t :=
  ⟨hle.trans h.1, fun i hi => h.2 i (hi.trans_le hle)⟩

/-- A user that is forgotten later is not among the first. -/
lemma Since.append (h : Since forgotten userId n t) : Since (forgotten ++ [v]) userId n t := by
  refine ⟨h.1.trans (by simp), fun i hi hat => h.2 i hi ?_⟩
  rwa [List.getElem?_append_left (hi.trans_le h.1)] at hat

/-- Another user is forgotten. -/
lemma Since.append_ne (h : Since forgotten userId forgotten.length t) (hne : userId ≠ v) :
    Since (forgotten ++ [v]) userId (forgotten ++ [v]).length t := by
  refine ⟨le_rfl, fun i hi hat => ?_⟩
  rcases Nat.lt_or_ge i forgotten.length with hlt | hge
  · rw [List.getElem?_append_left hlt] at hat
    exact h.2 i hlt hat
  · -- the last one is not this user
    have hlast : i = forgotten.length := by
      rw [List.length_append, List.length_singleton] at hi
      omega
    rw [hlast, List.getElem?_concat_length] at hat
    exact absurd (Option.some.inj hat).symm hne

lemma Call.Sound.append (h : k.Sound forgotten userId) : k.Sound (forgotten ++ [v]) userId := by
  have hlength : (forgotten ++ [v]).length = forgotten.length + 1 := by simp
  cases k with
  | idle => trivial
  | begun n => exact Nat.le_trans h (hlength ▸ Nat.le_succ _)
  | served n t => exact Since.append h
  | read n generation =>
    obtain ⟨hn, hgeneration⟩ := h
    exact ⟨hn, by rw [hlength]; omega⟩
  | fetched n generation t =>
    obtain ⟨hn, hgeneration, ht⟩ := h
    exact ⟨hn, hgeneration, by omega⟩

/-- What a call has in hand when it returns it. -/
lemma Call.Sound.since (h : k.Sound forgotten userId)
    (hk : k = .served n t ∨ ∃ generation, k = .fetched n generation t) :
    Since forgotten userId n t := by
  rcases hk with rfl | ⟨generation, rfl⟩
  · exact h
  · obtain ⟨hn, hgeneration, ht⟩ := h
    exact .of_le (by omega) (by omega)

lemma Guarded.set {k' : Call} (hG : Guarded h s ks) (hk : k'.Sound s.forgotten req.userId) :
    ∀ r ∈ ks.set i (req, k'), r.2.Sound s.forgotten r.1.userId := by
  intro r hr
  rcases List.mem_or_eq_of_mem_set hr with hold | rfl
  · exact hG.calls r hold
  · exact hk

lemma guarded_hit (hG : Guarded h s ks) (hk : k.Sound s.forgotten req.userId) (nowMs : ℤ)
    (hbegun : k = .begun n) :
    Guarded h { s with cache := (s.cache.hit req.userId nowMs).2 }
      (ks.set i (req, k.after (.hit req.userId) (some (s.cache.hit req.userId nowMs).1))) := by
  subst hbegun
  unfold SessionContextCache.hit
  cases hentry : s.cache.entries.lookup req.userId with
  | none => exact ⟨hG.generation, hG.entries, hG.set hk, hG.replies⟩
  | some entry =>
    dsimp only
    split
    · refine ⟨hG.generation, fun userId entry' hlookup => ?_, hG.set hk, hG.replies⟩
      by_cases hsame : userId = req.userId
      · subst hsame
        rw [AList.lookup_erase] at hlookup
        cases hlookup
      · rw [AList.lookup_erase_ne hsame] at hlookup
        exact hG.entries userId entry' hlookup
    · exact ⟨hG.generation, hG.entries, hG.set ((hG.entries _ entry hentry).mono hk), hG.replies⟩

/-- An answer is inserted when no user was forgotten since the generation was read. -/
lemma guarded_insert (hG : Guarded h s ks) {context : UserContext} {generation : ℤ}
    (hk : k.Sound s.forgotten req.userId) (expiresAtMs : ℤ)
    (hfetched : k = .fetched n generation context.fetched) :
    Guarded h { s with cache := s.cache.insert req.userId context expiresAtMs generation } ks := by
  unfold SessionContextCache.insert
  split
  next hsame =>
    refine ⟨hG.generation, fun userId entry hlookup => ?_, hG.calls, hG.replies⟩
    by_cases huser : userId = req.userId
    · subst huser
      rw [AList.lookup_insert] at hlookup
      obtain rfl := Option.some.inj hlookup
      rw [hfetched] at hk
      obtain ⟨-, hgeneration, ht⟩ := hk
      have hnow := hG.generation
      exact .of_le le_rfl (by dsimp only; omega)
    · rw [AList.lookup_insert_ne huser] at hlookup
      exact hG.entries userId entry hlookup
  next => exact hG

lemma guarded_forget (hG : Guarded h s ks) (userId : ℤ) :
    Guarded h { cache := s.cache.forget userId, forgotten := s.forgotten ++ [userId] } ks where
  generation := by
    rw [SessionContextCache.forget, hG.generation]
    simp
  entries v entry hlookup := by
    rw [SessionContextCache.forget] at hlookup
    by_cases hsame : v = userId
    · subst hsame
      rw [AList.lookup_erase] at hlookup
      cases hlookup
    · rw [AList.lookup_erase_ne hsame] at hlookup
      exact (hG.entries v entry hlookup).append_ne hsame
  calls r hr := (hG.calls r hr).append
  replies reply hreply context hresult := (hG.replies reply hreply context hresult).append

lemma guarded_exec (env : Env) (hG : Guarded h s ks) (hi : ks[i]? = some (req, k))
    (hallowed : (protocol req).allowed k op) :
    Guarded (h ++ (exec env op s).2.1) (exec env op s).2.2
      (ks.set i (req, k.after op (some (exec env op s).1))) := by
  have hk := hG.calls (req, k) (List.mem_of_getElem? hi)
  -- the other operations leave the phase
  have hstays : ∀ {op r}, k.after op r = k → ks.set i (req, k.after op r) = ks := fun heq => by
    rw [heq, set_self hi]
  cases op with
  | begin =>
    obtain rfl : k = .idle := hallowed
    rw [exec, List.append_nil]
    exact ⟨hG.generation, hG.entries, hG.set (le_refl _), hG.replies⟩
  | hit userId =>
    obtain ⟨⟨n, hbegun⟩, rfl⟩ := hallowed
    rw [exec, List.append_nil]
    exact guarded_hit hG hk env.nowMs hbegun
  | generation =>
    obtain ⟨n, rfl⟩ := hallowed
    rw [exec, List.append_nil]
    have hn : n ≤ s.forgotten.length := hk
    have hnow := hG.generation
    exact ⟨hG.generation, hG.entries, hG.set ⟨by omega, Int.le_of_eq hnow⟩, hG.replies⟩
  | getUser userId =>
    obtain ⟨n, generation, rfl⟩ := hallowed
    rw [exec, List.append_nil]
    refine ⟨hG.generation, hG.entries, hG.set ?_, hG.replies⟩
    cases env.answer with
    | none => exact hk
    | some user => exact ⟨hk.1, hk.2, le_rfl⟩
  | nowMs =>
    rw [hstays (by cases k <;> rfl), exec, List.append_nil]
    exact hG
  | insert userId context expiresAtMs generation =>
    obtain ⟨⟨n, hfetched⟩, rfl⟩ := hallowed
    rw [hstays (by cases k <;> rfl), exec, List.append_nil]
    exact guarded_insert hG hk expiresAtMs hfetched
  | reply userId n result =>
    obtain ⟨rfl, hresult⟩ := hallowed
    rw [hstays (by cases k <;> rfl), exec]
    refine ⟨hG.generation, hG.entries, hG.calls, fun reply hreply context hcontext => ?_⟩
    rcases List.mem_append.mp hreply with hold | hnew
    · exact hG.replies reply hold context hcontext
    · rw [List.mem_singleton.mp hnew] at hcontext ⊢
      exact hk.since (hresult context hcontext)
  | forget userId =>
    rw [hstays (by cases k <;> rfl), exec, List.append_nil]
    exact guarded_forget hG userId

lemma guarded_spawn (hG : Guarded h s ks) : Guarded h s (ks ++ [(req, .idle)]) :=
  ⟨hG.generation, hG.entries, fun r hr => by
    rcases List.mem_append.mp hr with hold | hnew
    · exact hG.calls r hold
    · rw [List.mem_singleton.mp hnew]
      exact trivial, hG.replies⟩

/-- What a call of `resolve` has in hand when it returns a result. -/
def Holds (n : ℕ) (result : Option UserContext) (k : Call) : Prop :=
  ∀ context, result = some context →
    k = .served n context.fetched ∨ ∃ generation, k = .fetched n generation context.fetched

lemma obeys_resolve (config : Config) (identity : Bool) (hreq : req.userId = userId) :
    (resolve config identity userId).Obeys (protocol req)
      (fun result k => ∀ r, result = some r → Holds n r k) (.begun n) := by
  subst hreq
  have hnone : ∀ {k}, Holds n none k := fun _ h => nomatch h
  unfold resolve
  split
  next => exact fun r hr => Option.some.inj hr ▸ hnone
  refine Task.obeys_call ⟨⟨n, rfl⟩, rfl⟩ (fun _ r hr => nomatch hr) fun cached _ => ?_
  cases cached with
  | some context =>
    intro r hr context' hcontext
    obtain rfl := Option.some.inj hr
    obtain rfl := Option.some.inj hcontext
    exact .inl rfl
  | none =>
    dsimp only
    split
    next => exact fun r hr => Option.some.inj hr ▸ hnone
    refine Task.obeys_call ⟨n, rfl⟩ (fun _ r hr => nomatch hr) fun generation _ => ?_
    refine Task.obeys_call ⟨n, generation, rfl⟩ (fun _ r hr => nomatch hr) fun answer _ => ?_
    match answer with
    | none => exact fun r hr => Option.some.inj hr ▸ hnone
    | some ⟨none, _⟩ => exact fun r hr => Option.some.inj hr ▸ hnone
    | some ⟨some user, t⟩ =>
      have hholds : Holds n (some (contextOf user t)) (.fetched n generation t) := by
        rintro context ⟨⟩
        exact .inr ⟨generation, rfl⟩
      dsimp only
      split
      next =>
        refine Task.obeys_bind (Q := fun _ k => k = .fetched n generation t) ?_
          (fun _ _ r hr => nomatch hr) fun _ k hk r hr => ?_
        · exact Task.obeys_call trivial (fun _ => rfl) fun now _ =>
            Task.obeys_last ⟨⟨n, rfl⟩, rfl⟩ fun r _ => by cases r <;> rfl
        · exact Option.some.inj hr ▸ hk ▸ hholds
      next => exact fun r hr => Option.some.inj hr ▸ hholds

lemma obeys_program (config : Config) (identity : Bool) (req : Request) :
    ((workshop config identity).program req).Obeys (protocol req) (fun _ _ => True) .idle := by
  cases req with
  | resolve userId =>
    refine Task.obeys_call rfl (fun _ => trivial) fun n _ => ?_
    refine Task.obeys_bind (obeys_resolve config identity rfl) (fun _ _ => trivial) ?_
    exact fun result k hk => Task.obeys_last ⟨rfl, hk result rfl⟩ fun _ _ => trivial
  | forget userId => exact Task.obeys_last trivial fun _ _ => trivial

end Steps

/-- A call that begins after a user was forgotten does not return what identity gave before: of the
forgets that a call found done when it began, those of its user were before its answer. -/
theorem forgotten_not_served (config : Config) (identity : Bool) {h : List Reply}
    {c : Crew World Call Request Op Op.Ans}
    (hrun : Run (Crew.Step (workshop config identity) Crew.Free) ⟨{}, []⟩ h c) :
    ∀ reply ∈ h, ∀ context, reply.result = some context →
      ∀ i < reply.begun, c.shared.forgotten[i]? = some reply.userId → i < context.fetched := by
  have hguarded := (Crew.invariant protocol (J := Guarded) hrun
    ⟨rfl, fun _ _ hlookup => by simp at hlookup, fun _ hr => absurd hr List.not_mem_nil,
      fun _ hreply => absurd hreply List.not_mem_nil⟩
    (obeys_program config identity) (fun _ _ _ _ hG => guarded_spawn hG)
    (fun _ _ _ _ _ _ env _ hG hi hallowed _ => ⟨trivial, guarded_exec env hG hi hallowed⟩)
    (fun _ _ _ _ _ k op hG hi _ hfallible => ⟨trivial, ?_⟩)).1
  · exact fun reply hreply context hresult => (hguarded.replies reply hreply context hresult).2
  · -- a question that fails leaves the phase
    cases op with
    | getUser userId =>
      rw [show (workshop config identity).after k (.getUser userId) none = k by cases k <;> rfl,
        set_self hi]
      exact hG
    | _ => exact Bool.noConfusion hfallible

/-- A user is forgotten while an answer is on its way. -/
def turns (env : Env) : List (Turn Env Request) :=
  [.spawn (.resolve 7)] ++ List.replicate 4 (.run 0 env) ++ [.spawn (.forget 7), .run 1 env] ++
    List.replicate 3 (.run 0 env) ++ [.spawn (.resolve 7)] ++ List.replicate 7 (.run 2 env)

/-- Identity knows the user 7. -/
def known : Env where
  answer := some (some ⟨7, "Ana", "", "es", "owner", true⟩)

theorem forgotten_not_served_late :
    ∃ h c, Run (Crew.Step (workshop {} true) Crew.Free) ⟨{}, []⟩ h c ∧
      h.map (fun reply => (reply.begun, reply.result.map (·.fetched))) =
        [(0, some 0), (1, some 1)] ∧
      ∀ reply ∈ h, ∀ context, reply.result = some context →
        ∀ i < reply.begun, c.shared.forgotten[i]? = some reply.userId → i < context.fetched := by
  have hplay : (Crew.play (workshop {} true) ⟨{}, []⟩ (turns known)).map
      (fun r => r.2.map fun reply => (reply.begun, reply.result.map (·.fetched))) =
        some [(0, some 0), (1, some 1)] := by decide +kernel
  obtain ⟨⟨c, h⟩, hplay, hreplies⟩ := Option.map_eq_some_iff.mp hplay
  have hrun := Crew.run_of_play hplay .start
  exact ⟨h, c, hrun, hreplies, forgotten_not_served {} true hrun⟩

end Auth.SessionCache

end ArgusBackend
