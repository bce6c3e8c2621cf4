import ArgusBackend.Library.Crews
import Mathlib.Data.Finset.Sort
import Mathlib.Data.Rat.Defs
import Mathlib.Algebra.Order.Field.Rat
import Mathlib.Logic.Function.Basic

/-!
# The changes of an episode

Every observation of an open encounter touches its episode.  `EpisodeChangeGate` records the first
touch of a window at once; a touch inside the window leaves a mark, and a tick records what is
marked when the window has passed.  A call reads the clock, works under the lock, and awaits the
record without it.

* `EpisodeChangeGate` : the marks, and the episodes with a touch that is still to be recorded;
* `workshop` : any number of touches and ticks side by side, one block at a time;
* `Trailing` : what every run keeps whose calls take no mark that is still needed;
* `changes_recorded` : no trailing change is dropped in such a run.
-/

namespace ArgusBackend

namespace Guard

namespace Episodes

/-- What is left of a run: a touch began, or a record that names some episodes. -/
inductive Note where
  | touched (encounterId : ℤ)
  | recorded (ids : List ℤ)
  deriving DecidableEq

/-- When episodes were recorded, which wait, and what is owed. -/
structure EpisodeChangeGate where
  publishedAt_ : ℤ → Option ℤ := fun _ => none
  dirty_ : Finset ℤ := ∅
  /-- the time that the clock showed last -/
  clock : ℤ := 0
  /-- the episodes that were touched since the last record that names them -/
  owed : ℤ → Bool := fun _ => false

namespace EpisodeChangeGate

variable (g : EpisodeChangeGate)

/-- The window of an episode has elapsed. -/
def dueLocked (publishSeconds : ℚ) (encounterId now : ℤ) : Bool :=
  match g.publishedAt_ encounterId with
  | none => true
  | some published => publishSeconds ≤ ((now - published : ℤ) : ℚ)

/-- The block of `touch`: whether the change is recorded at once; otherwise it leaves a mark. -/
def check (publishSeconds : ℚ) (encounterId now : ℤ) : Bool × EpisodeChangeGate :=
  if g.dueLocked publishSeconds encounterId now then (true, g)
  else (false, { g with dirty_ := insert encounterId g.dirty_ })

/-- The block of `flush`: the marked episodes whose window has passed. -/
def collect (publishSeconds : ℚ) (now : ℤ) : List ℤ :=
  (g.dirty_.filter fun id => g.dueLocked publishSeconds id now).sort (· ≤ ·)

/-- The block after a record. -/
def finish (ids : List ℤ) (now : ℤ) : EpisodeChangeGate :=
  { g with
    publishedAt_ := fun id => if id ∈ ids then some now else g.publishedAt_ id
    dirty_ := g.dirty_ \ ids.toFinset }

/-- An episode has changed. -/
def touched (encounterId : ℤ) : EpisodeChangeGate :=
  { g with owed := Function.update g.owed encounterId true }

/-- The changes of some episodes are recorded. -/
def recorded (ids : List ℤ) : EpisodeChangeGate :=
  { g with owed := fun id => !(id ∈ ids) && g.owed id }

/-- The clock does not go back. -/
def tick (elapsed : ℕ) : EpisodeChangeGate := { g with clock := g.clock + elapsed }

@[simp] theorem tick_owed (elapsed : ℕ) : (g.tick elapsed).owed = g.owed := rfl

@[simp] theorem tick_dirty (elapsed : ℕ) : (g.tick elapsed).dirty_ = g.dirty_ := rfl

end EpisodeChangeGate

/-! ### One block at a time -/

/-- What the requests await. -/
inductive Op where
  /-- a touch begins, and reads the clock -/
  | begin (encounterId : ℤ)
  /-- a flush reads the clock -/
  | now
  | check (encounterId now : ℤ)
  | collect (now : ℤ)
  | record (ids : List ℤ)
  | finish (ids : List ℤ) (now : ℤ)
  /-- `published`, which is one block -/
  | published (encounterId : ℤ)
  deriving DecidableEq

/-- What each of them answers. -/
@[reducible] def Op.Ans : Op → Type
  | .begin _ | .now => ℤ
  | .check _ _ => Bool
  | .collect _ => List ℤ
  | _ => Unit

variable (publishSeconds : ℚ)

/-- The answer of an operation, what is noted of it, and the gate after it. -/
def exec (elapsed : ℕ) (op : Op) (g : EpisodeChangeGate) :
    op.Ans × List Note × EpisodeChangeGate :=
  match op with
  | .begin encounterId =>
    ((g.tick elapsed).clock, [.touched encounterId], (g.tick elapsed).touched encounterId)
  | .now => ((g.tick elapsed).clock, [], g.tick elapsed)
  | .check encounterId now =>
    ((g.check publishSeconds encounterId now).1, [], (g.check publishSeconds encounterId now).2)
  | .collect now => (g.collect publishSeconds now, [], g)
  | .record ids => ((), [.recorded ids], g.recorded ids)
  | .finish ids now => ((), [], g.finish ids now)
  | .published encounterId =>
    ((), [], (g.tick elapsed).finish [encounterId] (g.tick elapsed).clock)

/-- A task of the gate. -/
abbrev GateTask := Task Op Op.Ans

/-- Await an operation. -/
def ask (op : Op) : GateTask op.Ans := Task.call op

/-- `touch` -/
def touch (encounterId : ℤ) : GateTask Unit := do
  if encounterId ≤ 0 then
    pure ()
  else
    let now ← ask (.begin encounterId)
    let due ← ask (.check encounterId now)
    if due then
      ask (.record [encounterId])
      ask (.finish [encounterId] now)
    else
      pure ()

/-- `published` -/
def published (encounterId : ℤ) : GateTask Unit := do
  if encounterId ≤ 0 then
    pure ()
  else
    ask (.published encounterId)

/-- `flush` -/
def flush : GateTask Unit := do
  let now ← ask .now
  let ready ← ask (.collect now)
  if ready = [] then
    pure ()
  else
    let recorded ← (ask (.record ready)).attempt
    match recorded with
    | none => pure ()
    | some _ => ask (.finish ready now)

/-- An episode changes or was published, or the timer ticks. -/
inductive Request where
  | touch (encounterId : ℤ)
  | published (encounterId : ℤ)
  | flush
  deriving DecidableEq

/-- How far a call has come. -/
inductive Phase where
  | fresh
  /-- a touch that has yet to look at the window -/
  | begun (encounterId now : ℤ)
  | timed (now : ℤ)
  /-- the call is about to record -/
  | bound (ids : List ℤ) (now : ℤ)
  | recorded (ids : List ℤ) (now : ℤ)
  | over
  deriving DecidableEq

/-- How far a request has come once an operation is answered, or has thrown. -/
def Phase.after (k : Phase) : (op : Op) → Option op.Ans → Phase
  | .begin encounterId, some now => .begun encounterId now
  | .now, some now => .timed now
  | .check encounterId now, some due => if due then .bound [encounterId] now else .over
  | .collect now, some ready => .bound ready now
  | .record _, some _ =>
    match k with
    | .bound ids now => .recorded ids now
    | _ => k
  | .finish _ _, some _ | .published _, some _ => .over
  | _, none => k

/-- The call is still to mark the episode or to record it. -/
def Phase.comes (encounterId : ℤ) : Phase → Bool
  | .begun e _ => e = encounterId
  | .bound ids _ => encounterId ∈ ids
  | _ => false

/-- The requests on the gate. -/
def workshop : Workshop EpisodeChangeGate Note Phase ℕ Request Op Op.Ans where
  exec := exec publishSeconds
  program
    | .touch encounterId => touch encounterId
    | .published encounterId => published encounterId
    | .flush => flush
  first _ := .fresh
  after := Phase.after

/-- The gate, and the requests that are under way. -/
abbrev Gate := Crew EpisodeChangeGate Phase Request Op Op.Ans

/-- A gate that no call has come to. -/
def start : Gate := ⟨{}, []⟩

/-- A call under way is still to mark the episode or to record it. -/
def Coming (encounterId : ℤ) (ks : List (Request × Phase)) : Prop :=
  ∃ r ∈ ks, r.2.comes encounterId = true

instance (encounterId : ℤ) (ks : List (Request × Phase)) : Decidable (Coming encounterId ks) :=
  inferInstanceAs (Decidable (∃ r ∈ ks, r.2.comes encounterId = true))

/-- No mark is taken from an episode that was touched since the last record of it, unless a call
under way is still to record it. -/
def Keeps (g : EpisodeChangeGate) (ks : List (Request × Phase)) (_ : Phase) : Op → Prop
  | .finish ids _ => ∀ e ∈ ids, g.owed e = true → Coming e ks
  | .published e => g.owed e = true → Coming e ks
  | _ => True

instance : ∀ g ks k op, Decidable (Keeps g ks k op)
  | g, ks, _, .finish ids _ =>
    inferInstanceAs (Decidable (∀ e ∈ ids, g.owed e = true → Coming e ks))
  | g, ks, _, .published e => inferInstanceAs (Decidable (g.owed e = true → Coming e ks))
  | _, _, _, .begin _ | _, _, _, .now | _, _, _, .check _ _ | _, _, _, .collect _
  | _, _, _, .record _ => inferInstanceAs (Decidable True)

/-- Every touch of the episode is followed by a record that names it. -/
def Settled (encounterId : ℤ) (h : List Note) : Prop :=
  ∀ before after, h = before ++ .touched encounterId :: after →
    ∃ ids, encounterId ∈ ids ∧ .recorded ids ∈ after

/-- What a call awaits in a phase. -/
def Phase.allows : Phase → Op → Prop
  | .fresh, .begin _ | .fresh, .now | .fresh, .published _ => True
  | .begun e now, .check e' now' => e' = e ∧ now' = now
  | .timed now, .collect now' => now' = now
  | .bound ids _, .record ids' => ids' = ids
  | .recorded ids now, .finish ids' now' => ids' = ids ∧ now' = now
  | _, _ => False

/-- The operations that each phase allows; all of them are answered. -/
def protocol : Protocol Phase.after where
  allowed := Phase.allows
  answers _ _ r := r.isSome = true

/-- Who was touched since the last record is marked, or a call is still to come to it. -/
structure Trailing (h : List Note) (g : EpisodeChangeGate) (ks : List (Request × Phase)) :
    Prop where
  marked : ∀ e, g.owed e = true → e ∈ g.dirty_ ∨ Coming e ks
  settled : ∀ e, g.owed e = false ↔ Settled e h

section Notes

variable {h : List Note} {n : Note} {e e' : ℤ} {ids : List ℤ}

theorem split_concat {before after : List Note} {m : Note}
    (heq : h ++ [n] = before ++ m :: after) :
    (after = [] ∧ n = m) ∨ ∃ rest, after = rest ++ [n] ∧ h = before ++ m :: rest := by
  rcases List.eq_nil_or_concat' after with rfl | ⟨rest, last, rfl⟩
  · obtain ⟨-, hlast⟩ := List.append_inj' heq rfl
    exact .inl ⟨rfl, List.singleton_inj.1 hlast⟩
  · rw [← List.cons_append, ← List.append_assoc] at heq
    obtain ⟨hinit, hlast⟩ := List.append_inj' heq rfl
    exact .inr ⟨rest, by rw [List.singleton_inj.1 hlast], hinit⟩

theorem settled_nil : Settled e [] := fun before after heq => by simp at heq

theorem not_settled_touched : ¬Settled e (h ++ [.touched e]) := fun hsettled => by
  obtain ⟨ids, -, hmem⟩ := hsettled h [] rfl
  cases hmem

theorem settled_touched (hne : e' ≠ e) : Settled e (h ++ [.touched e']) ↔ Settled e h := by
  constructor
  · intro hsettled before after heq
    obtain ⟨ids, he, hmem⟩ := hsettled before (after ++ [.touched e']) (by simp [heq])
    exact ⟨ids, he, by simpa using hmem⟩
  · intro hsettled before after heq
    rcases split_concat heq with ⟨-, hn⟩ | ⟨rest, rfl, hinit⟩
    · exact absurd (Note.touched.inj hn) hne
    · obtain ⟨ids, he, hmem⟩ := hsettled before rest hinit
      exact ⟨ids, he, List.mem_append_left _ hmem⟩

theorem settled_recorded : Settled e (h ++ [.recorded ids]) ↔ e ∈ ids ∨ Settled e h := by
  constructor
  · intro hsettled
    refine or_iff_not_imp_left.2 fun hout before after heq => ?_
    obtain ⟨ids', he, hmem⟩ := hsettled before (after ++ [.recorded ids]) (by simp [heq])
    rcases List.mem_append.1 hmem with hmem | hmem
    · exact ⟨ids', he, hmem⟩
    · obtain rfl := Note.recorded.inj (List.mem_singleton.1 hmem)
      exact absurd he hout
  · rintro (he | hsettled) before after heq
    · rcases split_concat heq with ⟨-, hn⟩ | ⟨rest, rfl, -⟩
      · cases hn
      · exact ⟨ids, he, List.mem_append_right _ List.mem_cons_self⟩
    · rcases split_concat heq with ⟨-, hn⟩ | ⟨rest, rfl, hinit⟩
      · cases hn
      · obtain ⟨ids', he, hmem⟩ := hsettled before rest hinit
        exact ⟨ids', he, List.mem_append_left _ hmem⟩

end Notes

/-! ### What the calls keep -/

section Steps

variable {publishSeconds : ℚ} {h : List Note} {g : EpisodeChangeGate}
  {ks : List (Request × Phase)} {i : ℕ} {req : Request} {k k' : Phase} {op : Op} {e : ℤ}

theorem Coming.append (hcoming : Coming e ks) (r : Request × Phase) : Coming e (ks ++ [r]) := by
  obtain ⟨r', hr', hcomes⟩ := hcoming
  exact ⟨r', List.mem_append_left _ hr', hcomes⟩

/-- A call that goes on leaves the others under way, and itself as long as it is to come. -/
theorem Coming.set (hcoming : Coming e ks) (hi : ks[i]? = some (req, k))
    (hk : k.comes e = true → k'.comes e = true) : Coming e (ks.set i (req, k')) := by
  obtain ⟨r, hr, hcomes⟩ := hcoming
  obtain ⟨j, hj⟩ := List.mem_iff_getElem?.1 hr
  by_cases hij : i = j
  · subst hij
    obtain rfl : (req, k) = r := Option.some.inj (hi.symm.trans hj)
    have hlt := (List.getElem?_eq_some_iff.1 hi).1
    exact ⟨(req, k'), List.mem_of_getElem? (List.getElem?_set_self hlt), hk hcomes⟩
  · refine ⟨r, List.mem_of_getElem? (i := j) ?_, hcomes⟩
    rwa [List.getElem?_set_ne hij]

theorem coming_set_self (hi : ks[i]? = some (req, k)) (hk : k'.comes e = true) :
    Coming e (ks.set i (req, k')) :=
  ⟨(req, k'), List.mem_of_getElem? (List.getElem?_set_self (List.getElem?_eq_some_iff.1 hi).1), hk⟩

/-- A block that takes the marks of episodes which somebody still comes to. -/
theorem marked_finish {ids : List ℤ} {now : ℤ}
    (hmarked : ∀ e, g.owed e = true → e ∈ g.dirty_ ∨ Coming e ks) (hi : ks[i]? = some (req, k))
    (hk : ∀ e, k.comes e = false) (hkeeps : ∀ e ∈ ids, g.owed e = true → Coming e ks) :
    ∀ e, (g.finish ids now).owed e = true →
      e ∈ (g.finish ids now).dirty_ ∨ Coming e (ks.set i (req, .over)) := by
  have hset (e : ℤ) (hcoming : Coming e ks) : Coming e (ks.set i (req, .over)) :=
    hcoming.set hi fun hcomes => by simp [hk] at hcomes
  intro e howed
  by_cases he : e ∈ ids
  · exact .inr (hset e (hkeeps e he howed))
  · refine (hmarked e howed).imp (fun hdirty => ?_) (hset e)
    simp [EpisodeChangeGate.finish, hdirty, he]

/-- A record settles what was touched before it. -/
theorem settled_exec (elapsed : ℕ) (hsettled : g.owed e = false ↔ Settled e h) :
    (exec publishSeconds elapsed op g).2.2.owed e = false ↔
      Settled e (h ++ (exec publishSeconds elapsed op g).2.1) := by
  cases op with
  | begin encounterId =>
    by_cases he : e = encounterId
    · subst he
      simp [exec, EpisodeChangeGate.touched, not_settled_touched]
    · simp [exec, EpisodeChangeGate.touched, he, settled_touched (Ne.symm he), hsettled]
  | record ids =>
    simp only [exec, EpisodeChangeGate.recorded, settled_recorded, ← hsettled]
    by_cases he : e ∈ ids <;> simp [he]
  | check encounterId now =>
    cases hdue : g.dueLocked publishSeconds encounterId now <;>
      simpa [exec, EpisodeChangeGate.check, hdue] using hsettled
  | _ => simpa [exec, EpisodeChangeGate.finish] using hsettled

/-- What a block keeps. -/
theorem marked_exec (elapsed : ℕ) (hmarked : ∀ e, g.owed e = true → e ∈ g.dirty_ ∨ Coming e ks)
    (hi : ks[i]? = some (req, k)) (hallows : k.allows op) (hkeeps : Keeps g ks k op) :
    ∀ e, (exec publishSeconds elapsed op g).2.2.owed e = true →
      e ∈ (exec publishSeconds elapsed op g).2.2.dirty_ ∨
        Coming e (ks.set i (req, k.after op (some (exec publishSeconds elapsed op g).1))) := by
  intro e howed
  cases op with
  | begin encounterId =>
    obtain rfl : k = .fresh := by cases k <;> simp_all [Phase.allows]
    by_cases he : e = encounterId
    · exact .inr (coming_set_self hi (by simp [Phase.after, Phase.comes, he]))
    · have hbefore : g.owed e = true := by
        simpa [exec, EpisodeChangeGate.touched, he] using howed
      exact (hmarked e hbefore).imp id fun hcoming => hcoming.set hi fun hcomes => by cases hcomes
  | now =>
    obtain rfl : k = .fresh := by cases k <;> simp_all [Phase.allows]
    exact (hmarked e howed).imp id fun hcoming => hcoming.set hi fun hcomes => by cases hcomes
  | check encounterId now =>
    obtain ⟨e₀, now₀, rfl⟩ : ∃ e₀ now₀, k = .begun e₀ now₀ := by
      cases k <;> simp_all [Phase.allows]
    obtain ⟨rfl, rfl⟩ : encounterId = e₀ ∧ now = now₀ := hallows
    cases hdue : g.dueLocked publishSeconds encounterId now with
    | true =>
      -- the touch goes on to its record
      simp only [exec, EpisodeChangeGate.check, hdue, if_true] at howed ⊢
      refine (hmarked e howed).imp id fun hcoming => hcoming.set hi fun hcomes => ?_
      simpa [Phase.after, Phase.comes, eq_comm] using hcomes
    | false =>
      -- the touch leaves its mark
      simp only [exec, EpisodeChangeGate.check, hdue, Bool.false_eq_true, if_false] at howed ⊢
      by_cases he : e = encounterId
      · exact .inl (he ▸ Finset.mem_insert_self _ _)
      · refine (hmarked e howed).imp Finset.mem_insert_of_mem fun hcoming =>
          hcoming.set hi fun hcomes => ?_
        simp [Phase.comes, Ne.symm he] at hcomes
  | collect now =>
    obtain ⟨now₀, rfl⟩ : ∃ now₀, k = .timed now₀ := by cases k <;> simp_all [Phase.allows]
    exact (hmarked e howed).imp id fun hcoming => hcoming.set hi fun hcomes => by cases hcomes
  | record ids =>
    obtain ⟨ids₀, now, rfl⟩ : ∃ ids₀ now, k = .bound ids₀ now := by
      cases k <;> simp_all [Phase.allows]
    obtain rfl : ids = ids₀ := hallows
    obtain ⟨hout, hbefore⟩ : e ∉ ids ∧ g.owed e = true := by
      simpa [exec, EpisodeChangeGate.recorded] using howed
    refine (hmarked e hbefore).imp id fun hcoming => hcoming.set hi fun hcomes => ?_
    exact absurd (by simpa [Phase.comes] using hcomes) hout
  | finish ids now =>
    obtain ⟨ids₀, now₀, rfl⟩ : ∃ ids₀ now₀, k = .recorded ids₀ now₀ := by
      cases k <;> simp_all [Phase.allows]
    exact marked_finish hmarked hi (fun _ => rfl) hkeeps e howed
  | published encounterId =>
    obtain rfl : k = .fresh := by cases k <;> simp_all [Phase.allows]
    refine marked_finish (g := g.tick elapsed) hmarked hi (fun _ => rfl) (fun e' he' hstill => ?_)
      e howed
    obtain rfl := List.mem_singleton.1 he'
    exact hkeeps hstill

end Steps

section Runs

variable {publishSeconds : ℚ} {h h₂ notes : List Note} {c c₁ c₂ : Gate} {e : ℤ}

/-- A call that is over is not to come to any episode. -/
def Rests (_ : Option Unit) (k : Phase) : Prop := ∀ e, k.comes e = false

theorem obeys_program (req : Request) :
    ((workshop publishSeconds).program req).Obeys protocol Rests .fresh := by
  cases req with
  | touch encounterId =>
    simp only [workshop, touch]
    split
    next => exact fun _ => rfl
    next =>
      refine Task.obeys_call trivial (fun hr => Bool.noConfusion hr) fun now _ => ?_
      refine Task.obeys_call ⟨rfl, rfl⟩ (fun hr => Bool.noConfusion hr) fun due _ => ?_
      cases due with
      | false => exact fun _ => rfl
      | true =>
        refine Task.obeys_call rfl (fun hr => Bool.noConfusion hr) fun _ _ => ?_
        exact Task.obeys_last ⟨rfl, rfl⟩ fun r hr => by
          cases r with
          | none => cases hr
          | some _ => exact fun _ => rfl
  | published encounterId =>
    simp only [workshop, published]
    split
    next => exact fun _ => rfl
    next =>
      exact Task.obeys_last trivial fun r hr => by
        cases r with
        | none => cases hr
        | some _ => exact fun _ => rfl
  | flush =>
    simp only [workshop, flush]
    refine Task.obeys_call trivial (fun hr => Bool.noConfusion hr) fun now _ => ?_
    refine Task.obeys_call rfl (fun hr => Bool.noConfusion hr) fun ready _ => ?_
    split
    next hnone =>
      intro e
      simp [Phase.after, Phase.comes, hnone]
    next =>
      refine Task.obeys_bind (Q := fun _ k => k = .recorded ready now)
        (Task.obeys_attempt (Task.obeys_last rfl fun r hr => ?_)) ?_ ?_
      · cases r with
        | none => cases hr
        | some _ => rfl
      · rintro _ rfl
        exact fun _ => rfl
      · rintro recorded _ rfl
        cases recorded with
        | none => exact fun _ => rfl
        | some _ =>
          exact Task.obeys_last ⟨rfl, rfl⟩ fun r hr => by
            cases r with
            | none => cases hr
            | some _ => exact fun _ => rfl

/-- What every run keeps whose calls take no mark that is still needed. -/
theorem trailing_of_run (hrun : Run (Crew.Step (workshop publishSeconds) Keeps) start h c) :
    Trailing h c.shared c.roles ∧
      ∀ m ∈ c.members, m.task.Obeys protocol Rests m.phase := by
  refine Crew.invariant (fun _ => protocol) (J := Trailing) hrun ?_ obeys_program ?_ ?_ ?_
  · exact ⟨fun e howed => absurd howed Bool.false_ne_true, fun e => iff_of_true rfl settled_nil⟩
  · intro h g ks req hT
    exact ⟨fun e howed => (hT.marked e howed).imp id fun hcoming => hcoming.append _, hT.settled⟩
  · intro h g ks i req k elapsed op hT hi hallows hkeeps
    exact ⟨rfl, marked_exec elapsed hT.marked hi hallows hkeeps,
      fun e => settled_exec elapsed (hT.settled e)⟩
  · intro h g ks i req k op _ _ _ hfallible
    cases hfallible

/-- A call is about to record the episode. -/
def Bound (e : ℤ) (ks : List (Request × Phase)) : Prop :=
  ∃ r ∈ ks, ∃ ids now, r.2 = Phase.bound ids now ∧ e ∈ ids

theorem Bound.coming {ks : List (Request × Phase)} (h : Bound e ks) : Coming e ks := by
  obtain ⟨r, hr, ids, now, hphase, he⟩ := h
  exact ⟨r, hr, by simp [hphase, Phase.comes, he]⟩

/-- Where no touch begins, what is owed is about to be recorded until it is recorded. -/
theorem bound_exec {g : EpisodeChangeGate} {ks : List (Request × Phase)} {i : ℕ} {req : Request}
    {k : Phase} {op : Op} (elapsed : ℕ)
    (hquiet : ∀ n ∈ (exec publishSeconds elapsed op g).2.1, n ≠ .touched e)
    (hbound : g.owed e = true → Bound e ks) (hi : ks[i]? = some (req, k)) (hallows : k.allows op) :
    (exec publishSeconds elapsed op g).2.2.owed e = true →
      Bound e (ks.set i (req, k.after op (some (exec publishSeconds elapsed op g).1))) := by
  intro howed
  have hbefore : g.owed e = true := by
    cases op with
    | begin encounterId =>
      have hne : e ≠ encounterId := fun he => hquiet _ (List.mem_singleton_self _) (he ▸ rfl)
      simpa [exec, EpisodeChangeGate.touched, hne] using howed
    | check encounterId now =>
      cases hdue : g.dueLocked publishSeconds encounterId now <;>
        simpa [exec, EpisodeChangeGate.check, hdue] using howed
    | record ids => exact (Bool.and_eq_true_iff.1 howed).2
    | _ => exact howed
  obtain ⟨r, hr, ids, now, hphase, he⟩ := hbound hbefore
  obtain ⟨j, hj⟩ := List.mem_iff_getElem?.1 hr
  by_cases hij : i = j
  · -- the call that records the episode
    subst hij
    obtain rfl : (req, k) = r := Option.some.inj (hi.symm.trans hj)
    obtain rfl : k = .bound ids now := hphase
    cases op with
    | record ids' =>
      obtain rfl : ids' = ids := hallows
      simp [exec, EpisodeChangeGate.recorded, he] at howed
    | _ => exact hallows.elim
  · refine ⟨r, List.mem_of_getElem? (i := j) ?_, ids, now, hphase, he⟩
    rwa [List.getElem?_set_ne hij]

/-- From a flush on that has taken the episode up: it is settled, or the flush is still to record
it. -/
theorem settled_of_bound (hrun : Run (Crew.Step (workshop publishSeconds) Crew.Free) c₁ h₂ c₂)
    (hquiet : Note.touched e ∉ h₂) (hobeys : ∀ m ∈ c₁.members, m.task.Obeys protocol Rests m.phase)
    (hsettled : c₁.shared.owed e = false ↔ Settled e h)
    (hbound : c₁.shared.owed e = true → Bound e c₁.roles) :
    (c₂.shared.owed e = false ↔ Settled e (h ++ h₂)) ∧
      (c₂.shared.owed e = true → Bound e c₂.roles) := by
  have hnotes : ∀ n ∈ h₂, n ≠ .touched e := fun n hn heq => hquiet (heq ▸ hn)
  refine (Crew.invariant_of_notes (fun _ => protocol) (J := fun h₂ g ks =>
    (g.owed e = false ↔ Settled e (h ++ h₂)) ∧ (g.owed e = true → Bound e ks)) hrun hnotes
    ⟨by rwa [List.append_nil], hbound⟩ hobeys obeys_program ?_ ?_ ?_).1
  · rintro h₂ g ks req ⟨hJ, hb⟩
    refine ⟨hJ, fun howed => ?_⟩
    obtain ⟨r, hr, hrest⟩ := hb howed
    exact ⟨r, List.mem_append_left _ hr, hrest⟩
  · rintro h₂ g ks i req k elapsed op ⟨hJ, hb⟩ hi hallows - hnotes
    refine ⟨rfl, ?_, bound_exec elapsed hnotes hb hi hallows⟩
    rw [← List.append_assoc]
    exact settled_exec elapsed hJ
  · intro h₂ g ks i req k op _ _ _ hfallible
    cases hfallible

/-- A call that is to come to an episode looks at its window or records it next. -/
theorem next_of_coming (hobeys : ∀ m ∈ c.members, m.task.Obeys protocol Rests m.phase)
    (hcoming : Coming e c.roles) : ∃ m ∈ c.members, ∃ op next, m.task = .await op next ∧
      ((∃ now, op = .check e now) ∨ ∃ ids, e ∈ ids ∧ op = .record ids) := by
  obtain ⟨r, hr, hcomes⟩ := hcoming
  obtain ⟨m, hm, rfl⟩ := List.mem_map.1 hr
  have hobey := hobeys m hm
  obtain ⟨req, k, task⟩ := m
  cases task with
  | done result => exact absurd (hobey e) (by simpa using hcomes)
  | await op next =>
    refine ⟨_, hm, op, next, rfl, ?_⟩
    have hallows : k.allows op := hobey.1
    cases k with
    | begun e₀ now =>
      obtain rfl : e₀ = e := by simpa [Phase.comes] using hcomes
      cases op with
      | check e' now' => exact .inl ⟨now', by rw [hallows.1]⟩
      | _ => exact hallows.elim
    | bound ids now =>
      cases op with
      | record ids' =>
        obtain rfl : ids' = ids := hallows
        exact .inr ⟨ids', by simpa [Phase.comes] using hcomes, rfl⟩
      | _ => exact hallows.elim
    | _ => simp [Phase.comes] at hcomes

/-- In a run whose calls take no mark that is still needed, a touch is followed by a record of the
episode, or the episode is marked, or a call is about to mark it or to record it; and once no touch
of it is under way, a flush past its window leaves it recorded. -/
theorem changes_recorded (publishSeconds : ℚ)
    (hrun : Run (Crew.Step (workshop publishSeconds) Keeps) start h c) :
    (∀ e before after, h = before ++ .touched e :: after →
      (∃ ids, e ∈ ids ∧ .recorded ids ∈ after) ∨ e ∈ c.shared.dirty_ ∨
        ∃ m ∈ c.members, ∃ op next, m.task = .await op next ∧
          ((∃ now, op = .check e now) ∨ ∃ ids, e ∈ ids ∧ op = .record ids)) ∧
    ∀ e i req k now next elapsed notes c₁ h₂ c₂, ¬Coming e c.roles →
      c.members[i]? = some ⟨req, k, .await (.collect now) next⟩ →
      c.shared.dueLocked publishSeconds e now = true →
      Crew.act (workshop publishSeconds) c (.run i elapsed) = some (c₁, notes) →
      Run (Crew.Step (workshop publishSeconds) Crew.Free) c₁ h₂ c₂ → .touched e ∉ h₂ →
      ¬Coming e c₂.roles → Settled e (h ++ notes ++ h₂) := by
  obtain ⟨hT, hobeys⟩ := trailing_of_run hrun
  refine ⟨fun e before after heq => ?_, ?_⟩
  · cases howed : c.shared.owed e with
    | false => exact .inl ((hT.settled e).1 howed before after heq)
    | true => exact .inr ((hT.marked e howed).imp id (next_of_coming hobeys))
  · intro e i req k now next elapsed notes c₁ h₂ c₂ hnone hi hdue hact hrest hquiet hnone'
    have hrun₁ : Run (Crew.Step (workshop publishSeconds) Keeps) start (h ++ notes) c₁ :=
      hrun.next ⟨.run i elapsed, by simp [Crew.Meets, hi, Keeps], hact⟩
    obtain ⟨hT₁, hobeys₁⟩ := trailing_of_run hrun₁
    simp only [Crew.act, hi, Option.some.injEq, Prod.mk.injEq] at hact
    obtain ⟨rfl, -⟩ := hact
    have hafter := settled_of_bound hrest hquiet hobeys₁ (hT₁.settled e) fun howed => ?_
    · cases howed : c₂.shared.owed e with
      | false => exact hafter.1.1 howed
      | true => exact absurd (hafter.2 howed).coming hnone'
    · -- the flush has found the mark
      have hdirty : e ∈ c.shared.dirty_ := (hT.marked e howed).resolve_right hnone
      have hready : e ∈ c.shared.collect publishSeconds now := by
        simp [EpisodeChangeGate.collect, hdirty, hdue]
      rw [Crew.roles_resume]
      have hlt := (List.getElem?_eq_some_iff.1 (Crew.roles_getElem? hi)).1
      exact ⟨_, List.mem_of_getElem? (List.getElem?_set_self hlt), _, now, rfl, hready⟩

/-- A touch that comes inside the window of another leaves its mark. -/
theorem changes_recorded_mark : ∃ h c, Run (Crew.Step (workshop 15) Keeps) start h c ∧
    h = [.touched 1, .recorded [1], .touched 1] ∧ (∀ m ∈ c.members, m.task.isDone = true) ∧
      1 ∈ c.shared.dirty_ := by
  have hplay : (Crew.playIf (workshop 15) Keeps start
      [.spawn (.touch 1), .run 0 0, .run 0 0, .run 0 0, .run 0 0, .spawn (.touch 1), .run 1 5,
        .run 1 0]).map (fun r => (r.1.members.all fun m => m.task.isDone, r.2)) =
      some (true, [.touched 1, .recorded [1], .touched 1]) := by
    decide +kernel
  obtain ⟨⟨c, h⟩, hrun, hends⟩ := Option.map_eq_some_iff.1 hplay
  simp only [Prod.mk.injEq, List.all_eq_true] at hends
  obtain ⟨hdone, hnotes⟩ := hends
  have hrun := Crew.run_of_playIf hrun .start
  refine ⟨h, c, hrun, hnotes, hdone, ?_⟩
  rcases (changes_recorded 15 hrun).1 1 [.touched 1, .recorded [1]] [] hnotes with
    ⟨ids, -, hmem⟩ | hdirty | ⟨m, hm, op, next, htask, -⟩
  · cases hmem
  · exact hdirty
  · have := hdone m hm
    simp [htask, Task.isDone] at this

/-! ### A record that completes late -/

/-- Two touches of an episode are recorded side by side, and the second completes first. -/
def crossing : List (Turn ℕ Request) :=
  [.spawn (.touch 1), .run 0 0, .run 0 0, .run 0 0, .spawn (.touch 1), .run 1 0, .run 1 0, .run 1 0,
    .run 1 0]

/-- A third touch comes inside the window and leaves its mark; the first record completes, and takes
the mark along. -/
theorem change_dropped : ∃ h c, Run (Crew.Step (workshop 15) Crew.Free) start h c ∧
    (∀ m ∈ c.members, m.task.isDone = true) ∧ 1 ∉ c.shared.dirty_ ∧ ¬Settled 1 h := by
  have hplay : (Crew.play (workshop 15) start
      (crossing ++ [Turn.spawn (.touch 1), Turn.run 2 1, Turn.run 2 0, Turn.run 0 0])).map (fun r =>
        (r.1.members.all fun m => m.task.isDone, decide (1 ∈ r.1.shared.dirty_), r.2)) =
      some (true, false, [.touched 1, .recorded [1], .touched 1, .recorded [1], .touched 1]) := by
    decide +kernel
  obtain ⟨⟨c, h⟩, hrun, hends⟩ := Option.map_eq_some_iff.1 hplay
  simp only [Prod.mk.injEq, List.all_eq_true, decide_eq_false_iff_not] at hends
  obtain ⟨hdone, hdirty, hnotes⟩ := hends
  refine ⟨h, c, Crew.run_of_play hrun .start, hdone, hdirty, ?_⟩
  rw [hnotes]
  exact not_settled_touched (h := [.touched 1, .recorded [1], .touched 1, .recorded [1]])

end Runs

end Episodes

end Guard

end ArgusBackend
