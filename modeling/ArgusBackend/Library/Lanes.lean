import ArgusBackend.Library.Crews

/-!
# Lanes: one task at a time

A lane serves its requests one after the other.  A request may be cut short between any two
operations: then its task is gone, and what it did to the state stays.

* `Lane.Step` : one move, with a condition on the operations that are carried out;
* `Lane.invariant`, `Lane.invariant_from` : the rule of invariants, which speak of the state and of
  the request at work.
-/

namespace ArgusBackend

/-- The state, and the task at work on it. -/
structure Lane (σ κ Req Op : Type) (Ans : Op → Type) where
  shared : σ
  current : Option (Member κ Req Op Ans) := none

/-- The next request is served once the lane is free, a task takes its next step, what it awaits
throws, or it is cut short. -/
inductive Move (Env Req : Type) where
  | serve (req : Req)
  | run (env : Env)
  | fail
  | crash
  deriving DecidableEq, Repr

namespace Lane

variable {σ ν κ Env Req Op : Type} {Ans : Op → Type} (W : Workshop σ ν κ Env Req Op Ans)

/-- The request at work and its phase. -/
def role (c : Lane σ κ Req Op Ans) : Option (Req × κ) := c.current.map fun m => (m.request, m.phase)

/-- Whether the lane can serve the next request. -/
def free (c : Lane σ κ Req Op Ans) : Bool :=
  match c.current with
  | none => true
  | some ⟨_, _, .done _⟩ => true
  | _ => false

/-- What a move does; none when it cannot be made. -/
def act (c : Lane σ κ Req Op Ans) : Move Env Req → Option (Lane σ κ Req Op Ans × List ν)
  | .serve req =>
    if c.free then some (⟨c.shared, some ⟨req, W.first req, W.program req⟩⟩, []) else none
  | .run env =>
    match c.current with
    | some ⟨req, k, .await op next⟩ =>
      let (ans, notes, shared) := W.exec env op c.shared
      some (⟨shared, some ⟨req, W.after k op (some ans), next (some ans)⟩⟩, notes)
    | _ => none
  | .fail =>
    match c.current with
    | some ⟨req, k, .await op next⟩ =>
      if W.fallible op then
        some (⟨c.shared, some ⟨req, W.after k op none, next none⟩⟩, [])
      else none
    | _ => none
  | .crash => some (⟨c.shared, none⟩, [])

/-- What a move carries out meets a condition on the state and the phase before it. -/
def Meets (ok : σ → κ → Op → Prop) (c : Lane σ κ Req Op Ans) : Move Env Req → Prop
  | .run _ =>
    match c.current with
    | some ⟨_, k, .await op _⟩ => ok c.shared k op
    | _ => True
  | _ => True

/-- A move whose operation meets a condition. -/
def Step (ok : σ → κ → Op → Prop) (c : Lane σ κ Req Op Ans) (notes : List ν)
    (c' : Lane σ κ Req Op Ans) : Prop :=
  ∃ t : Move Env Req, c.Meets ok t ∧ act W c t = some (c', notes)

/-- Any move. -/
abbrev Free : σ → κ → Op → Prop := fun _ _ _ => True

/-- Make moves one after the other. -/
def play (c : Lane σ κ Req Op Ans) (ts : List (Move Env Req)) :
    Option (Lane σ κ Req Op Ans × List ν) :=
  Run.play (act W) c ts

variable {W} {ok : σ → κ → Op → Prop} {c c' c₀ : Lane σ κ Req Op Ans} {h notes : List ν}

theorem meets_free (t : Move Env Req) : c.Meets Free t := by
  cases t with
  | run env =>
    simp only [Meets]
    split <;> trivial
  | _ => trivial

theorem run_of_play {ts : List (Move Env Req)} (hplay : play W c ts = some (c', notes))
    (hrun : Run (Step W Free) c₀ h c) : Run (Step W Free) c₀ (h ++ notes) c' :=
  hrun.append (Run.of_play (fun _ t _ _ hact => ⟨t, meets_free t, hact⟩) hplay)

section Checked

variable (W) (ok) [∀ s k op, Decidable (ok s k op)]

/-- Whether what a move carries out meets a condition that can be decided. -/
def checks (c : Lane σ κ Req Op Ans) : Move Env Req → Bool
  | .run _ =>
    match c.current with
    | some ⟨_, k, .await op _⟩ => decide (ok c.shared k op)
    | _ => true
  | _ => true

variable {W} {ok} in
theorem meets_of_checks {t : Move Env Req} (h : checks ok c t = true) : c.Meets ok t := by
  cases t with
  | run env =>
    simp only [checks] at h
    simp only [Meets]
    split <;> simp_all
  | _ => trivial

/-- Make moves one after the other, as long as they meet the condition. -/
def playIf (c : Lane σ κ Req Op Ans) (ts : List (Move Env Req)) :
    Option (Lane σ κ Req Op Ans × List ν) :=
  Run.play (fun c t => if checks ok c t then act W c t else none) c ts

variable {W} {ok} in
theorem run_of_playIf {ts : List (Move Env Req)} (hplay : playIf W ok c ts = some (c', notes))
    (hrun : Run (Step W ok) c₀ h c) : Run (Step W ok) c₀ (h ++ notes) c' := by
  refine hrun.append (Run.of_play (fun c t c' notes hact => ?_) hplay)
  split at hact
  next hchecks => exact ⟨t, meets_of_checks hchecks, hact⟩
  next => cases hact

end Checked

/-- **The rule of invariants** for lanes whose programs keep to a protocol, from any lane on. -/
theorem invariant_from (P : Protocol W.after) {post : Option Unit → κ → Prop}
    {J : List ν → σ → Option (Req × κ) → Prop} (hrun : Run (Step W ok) c₀ h c)
    (hstart : J [] c₀.shared c₀.role) (hcurrent : ∀ m ∈ c₀.current, m.task.Obeys P post m.phase)
    (hprogram : ∀ req, (W.program req).Obeys P post (W.first req))
    (hserve : ∀ h s req, J h s none → J h s (some (req, W.first req)))
    (hleave : ∀ h s r, J h s r → J h s none)
    (hop : ∀ h s req k env op, J h s (some (req, k)) → P.allowed k op → ok s k op →
      P.answers k op (some (W.exec env op s).1) ∧
        J (h ++ (W.exec env op s).2.1) (W.exec env op s).2.2
          (some (req, W.after k op (some (W.exec env op s).1))))
    (hfail : ∀ h s req k op, J h s (some (req, k)) → P.allowed k op → W.fallible op = true →
      P.answers k op none ∧ J h s (some (req, W.after k op none))) :
    J h c.shared c.role ∧ ∀ m ∈ c.current, m.task.Obeys P post m.phase := by
  refine hrun.invariant (J := fun h c => J h c.shared c.role ∧
    ∀ m ∈ c.current, m.task.Obeys P post m.phase) ⟨hstart, hcurrent⟩ ?_
  rintro h ⟨s, current⟩ notes c' ⟨hJ, hobeys⟩ ⟨t, hmeets, hact⟩
  cases t with
  | serve req =>
    -- the lane is free, so no one has a role
    simp only [act] at hact
    split at hact
    next =>
      obtain ⟨rfl, rfl⟩ : _ = c' ∧ [] = notes := by simpa using hact
      rw [List.append_nil]
      refine ⟨hserve _ _ req (hleave _ _ _ hJ), fun m hm => ?_⟩
      obtain rfl := Option.some.inj hm
      exact hprogram req
    next => cases hact
  | run env =>
    simp only [act] at hact
    simp only [Meets] at hmeets
    split at hact
    next req k op next =>
      obtain ⟨rfl, rfl⟩ : _ = c' ∧ _ = notes := by simpa using hact
      have hobey := hobeys _ rfl
      obtain ⟨hans, hJ'⟩ := hop _ _ req k env op hJ hobey.1 hmeets
      refine ⟨hJ', fun m hm => ?_⟩
      obtain rfl := Option.some.inj hm
      exact hobey.2 _ hans
    next => cases hact
  | fail =>
    simp only [act] at hact
    split at hact
    next req k op next =>
      split at hact
      next hfallible =>
        obtain ⟨rfl, rfl⟩ : _ = c' ∧ [] = notes := by simpa using hact
        have hobey := hobeys _ rfl
        obtain ⟨hans, hJ'⟩ := hfail _ _ req k op hJ hobey.1 hfallible
        rw [List.append_nil]
        refine ⟨hJ', fun m hm => ?_⟩
        obtain rfl := Option.some.inj hm
        exact hobey.2 _ hans
      next => cases hact
    next => cases hact
  | crash =>
    -- the try is gone, the store stays
    obtain ⟨rfl, rfl⟩ : _ = c' ∧ [] = notes := by simpa [act] using hact
    rw [List.append_nil]
    exact ⟨hleave _ _ _ hJ, fun _ hm => (nomatch hm)⟩

/-- The rule of invariants for the runs of a free lane. -/
theorem invariant (P : Protocol W.after) {post : Option Unit → κ → Prop}
    {J : List ν → σ → Option (Req × κ) → Prop} {s₀ : σ}
    (hrun : Run (Step W ok) ⟨s₀, none⟩ h c) (hstart : J [] s₀ none)
    (hprogram : ∀ req, (W.program req).Obeys P post (W.first req))
    (hserve : ∀ h s req, J h s none → J h s (some (req, W.first req)))
    (hleave : ∀ h s r, J h s r → J h s none)
    (hop : ∀ h s req k env op, J h s (some (req, k)) → P.allowed k op → ok s k op →
      P.answers k op (some (W.exec env op s).1) ∧
        J (h ++ (W.exec env op s).2.1) (W.exec env op s).2.2
          (some (req, W.after k op (some (W.exec env op s).1))))
    (hfail : ∀ h s req k op, J h s (some (req, k)) → P.allowed k op → W.fallible op = true →
      P.answers k op none ∧ J h s (some (req, W.after k op none))) :
    J h c.shared c.role ∧ ∀ m ∈ c.current, m.task.Obeys P post m.phase :=
  invariant_from P hrun hstart (fun _ hm => nomatch hm) hprogram hserve hleave hop hfail

end Lane

end ArgusBackend
