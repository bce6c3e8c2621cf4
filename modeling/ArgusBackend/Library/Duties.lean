import ArgusBackend.Library.Tasks

/-!
# Tasks that are bound to do something

What a task comes to do as long as the answers it gets meet a condition `F`.

* `Task.Within` : it only awaits operations that meet `P`, and what it returns meets `post`;
* `Task.Owes` : it is bound to come to an operation that meets `D`;
* `Task.Repays` : whatever it is answered, an answer in `G` binds it to such an operation;
* `Pool.tasks_invariant` : the rule for what the tasks of a pool keep, whatever they are answered.
-/

namespace ArgusBackend

namespace Task

variable {Op : Type} {Ans : Op → Type} {α β : Type} (F : (op : Op) → Ans op → Prop)

/-- As long as the answers meet `F`, every operation meets `P` and the result meets `post`. -/
def Within (P : Op → Prop) (post : α → Prop) : Task Op Ans α → Prop
  | .done result => ∀ a, result = some a → post a
  | .await op next => P op ∧ ∀ ans, F op ans → (next (some ans)).Within P post

/-- As long as the answers meet `F`, the task comes to an operation that meets `D`. -/
def Owes (D : Op → Prop) : Task Op Ans α → Prop
  | .done _ => False
  | .await op next => D op ∨ ∀ ans, F op ans → (next (some ans)).Owes D

/-- An answer in `G` binds the task to an operation that meets `D`. -/
def Repays (G : (op : Op) → Ans op → Prop) (D : Op → Prop) : Task Op Ans α → Prop
  | .done _ => True
  | .await op next => (∀ r, (next r).Repays G D) ∧ ∀ ans, G op ans → (next (some ans)).Owes F D

/-- Nothing comes after the task. -/
theorem bind_pure_self (t : Task Op Ans α) : t >>= pure = t := by
  induction t with
  | done result => cases result <;> rfl
  | await op next ih => exact congrArg (Task.await op) (funext ih)

section Rules

variable {F} {F' : (op : Op) → Ans op → Prop} {P D : Op → Prop} {post post' : α → Prop}
  {Q : β → Prop} {G : (op : Op) → Ans op → Prop}

theorem within_of_asks {t : Task Op Ans α} (h : t.Asks P) : t.Within F P (fun _ => True) := by
  induction t with
  | done result => exact fun _ _ => trivial
  | await op next ih => exact ⟨h.1, fun ans _ => ih _ (h.2 _)⟩

theorem within_pure {a : α} (h : post a) : (pure a : Task Op Ans α).Within F P post :=
  fun _ ha => Option.some.inj ha ▸ h

theorem within_call {op : Op} {f : Ans op → Task Op Ans α} (hop : P op)
    (hf : ∀ ans, F op ans → (f ans).Within F P post) : (call op >>= f).Within F P post :=
  ⟨hop, hf⟩

theorem within_bind {t : Task Op Ans β} {f : β → Task Op Ans α} (ht : t.Within F P Q)
    (hf : ∀ b, Q b → (f b).Within F P post) : (t >>= f).Within F P post := by
  induction t with
  | done result =>
    cases result with
    | none => exact fun _ ha => nomatch ha
    | some b => exact hf b (ht b rfl)
  | await op next ih => exact ⟨ht.1, fun ans hans => ih _ (ht.2 ans hans)⟩

theorem owes_bind {t : Task Op Ans β} {f : β → Task Op Ans α} (ht : t.Owes F D) :
    (t >>= f).Owes F D := by
  induction t with
  | done result => exact ht.elim
  | await op next ih => exact ht.imp id fun h ans hans => ih _ (h ans hans)

/-- Answers that make no difference on the way need not be relied on. -/
theorem Owes.of_within {t : Task Op Ans α} (ht : t.Owes F D) (hin : t.Within F' P post)
    (hF : ∀ op ans, P op → F' op ans → F op ans) : t.Owes F' D := by
  induction t with
  | done result => exact ht.elim
  | await op next ih =>
    refine ht.imp id fun h ans hans => ?_
    exact ih _ (h ans (hF op ans hin.1 hans)) (hin.2 ans hans)

theorem repays_pure {a : α} : (pure a : Task Op Ans α).Repays F G D := trivial

/-- A task without such operations. -/
theorem repays_of_asks {t : Task Op Ans α} (h : t.Asks P) (hP : ∀ op ans, P op → ¬G op ans) :
    t.Repays F G D := by
  induction t with
  | done result => trivial
  | await op next ih =>
    exact ⟨fun r => ih r (h.2 r), fun ans hans => (hP op ans h.1 hans).elim⟩

theorem repays_bind {t : Task Op Ans β} {f : β → Task Op Ans α} (ht : t.Repays F G D)
    (hf : ∀ b, (f b).Repays F G D) : (t >>= f).Repays F G D := by
  induction t with
  | done result =>
    cases result with
    | none => trivial
    | some b => exact hf b
  | await op next ih => exact ⟨fun r => ih r (ht.1 r), fun ans hans => owes_bind (ht.2 ans hans)⟩

/-- One operation that may bind the task, and what the task does with its answer. -/
theorem repays_call {op : Op} {f : Ans op → Task Op Ans α} (hf : ∀ ans, (f ans).Repays F G D)
    (howes : ∀ ans, G op ans → (f ans).Owes F D) : (call op >>= f).Repays F G D := by
  refine ⟨fun r => ?_, howes⟩
  cases r with
  | none => trivial
  | some ans => exact hf ans

end Rules

end Task

namespace Pool

variable {σ ν Op Env Req : Type} {Ans : Op → Type}
  {exec : Env → (op : Op) → σ → Ans op × List ν × σ} {program : Req → Task Op Ans Unit}

/-- What every program has and every answer leaves to a task, the tasks of every run have. -/
theorem tasks_invariant {K : Task Op Ans Unit → Prop} {p₀ p : Pool σ Op Ans} {h : List ν}
    (hrun : Run (Step exec program) p₀ h p) (hstart : ∀ t ∈ p₀.tasks, K t)
    (hprogram : ∀ req, K (program req))
    (hnext : ∀ op next, K (.await op next) → ∀ r, K (next r)) : ∀ t ∈ p.tasks, K t := by
  refine hrun.invariant (J := fun _ p => ∀ t ∈ p.tasks, K t) hstart ?_
  rintro h ⟨s, ts⟩ notes p' hts ⟨ev, hev⟩
  have hset : ∀ {i t}, K t → ∀ t' ∈ ts.set i t, K t' := fun ht t' ht' =>
    (List.mem_or_eq_of_mem_set ht').elim (hts t') (fun heq => heq ▸ ht)
  cases ev with
  | spawn req =>
    obtain ⟨rfl, rfl⟩ : _ = p' ∧ [] = notes := by simpa [act] using hev
    intro t ht
    rcases List.mem_append.1 ht with ht | ht
    · exact hts t ht
    · exact List.mem_singleton.1 ht ▸ hprogram req
  | run i env =>
    simp only [act] at hev
    split at hev
    · rename_i op next hi
      obtain ⟨rfl, rfl⟩ : _ = p' ∧ _ = notes := by simpa using hev
      exact hset (hnext op next (hts _ (List.mem_of_getElem? hi)) _)
    · cases hev
  | fail i =>
    simp only [act] at hev
    split at hev
    · rename_i op next hi
      obtain ⟨rfl, rfl⟩ : _ = p' ∧ [] = notes := by simpa using hev
      exact hset (hnext op next (hts _ (List.mem_of_getElem? hi)) none)
    · cases hev
  | drop i =>
    obtain ⟨rfl, rfl⟩ : _ = p' ∧ [] = notes := by simpa [act] using hev
    exact fun t ht => hts t (List.mem_of_mem_eraseIdx ht)

end Pool

end ArgusBackend
