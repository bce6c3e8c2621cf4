import ArgusBackend.Library.Tasks

/-!
# Tasks within a budget

Operations cost something.  `Task.Affords` says that a task, whatever its operations are answered,
awaits operations that meet a condition, stays within a budget, and ends with a result; the
postcondition also speaks of what is left of the budget.

* `Task.affords_bind`, `Task.affords_call` : the rules of the constructs;
* `Task.Affords.alone` : what it means for a task alone.
-/

namespace ArgusBackend

namespace Task

variable {Op : Type} {Ans : Op → Type} {α β : Type}

/-- Whatever the operations are answered, as long as none of them throws. -/
def Affords (cost : Op → ℕ) (P : Op → Prop) (post : α → ℕ → Prop) : Task Op Ans α → ℕ → Prop
  | .done none, _ => False
  | .done (some a), n => post a n
  | .await op next, n =>
    P op ∧ cost op ≤ n ∧ ∀ ans, (next (some ans)).Affords cost P post (n - cost op)

variable {cost : Op → ℕ} {P : Op → Prop} {post post' : α → ℕ → Prop} {n : ℕ}

theorem Affords.mono {t : Task Op Ans α} (h : t.Affords cost P post n)
    (hpost : ∀ a m, post a m → post' a m) : t.Affords cost P post' n := by
  induction t generalizing n with
  | done result =>
    cases result with
    | none => exact h
    | some a => exact hpost a n h
  | await op next ih => exact ⟨h.1, h.2.1, fun ans => ih (some ans) (h.2.2 ans)⟩

theorem affords_pure {a : α} (h : post a n) : (pure a : Task Op Ans α).Affords cost P post n := h

/-- The rule of sequence. -/
theorem affords_bind {t : Task Op Ans β} {f : β → Task Op Ans α}
    (h : t.Affords cost P (fun b m => (f b).Affords cost P post m) n) :
    (t >>= f).Affords cost P post n := by
  induction t generalizing n with
  | done result =>
    cases result with
    | none => exact h
    | some b => exact h
  | await op next ih => exact ⟨h.1, h.2.1, fun ans => ih (some ans) (h.2.2 ans)⟩

theorem affords_call {op : Op} {f : Ans op → Task Op Ans α} (hop : P op) (hcost : cost op ≤ n)
    (h : ∀ ans, (f ans).Affords cost P post (n - cost op)) :
    (call op >>= f).Affords cost P post n :=
  ⟨hop, hcost, h⟩

/-- An operation that costs nothing. -/
theorem affords_free {op : Op} {f : Ans op → Task Op Ans α} (hop : P op) (hfree : cost op = 0)
    (h : ∀ ans, (f ans).Affords cost P post n) : (call op >>= f).Affords cost P post n :=
  affords_call hop (hfree ▸ Nat.zero_le n) fun ans => by rw [hfree]; exact h ans

theorem affords_ite {b : Prop} [Decidable b] {t t' : Task Op Ans α}
    (h : b → t.Affords cost P post n) (h' : ¬b → t'.Affords cost P post n) :
    (if b then t else t').Affords cost P post n := by
  split_ifs with hb
  · exact h hb
  · exact h' hb

/-- A task alone keeps to its budget. -/
theorem Affords.alone {t : Task Op Ans α} (h : t.Affords cost P post n) {σ ν Env : Type}
    (exec : Env → (op : Op) → σ → Ans op × List ν × σ) (env : Env) (s : σ) :
    (∃ a m, (t.alone exec env s).1 = some a ∧ post a m) ∧
      ((t.awaited exec env s).map cost).sum ≤ n ∧ ∀ op ∈ t.awaited exec env s, P op := by
  induction t generalizing n s with
  | done result =>
    cases result with
    | none => exact h.elim
    | some a => exact ⟨⟨a, n, rfl, h⟩, Nat.zero_le n, fun op hop => nomatch hop⟩
  | await op next ih =>
    obtain ⟨hop, hcost, hnext⟩ := h
    obtain ⟨hresult, hsum, hall⟩ :=
      ih (some (exec env op s).1) (hnext (exec env op s).1) (exec env op s).2.2
    refine ⟨hresult, ?_, ?_⟩
    · rw [awaited, List.map_cons, List.sum_cons]
      omega
    · rw [awaited]
      exact List.forall_mem_cons.2 ⟨hop, hall⟩

end Task

end ArgusBackend
