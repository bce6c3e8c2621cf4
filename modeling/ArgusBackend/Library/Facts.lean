import ArgusBackend.Library.Tasks
import Mathlib.Algebra.Order.Ring.Nat

/-!
# Tasks that rely on lasting facts

Contracts whose credits are counted: what an operation needs, which facts its answer brings, and
how many credits it costs or gains.  The facts last, whatever the other tasks do meanwhile; credits
that are left over are not missed.

* `Task.HeedsWith` : with so many credits the task keeps to the terms, and what it returns meets a
  condition; `Task.Heeds` is the case of no credits, with one rule for each construct;
* `Pool.invariant_of_heeds` : the rule of invariants for pools of such tasks.
-/

namespace ArgusBackend

/-- The needs and facts of operations, in a world that moves on, and what they cost and gain. -/
structure Terms (W Op : Type) (Ans : Op → Type) where
  future : W → W → Prop
  refl : ∀ w, future w w
  trans : ∀ {w w' w''}, future w w' → future w' w'' → future w w''
  need : W → Op → Prop
  need_mono : ∀ {w w' op}, future w w' → need w op → need w' op
  fact : W → (op : Op) → Ans op → Prop
  cost : Op → ℕ := fun _ => 0
  gain : (op : Op) → Ans op → ℕ := fun _ _ => 0

variable {W Op : Type} {Ans : Op → Type} {α β : Type}

/-- Terms are a contract in which any number of credits may be held. -/
def Terms.contract (T : Terms W Op Ans) : Contract W Op Ans ℕ where
  future := T.future
  refl := T.refl
  trans := T.trans
  need := T.need
  need_mono := T.need_mono
  fact := T.fact
  cost := T.cost
  gain := T.gain
  held := fun _ => True
  held_zero := trivial
  held_add := fun _ _ => trivial

namespace Task

/-- In the world `w` the task keeps to the terms with `k` credits, and what it returns meets
`post`. -/
def HeedsWith (T : Terms W Op Ans) (k : ℕ) (post : α → W → Prop) (t : Task Op Ans α) (w : W) :
    Prop :=
  ∀ m, t.Safe T.contract (fun r _ w' => ∀ a, r = some a → post a w') (m + k) w

/-- Without credits the task keeps to the terms. -/
abbrev Heeds (T : Terms W Op Ans) (post : α → W → Prop) (t : Task Op Ans α) (w : W) : Prop :=
  HeedsWith T 0 post t w

section Rules

variable {T : Terms W Op Ans} {k : ℕ} {post post' : α → W → Prop} {Q : β → W → Prop} {w w' : W}

theorem HeedsWith.mono {t : Task Op Ans α} (h : t.HeedsWith T k post w)
    (hpost : ∀ a w', T.future w w' → post a w' → post' a w') : t.HeedsWith T k post' w :=
  fun m => Safe.mono (h m) fun _ _ w' _ hw hr a ha => hpost a w' hw (hr a ha)

theorem HeedsWith.later {t : Task Op Ans α} (h : t.HeedsWith T k post w) (hw : T.future w w') :
    t.HeedsWith T k post w' :=
  fun m => Safe.later (h m) hw

theorem heeds_pure {a : α} (h : ∀ w', T.future w w' → post a w') :
    (pure a : Task Op Ans α).HeedsWith T k post w :=
  fun _ => safe_pure trivial fun w' hw _ ha => Option.some.inj ha ▸ h w' hw

theorem heeds_throw : (throw : Task Op Ans α).HeedsWith T k post w :=
  fun _ => ⟨trivial, fun _ _ _ ha => nomatch ha⟩

theorem heeds_bind {t : Task Op Ans β} {f : β → Task Op Ans α} (ht : t.HeedsWith T k Q w)
    (hf : ∀ b w', T.future w w' → Q b w' → (f b).Heeds T post w') :
    (t >>= f).HeedsWith T k post w := by
  refine fun m => safe_bind (Safe.mono (ht m) fun r m w' _ hw hr => ?_)
  cases r with
  | none => exact fun _ _ _ ha => nomatch ha
  | some b => exact hf b w' hw (hr b rfl) m

/-- One operation, and what the task does with its answer. -/
theorem heeds_call {op : Op} {f : Ans op → Task Op Ans α} (hneed : T.need w op)
    (hcost : T.cost op ≤ k) (hf : ∀ ans w', T.future w w' → T.fact w' op ans →
      (f ans).HeedsWith T (k - T.cost op + T.gain op ans) post w') :
    (call op >>= f).HeedsWith T k post w := by
  refine fun m => ⟨trivial, hneed, fun _ _ => heeds_throw (k := k) m, m + (k - T.cost op), ?_,
    fun w' hw ans hans => ?_⟩
  · rw [add_assoc, Terms.contract, Nat.sub_add_cancel hcost]
  · rw [add_assoc]
    exact hf ans w' hw hans m

/-- The last operation of a task. -/
theorem heeds_last {op : Op} {post : Ans op → W → Prop} (hneed : T.need w op)
    (hcost : T.cost op ≤ k)
    (hpost : ∀ ans w' w'', T.future w w' → T.fact w' op ans → T.future w' w'' → post ans w'') :
    (call op).HeedsWith T k post w :=
  heeds_call hneed hcost fun ans w' hw hans => heeds_pure fun w'' hw' =>
    hpost ans w' w'' hw hans hw'

/-- The elements are served one after the other, and what each brings lasts. -/
theorem heeds_each {f : β → Task Op Ans Unit} {l : List β} {D : β → W → Prop}
    (hlast : ∀ b w w', T.future w w' → D b w → D b w')
    (hf : ∀ b ∈ l, ∀ w', T.future w w' → (f b).Heeds T (fun _ => D b) w') :
    (each f l).Heeds T (fun _ w' => ∀ b ∈ l, D b w') w := by
  induction l generalizing w with
  | nil => exact heeds_pure fun _ _ => by simp
  | cons b l ih =>
    refine heeds_bind (hf b List.mem_cons_self w (T.refl w)) fun _ w' hw hb => ?_
    refine HeedsWith.mono (ih fun b' hb' w'' hw' =>
      hf b' (List.mem_cons_of_mem _ hb') w'' (T.trans hw hw')) fun _ w'' hw' hl => ?_
    exact List.forall_mem_cons.2 ⟨hlast b _ _ hw' hb, hl⟩

end Rules

end Task

namespace Pool

variable {σ ν Env Req : Type} {exec : Env → (op : Op) → σ → Ans op × List ν × σ}
  {program : Req → Task Op Ans Unit} {T : Terms (List ν × σ) Op Ans}

/-- **The rule of invariants** for pools of tasks that keep to terms; `J` speaks of the notes, the
state and the credits that are out. -/
theorem invariant_of_heeds {J : List ν → σ → ℕ → Prop} {s₀ : σ} {h : List ν}
    {p : Pool σ Op Ans} (hrun : Run (Step exec program) ⟨s₀, []⟩ h p) (hstart : J [] s₀ 0)
    (hop : ∀ h s m env op, J h s (m + T.cost op) → T.need (h, s) op →
      J (h ++ (exec env op s).2.1) (exec env op s).2.2 (m + T.gain op (exec env op s).1) ∧
        T.fact (h ++ (exec env op s).2.1, (exec env op s).2.2) op (exec env op s).1 ∧
        T.future (h, s) (h ++ (exec env op s).2.1, (exec env op s).2.2))
    (hprogram : ∀ req w, (program req).Heeds T (fun _ _ => True) w) : ∃ m, J h p.shared m := by
  have hlost : T.contract.held 0 := trivial
  obtain ⟨ms, lost, -, -, hJ⟩ := invariant (C := T.contract) (I := J) hrun
    (fun _ _ => (trivial : (fun _ : ν => True) _)) (.nil : Tended T.contract _ [] _) hlost hstart
    (fun h s m env op hJ hneed _ => hop h s m env op hJ hneed)
    fun req w => Task.Safe.mono (hprogram req w 0) fun _ _ _ _ _ _ => trivial
  exact ⟨ms.sum + lost, by simpa using hJ⟩

end Pool

end ArgusBackend
