import Mathlib.Data.List.Induction

/-!
# One pass over a list

`Pass.run f s as` goes once over `as`, changing a state and leaving one outcome for every item.
A loop over a list that reads and writes a store is such a pass; `Pass.run_invariant` carries an
invariant over it and `Pass.run_append` cuts it at an item.
-/

namespace ArgusBackend

namespace Pass

variable {σ α β : Type*} (f : σ → α → σ × β)

/-- The state after the pass, and every item with what became of it. -/
def run (s : σ) : List α → σ × List (α × β)
  | [] => (s, [])
  | a :: rest =>
    let after := run (f s a).1 rest
    (after.1, (a, (f s a).2) :: after.2)

variable {f} {s : σ} {as bs : List α} {a : α}

@[simp] theorem run_nil : run f s [] = (s, []) := rfl

theorem run_append :
    run f s (as ++ bs) =
      ((run f (run f s as).1 bs).1, (run f s as).2 ++ (run f (run f s as).1 bs).2) := by
  induction as generalizing s with
  | nil => rfl
  | cons a as ih => simp [run, ih]

theorem map_fst_run : (run f s as).2.map Prod.fst = as := by
  induction as generalizing s with
  | nil => rfl
  | cons a as ih => simp [run, ih]

theorem mem_of_mem_run {b : β} (h : (a, b) ∈ (run f s as).2) : a ∈ as := by
  rw [← @map_fst_run _ _ _ f s as]
  exact List.mem_map.2 ⟨_, h, rfl⟩

/-- What holds before a pass and is kept by every item holds after it. -/
theorem run_invariant {J : σ → List (α × β) → Prop} (hstart : J s [])
    (hstep : ∀ s log, ∀ a ∈ as, J s log → J (f s a).1 (log ++ [(a, (f s a).2)])) :
    J (run f s as).1 (run f s as).2 := by
  induction as using List.reverseRecOn with
  | nil => exact hstart
  | append_singleton as a ih =>
    rw [run_append]
    exact hstep _ _ a (by simp) (ih fun s log a ha => hstep s log a (List.mem_append_left _ ha))

/-- A part of the state that no item of the pass changes. -/
theorem run_frame {γ : Type*} {g : σ → γ} (h : ∀ s, ∀ a ∈ as, g (f s a).1 = g s) :
    g (run f s as).1 = g s :=
  run_invariant (J := fun s' _ => g s' = g s) rfl fun s' _ a ha hs => (h s' a ha).trans hs

/-- Where in the pass an item had its outcome. -/
theorem exists_of_mem_run {b : β} (h : (a, b) ∈ (run f s as).2) :
    ∃ before after, as = before ++ a :: after ∧ b = (f (run f s before).1 a).2 ∧
      (run f s as).2 = (run f s before).2 ++
        (a, b) :: (run f (f (run f s before).1 a).1 after).2 ∧
      (run f s as).1 = (run f (f (run f s before).1 a).1 after).1 := by
  induction as generalizing s with
  | nil => cases h
  | cons a' as ih =>
    rcases List.mem_cons.1 h with heq | hrest
    · cases heq
      exact ⟨[], as, rfl, rfl, rfl, rfl⟩
    · obtain ⟨before, after, hsplit, hb, hlog, hlast⟩ := ih hrest
      exact ⟨a' :: before, after, by rw [hsplit]; rfl, hb,
        congrArg (_ :: ·) hlog, hlast⟩

/-- Every item has an outcome. -/
theorem exists_outcome (h : a ∈ as) : ∃ b, (a, b) ∈ (run f s as).2 := by
  rw [← @map_fst_run _ _ _ f s as] at h
  obtain ⟨⟨a', b⟩, hmem, rfl⟩ := List.mem_map.1 h
  exact ⟨b, hmem⟩

end Pass

end ArgusBackend
