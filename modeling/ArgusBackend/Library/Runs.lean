import Mathlib.Data.List.Basic

/-!
# Runs that leave notes

A system takes steps, and each step leaves notes about what happened in it.  A run keeps the
state it reached and all the notes left on the way, oldest first.

* `Run.invariant` : what holds at the start and is kept by every step holds after every run;
* `Run.invariant_of_notes` : the same for the runs whose notes all meet a condition;
* `Run.of_play` : actions that can be taken one after the other are a run.
-/

namespace ArgusBackend

variable {σ ν : Type*}

/-- `Run step s₀ h s` : from `s₀` the steps lead to `s`, leaving the notes `h`. -/
inductive Run (step : σ → List ν → σ → Prop) (s₀ : σ) : List ν → σ → Prop
  | start : Run step s₀ [] s₀
  | next {h : List ν} {s s' : σ} {notes : List ν} :
      Run step s₀ h s → step s notes s' → Run step s₀ (h ++ notes) s'

namespace Run

variable {step : σ → List ν → σ → Prop} {s₀ s : σ} {h : List ν}

theorem invariant_of_notes {ok : ν → Prop} {J : List ν → σ → Prop} (hrun : Run step s₀ h s)
    (hok : ∀ n ∈ h, ok n) (hstart : J [] s₀)
    (hstep : ∀ h s notes s', J h s → step s notes s' → (∀ n ∈ notes, ok n) → J (h ++ notes) s') :
    J h s := by
  induction hrun with
  | start => exact hstart
  | next _ hs ih =>
    simp only [List.mem_append, or_imp, forall_and] at hok
    exact hstep _ _ _ _ (ih hok.1) hs hok.2

theorem invariant {J : List ν → σ → Prop} (hrun : Run step s₀ h s) (hstart : J [] s₀)
    (hstep : ∀ h s notes s', J h s → step s notes s' → J (h ++ notes) s') : J h s :=
  hrun.invariant_of_notes (fun _ _ => (trivial : True)) hstart
    fun h s notes s' hJ hs _ => hstep h s notes s' hJ hs

/-- A run of one system is one of another that takes the same steps. -/
theorem mono {step' : σ → List ν → σ → Prop} (hrun : Run step s₀ h s)
    (hstep : ∀ s notes s', step s notes s' → step' s notes s') : Run step' s₀ h s := by
  induction hrun with
  | start => exact .start
  | next _ hs ih => exact ih.next (hstep _ _ _ hs)

/-- A run goes on where another one ended. -/
theorem append {s' : σ} {h' : List ν} (hrun : Run step s₀ h s) (hafter : Run step s h' s') :
    Run step s₀ (h ++ h') s' := by
  induction hafter with
  | start => rwa [List.append_nil]
  | next _ hs ih =>
    rw [← List.append_assoc]
    exact ih.next hs

/-! ### Runs that are played -/

section Play

variable {α : Type*} (act : σ → α → Option (σ × List ν))

/-- Take actions one after the other, as long as each of them can be taken. -/
def play (s : σ) : List α → Option (σ × List ν)
  | [] => some (s, [])
  | a :: actions => (act s a).bind fun r => (play r.1 actions).map fun r' => (r'.1, r.2 ++ r'.2)

variable {act} {s' : σ} {notes : List ν}

theorem of_play (hact : ∀ s a s' notes, act s a = some (s', notes) → step s notes s')
    {actions : List α} (hplay : play act s actions = some (s', notes)) : Run step s notes s' := by
  induction actions generalizing s notes with
  | nil =>
    obtain ⟨rfl, rfl⟩ : s = s' ∧ [] = notes := by simpa [play] using hplay
    exact .start
  | cons a actions ih =>
    obtain ⟨⟨s₁, now⟩, htaken, hrest⟩ := Option.bind_eq_some_iff.1 hplay
    obtain ⟨⟨s₂, later⟩, hlater, heq⟩ := Option.map_eq_some_iff.1 hrest
    obtain ⟨rfl, rfl⟩ : s₂ = s' ∧ now ++ later = notes := by simpa using heq
    have hfirst : Run step s now s₁ := Run.start.next (hact _ _ _ _ htaken)
    exact hfirst.append (ih hlater)

/-- What is played and meets a condition is a run that meets it. -/
theorem exists_of_play {P : List ν → σ → Prop} [∀ h s, Decidable (P h s)]
    (act : σ → α → Option (σ × List ν)) (actions : List α)
    (hact : ∀ s a s' notes, act s a = some (s', notes) → step s notes s')
    (hplay : (play act s₀ actions).any (fun r => decide (P r.2 r.1)) = true) :
    ∃ h s, Run step s₀ h s ∧ P h s := by
  obtain ⟨⟨s, h⟩, hplayed, hmet⟩ := (Option.any_eq_true _ _).1 hplay
  exact ⟨h, s, of_play hact hplayed, of_decide_eq_true hmet⟩

end Play

end Run

end ArgusBackend
