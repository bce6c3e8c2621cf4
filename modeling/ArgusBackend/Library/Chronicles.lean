import Mathlib.Data.List.Induction

/-!
# Notes and what came before them

`Chronicle P h` says that every note of `h` meets `P` with the notes that were left before it.
Notes are appended one at a time, so a note is judged once, when it is left.
-/

namespace ArgusBackend

variable {ν : Type*}

/-- Every note meets `P` with the notes before it. -/
def Chronicle (P : List ν → ν → Prop) (h : List ν) : Prop :=
  ∀ before n after, h = before ++ n :: after → P before n

namespace Chronicle

variable {P : List ν → ν → Prop} {h : List ν} {n : ν}

theorem nil : Chronicle P [] := fun before n after heq => by simp at heq

/-- A note is judged when it is left. -/
theorem concat (hold : Chronicle P h) (hnew : P h n) : Chronicle P (h ++ [n]) := by
  intro before m after heq
  rcases List.eq_nil_or_concat after with rfl | ⟨after, last, rfl⟩
  · obtain ⟨rfl, hlast⟩ := List.append_inj' heq rfl
    obtain rfl := List.singleton_inj.1 hlast
    exact hnew
  · rw [List.concat_eq_append, ← List.cons_append, ← List.append_assoc] at heq
    exact hold before m after (List.append_inj' heq rfl).1

/-- Notes that are right whatever was left before them. -/
theorem append {t : List ν} (hold : Chronicle P h) (hnew : ∀ n ∈ t, ∀ before, P before n) :
    Chronicle P (h ++ t) := by
  induction t generalizing h with
  | nil => rwa [List.append_nil]
  | cons n t ih =>
    rw [List.append_cons]
    exact ih (hold.concat (hnew n List.mem_cons_self h)) fun n' hn' =>
      hnew n' (List.mem_cons_of_mem n hn')

theorem of_append {t : List ν} (h' : Chronicle P (h ++ t)) : Chronicle P h :=
  fun before n after heq => h' before n (after ++ t) (by
    rw [heq, List.append_assoc, List.cons_append])

theorem of_concat (h' : Chronicle P (h ++ [n])) : Chronicle P h ∧ P h n :=
  ⟨of_append h', h' h n [] rfl⟩

theorem iff_getElem : Chronicle P h ↔ ∀ i, ∀ hi : i < h.length, P (h.take i) h[i] := by
  constructor
  · intro hall i hi
    exact hall (h.take i) h[i] (h.drop (i + 1)) (by simp)
  · rintro hall before n after rfl
    simpa using hall before.length (by simp)

/-- A chronicle of what can be decided can be decided. -/
instance [∀ before n, Decidable (P before n)] : Decidable (Chronicle P h) :=
  decidable_of_iff _ iff_getElem.symm

end Chronicle

end ArgusBackend
