import ArgusBackend.Library.Words

/-!
# Texts of entries

A text of entries `key=value` with separators between them, as a loop reads it that takes one part
after the other until nothing is left.

* `read` : the loop, which gives each entry to a step that may refuse it;
* `read_join` : what is read of entries that are written one behind the other;
* `read_eq_some` : what was read is a list of entries.
-/

namespace ArgusBackend

namespace Entries

open Words

variable {α σ : Type} [DecidableEq α] (sep eq : α) (step : σ → List α → List α → Option σ)

/-- One part: what stands before the first `=` and what stands behind it. -/
def entry (s : σ) (part : List α) : Option σ := (cut eq part).bind fun e => step s e.1 e.2

/-- The entries of a text are read in order; each has its key and its value. -/
def read (s : σ) (text : List α) : Option σ :=
  if text = [] then some s
  else
    match _hcut : cut sep text with
    | none => entry eq step s text
    | some (part, rest) => (entry eq step s part).bind fun s => read s rest
termination_by text.length
decreasing_by exact length_of_cut _hcut

variable {sep eq step} {s s' : σ} {text : List α} {es : List (List α × List α)}

/-- An entry as it is written. -/
def written (eq : α) (e : List α × List α) : List α := e.1 ++ eq :: e.2

theorem entry_written {e : List α × List α} (h : eq ∉ e.1) :
    entry eq step s (written eq e) = step s e.1 e.2 := by
  rw [entry, written, cut_eq_some.mpr ⟨rfl, h⟩]
  rfl

theorem read_none (hne : text ≠ []) (hcut : cut sep text = none) :
    read sep eq step s text = entry eq step s text := by
  rw [read, if_neg hne]
  split
  next => rfl
  next h => simp [hcut] at h

theorem read_some {part rest : List α} (hcut : cut sep text = some (part, rest)) :
    read sep eq step s text = (entry eq step s part).bind fun s => read sep eq step s rest := by
  have hne : text ≠ [] := fun hnil => by simp [hnil, cut] at hcut
  rw [read, if_neg hne]
  split
  next h => simp [hcut] at h
  next h =>
    rw [hcut] at h
    obtain ⟨rfl, rfl⟩ := Prod.mk.inj (Option.some.inj h)
    rfl

/-- Entries that are written one behind the other are read one by one. -/
theorem read_join (hsep : ∀ e ∈ es, sep ∉ written eq e) (heq : ∀ e ∈ es, eq ∉ e.1) (s : σ) :
    read sep eq step s (join sep (es.map (written eq))) =
      es.foldlM (fun s e => step s e.1 e.2) s := by
  have hne (e : List α × List α) : written eq e ≠ [] := by simp [written]
  induction es generalizing s with
  | nil =>
    rw [List.map_nil, join, read, if_pos rfl]
    rfl
  | cons e es ih =>
    rw [List.forall_mem_cons] at hsep heq
    rw [List.map_cons, List.foldlM_cons]
    by_cases hnil : es = []
    · subst hnil
      rw [List.map_nil, join, read_none (hne e) (cut_eq_none.mpr hsep.1), entry_written heq.1]
      exact (Option.bind_fun_some _).symm
    · rw [join_cons (by simpa using hnil), read_some (cut_eq_some.mpr ⟨rfl, hsep.1⟩),
        entry_written heq.1]
      exact congrArg _ (funext fun s => ih hsep.2 heq.2 s)

/-- What was read is a list of entries, one step for each. -/
theorem read_eq_some (h : read sep eq step s text = some s') :
    ∃ es : List (List α × List α), es.foldlM (fun s e => step s e.1 e.2) s = some s' := by
  induction text using (measure List.length).wf.induction generalizing s with
  | _ text ih =>
    have hentry {part : List α} {s₁ : σ} (h : entry eq step s part = some s₁) :
        ∃ e : List α × List α, step s e.1 e.2 = some s₁ := by
      obtain ⟨e, -, hstep⟩ := Option.bind_eq_some_iff.mp h
      exact ⟨e, hstep⟩
    by_cases hnil : text = []
    · rw [hnil, read, if_pos rfl] at h
      exact ⟨[], h⟩
    cases hcut : cut sep text with
    | none =>
      rw [read_none hnil hcut] at h
      obtain ⟨e, hstep⟩ := hentry h
      exact ⟨[e], by rw [List.foldlM_cons, hstep]; rfl⟩
    | some p =>
      obtain ⟨part, rest⟩ := p
      rw [read_some hcut] at h
      obtain ⟨s₁, hfirst, hrest⟩ := Option.bind_eq_some_iff.mp h
      obtain ⟨e, hstep⟩ := hentry hfirst
      obtain ⟨es, hes⟩ := ih rest (length_of_cut hcut) hrest
      exact ⟨e :: es, by rw [List.foldlM_cons, hstep]; exact hes⟩

/-- What every step keeps, the whole text keeps. -/
theorem read_invariant {J : σ → Prop} (h : read sep eq step s text = some s') (hs : J s)
    (hstep : ∀ s key value s', J s → step s key value = some s' → J s') : J s' := by
  obtain ⟨es, hes⟩ := read_eq_some h
  clear h
  induction es generalizing s with
  | nil => exact Option.some.inj hes ▸ hs
  | cons e es ih =>
    rw [List.foldlM_cons] at hes
    obtain ⟨s₁, hfirst, hrest⟩ := Option.bind_eq_some_iff.mp hes
    exact ih (hstep s e.1 e.2 s₁ hs hfirst) hrest

end Entries

end ArgusBackend
