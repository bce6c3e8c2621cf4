import ArgusBackend.Library.Table
import Mathlib.Data.List.Nodup
import Mathlib.Data.List.Pairwise

/-!
# Tables that hand out their ids

`Serial id` is a table in the order of its ids, each handed out once and never again; its rows are
inserted and updated, never deleted.
-/

namespace ArgusBackend

/-- A table whose rows are in the order of their ids, all below the next one. -/
structure Serial {ρ : Type} (id : ρ → ℕ) where
  rows : List ρ
  nextId : ℕ
  sorted : rows.Pairwise fun r r' => id r < id r'
  fresh : ∀ r ∈ rows, id r < nextId

namespace Serial

variable {ρ : Type} {id : ρ → ℕ}

instance : Membership ρ (Serial id) := ⟨fun t r => r ∈ t.rows⟩

theorem mem_def {t : Serial id} {r : ρ} : r ∈ t ↔ r ∈ t.rows := Iff.rfl

variable (id) in
theorem sorted_nil : [].Pairwise fun r r' : ρ => id r < id r' := .nil

variable (id) in
theorem fresh_nil : ∀ r ∈ ([] : List ρ), id r < 1 := fun _ hr => absurd hr List.not_mem_nil

/-- No row was ever there. -/
def empty : Serial id where
  rows := []
  nextId := 1
  sorted := sorted_nil id
  fresh := fresh_nil id

variable (t : Serial id) {r r' : ρ}

/-- Insert the row `f` makes of the next id. -/
def insert (f : ℕ → ρ) (hid : ∀ n, id (f n) = n) : Serial id where
  rows := t.rows ++ [f t.nextId]
  nextId := t.nextId + 1
  sorted := by
    refine List.pairwise_append.2 ⟨t.sorted, List.pairwise_singleton _ _, ?_⟩
    intro r hr r' hr'
    obtain rfl := List.mem_singleton.1 hr'
    rw [hid]
    exact t.fresh r hr
  fresh := by
    intro r hr
    rcases List.mem_append.1 hr with hr | hr
    · exact Nat.lt_succ_of_lt (t.fresh r hr)
    · obtain rfl := List.mem_singleton.1 hr
      rw [hid]
      exact Nat.lt_succ_self _

/-- Change the row with an id; the ids stay. -/
def update (i : ℕ) (f : ρ → ρ) (hid : ∀ r, id (f r) = id r) : Serial id where
  rows := t.rows.map fun r => if id r = i then f r else r
  nextId := t.nextId
  sorted := by
    have hsame : ∀ r, id (if id r = i then f r else r) = id r := fun r => by
      split_ifs <;> simp [hid]
    exact List.pairwise_map.2 (t.sorted.imp fun {r r'} h => by simpa [hsame] using h)
  fresh := by
    intro _ hr'
    obtain ⟨r, hr, rfl⟩ := List.mem_map.1 hr'
    have := t.fresh r hr
    split_ifs <;> simpa [hid] using this

/-- The row with an id. -/
def find (i : ℕ) : Option ρ := t.rows.find? fun r => id r = i

variable {t}

theorem mem_insert {f : ℕ → ρ} (hid : ∀ n, id (f n) = n) :
    r ∈ t.insert f hid ↔ r ∈ t ∨ r = f t.nextId := by
  simp [mem_def, insert]

theorem mem_update {i : ℕ} {f : ρ → ρ} (hid : ∀ r, id (f r) = id r) :
    r ∈ t.update i f hid ↔ ∃ r₀ ∈ t, r = if id r₀ = i then f r₀ else r₀ := by
  simp [mem_def, update, eq_comm]

theorem eq_of_id (hr : r ∈ t) (hr' : r' ∈ t) (h : id r = id r') : r = r' :=
  List.inj_on_of_nodup_map (List.pairwise_map.2 (t.sorted.imp Nat.ne_of_lt)) hr hr' h

theorem mem_of_find {i : ℕ} (h : t.find i = some r) : r ∈ t ∧ id r = i :=
  ⟨List.mem_of_find?_eq_some h, by simpa using List.find?_some h⟩

end Serial

end ArgusBackend
