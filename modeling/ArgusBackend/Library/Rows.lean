import Mathlib.Data.List.Nodup
import Mathlib.Data.List.Pairwise

/-!
# Tables with an id and a unique key

`Rows id key` is a table in the order of its ids, which are handed out once each and never again,
with one row for each key.  Its updates keep ids and keys; its inserts are ignored when the key is
taken.

* `Rows.eq_of_id`, `Rows.eq_of_key` : a row is determined by its id, and by its key;
* `Rows.mem_update`, `Rows.mem_insert`, `Rows.mem_delete` : what the operations leave.
-/

namespace ArgusBackend

/-- A table whose rows are in the order of their ids and have different keys. -/
structure Rows {ρ κ : Type} (id : ρ → ℕ) (key : ρ → κ) where
  rows : List ρ
  nextId : ℕ
  sorted : rows.Pairwise fun r r' => id r < id r'
  fresh : ∀ r ∈ rows, id r < nextId
  apart : (rows.map key).Nodup

namespace Rows

variable {ρ κ : Type} {id : ρ → ℕ} {key : ρ → κ}

instance : Membership ρ (Rows id key) := ⟨fun t r => r ∈ t.rows⟩

theorem mem_def {t : Rows id key} {r : ρ} : r ∈ t ↔ r ∈ t.rows := Iff.rfl

/-- No row was ever there. -/
def empty : Rows id key where
  rows := []
  nextId := 1
  sorted := List.Pairwise.nil
  fresh := by simp
  apart := List.nodup_nil

variable (t : Rows id key)

/-- Change the rows that meet a condition; ids and keys stay. -/
def update (p : ρ → Bool) (f : ρ → ρ) (hid : ∀ r, id (f r) = id r) (hkey : ∀ r, key (f r) = key r) :
    Rows id key where
  rows := t.rows.map fun r => if p r then f r else r
  nextId := t.nextId
  sorted := by
    have hsame : ∀ r, id (if p r then f r else r) = id r := fun r => by split_ifs <;> simp [hid]
    exact List.pairwise_map.2 (t.sorted.imp fun {r r'} h => by simpa [hsame] using h)
  fresh := by
    intro _ hr'
    obtain ⟨r, hr, rfl⟩ := List.mem_map.1 hr'
    have := t.fresh r hr
    split_ifs <;> simpa [hid] using this
  apart := by
    have hsame : ∀ r, key (if p r then f r else r) = key r := fun r => by
      split_ifs <;> simp [hkey]
    simpa [Function.comp_def, hsame] using t.apart

/-- Delete the rows that meet a condition. -/
def delete (p : ρ → Bool) : Rows id key where
  rows := t.rows.filter fun r => !p r
  nextId := t.nextId
  sorted := t.sorted.filter _
  fresh := fun r hr => t.fresh r (List.mem_of_mem_filter hr)
  apart := (List.filter_sublist.map key).nodup t.apart

/-- Insert the row `f` makes of the next id, unless its key is taken. -/
def insert [DecidableEq κ] (f : ℕ → ρ) (hid : ∀ n, id (f n) = n) : Option (ρ × Rows id key) :=
  if h : key (f t.nextId) ∈ t.rows.map key then none
  else
    some (f t.nextId,
      { rows := t.rows ++ [f t.nextId]
        nextId := t.nextId + 1
        sorted := by
          refine List.pairwise_append.2 ⟨t.sorted, List.pairwise_singleton _ _, ?_⟩
          intro r hr r' hr'
          obtain rfl := List.mem_singleton.1 hr'
          rw [hid]
          exact t.fresh r hr
        fresh := by
          intro r hr
          rcases List.mem_append.1 hr with hr | hr
          · exact Nat.lt_succ_of_lt (t.fresh r hr)
          · obtain rfl := List.mem_singleton.1 hr
            rw [hid]
            exact Nat.lt_succ_self _
        apart := by
          rw [List.map_append, List.nodup_append]
          refine ⟨t.apart, List.nodup_singleton _, ?_⟩
          rintro a ha b hb rfl
          exact h (List.mem_singleton.1 hb ▸ ha) })

/-- The row of an id. -/
def find? (n : ℕ) : Option ρ := t.rows.find? fun r => id r = n

variable {t} {r r' : ρ} {p : ρ → Bool} {f : ρ → ρ}

theorem eq_of_id (hr : r ∈ t) (hr' : r' ∈ t) (h : id r = id r') : r = r' :=
  List.inj_on_of_nodup_map (List.pairwise_map.2 (t.sorted.imp Nat.ne_of_lt)) hr hr' h

theorem eq_of_key (hr : r ∈ t) (hr' : r' ∈ t) (h : key r = key r') : r = r' :=
  List.inj_on_of_nodup_map t.apart hr hr' h

theorem id_lt (hr : r ∈ t) : id r < t.nextId := t.fresh r hr

/-- The rows of a table that was updated. -/
theorem mem_of_rows {t' : Rows id key} (h : t'.rows = t.rows.map fun r => if p r then f r else r) :
    r ∈ t' ↔ (∃ r₀ ∈ t, p r₀ = true ∧ f r₀ = r) ∨ (r ∈ t ∧ p r = false) := by
  simp only [mem_def, h, List.mem_map]
  constructor
  · rintro ⟨r₀, hr₀, rfl⟩
    cases hp : p r₀ with
    | true => exact .inl ⟨r₀, hr₀, hp, rfl⟩
    | false => exact .inr ⟨by simpa using hr₀, hp⟩
  · rintro (⟨r₀, hr₀, hp, rfl⟩ | ⟨hr, hp⟩)
    · exact ⟨r₀, hr₀, by simp [hp]⟩
    · exact ⟨r, hr, by simp [hp]⟩

theorem mem_update (hid : ∀ r, id (f r) = id r) (hkey : ∀ r, key (f r) = key r) :
    r ∈ t.update p f hid hkey ↔
      (∃ r₀ ∈ t, p r₀ = true ∧ f r₀ = r) ∨ (r ∈ t ∧ p r = false) :=
  mem_of_rows rfl

@[simp] theorem nextId_update (hid : ∀ r, id (f r) = id r) (hkey : ∀ r, key (f r) = key r) :
    (t.update p f hid hkey).nextId = t.nextId := rfl

theorem mem_delete : r ∈ t.delete p ↔ r ∈ t ∧ p r = false := by
  simp [mem_def, delete]

@[simp] theorem nextId_delete : (t.delete p).nextId = t.nextId := rfl

section Insert

variable [DecidableEq κ] {g : ℕ → ρ} {hg : ∀ n, id (g n) = n} {t' : Rows id key}

theorem rows_of_insert (h : t.insert g hg = some (r, t')) : t'.rows = t.rows ++ [r] := by
  simp only [insert] at h
  split_ifs at h
  obtain ⟨rfl, rfl⟩ : g t.nextId = r ∧ _ = t' := by simpa using h
  rfl

theorem of_insert (h : t.insert g hg = some (r, t')) :
    r = g t.nextId ∧ t'.nextId = t.nextId + 1 ∧ (∀ r₀ ∈ t, key r₀ ≠ key r) ∧
      ∀ r₀, r₀ ∈ t' ↔ r₀ ∈ t ∨ r₀ = r := by
  simp only [insert] at h
  split_ifs at h with hkey
  obtain ⟨rfl, rfl⟩ : g t.nextId = r ∧ _ = t' := by simpa using h
  refine ⟨rfl, rfl, fun r₀ hr₀ heq => hkey ?_, fun r₀ => ?_⟩
  · exact heq ▸ List.mem_map_of_mem hr₀
  · simp [mem_def]

end Insert

theorem of_find? {n : ℕ} (h : t.find? n = some r) : r ∈ t ∧ id r = n :=
  ⟨List.mem_of_find?_eq_some h, by simpa using List.find?_some h⟩

theorem find?_eq (hr : r ∈ t) : t.find? (id r) = some r := by
  cases hfind : t.find? (id r) with
  | none =>
    have := List.find?_eq_none.1 hfind r hr
    simp at this
  | some r' =>
    obtain ⟨hr', hid⟩ := of_find? hfind
    rw [eq_of_id hr' hr hid]

end Rows

end ArgusBackend
