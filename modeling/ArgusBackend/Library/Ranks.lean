import Mathlib.Data.Finset.Card
import Mathlib.Data.List.Dedup
import Mathlib.Data.List.Sort
import Mathlib.Data.List.TakeWhile

/-!
# Ranks

The rank of a value among the values of a list is the number of different ones below it: the
position of the value in the list sorted without repetitions.

* `Ranks.rank_lt_rank` : ranks are in the order of the values;
* `Ranks.rank_lt_length`, `Ranks.exists_rank` : the ranks in use are those below the number of
  different values.
-/

namespace ArgusBackend

namespace Ranks

variable {α : Type} [LinearOrder α]

/-- The values of a list, sorted and each once. -/
def distinct (l : List α) : List α := (l.insertionSort (· ≤ ·)).dedup

/-- The first position in a list at which a value may be inserted before what is not below it. -/
def lowerBound (l : List α) (v : α) : ℕ := (l.takeWhile (· < v)).length

/-- The number of different values of a list that are below `v`. -/
def rank (l : List α) (v : α) : ℕ := lowerBound (distinct l) v

variable {l : List α} {v v' : α}

@[simp] theorem mem_distinct : v ∈ distinct l ↔ v ∈ l := by
  rw [distinct, List.mem_dedup, List.mem_insertionSort]

theorem sorted_distinct (l : List α) : (distinct l).Pairwise (· < ·) := by
  have hle : (distinct l).Pairwise (· ≤ ·) :=
    (List.pairwise_insertionSort (· ≤ ·) l).sublist (List.dedup_sublist _)
  have hne : (distinct l).Pairwise (· ≠ ·) := List.nodup_dedup _
  exact hle.imp₂ (fun _ _ hle hne => lt_of_le_of_ne hle hne) hne

theorem length_distinct (l : List α) : (distinct l).length = l.toFinset.card := by
  rw [List.card_toFinset, distinct]
  exact (List.Perm.dedup (List.perm_insertionSort _ l)).length_eq

/-- In a sorted list without repetitions the lower bound of an element is its position. -/
theorem lowerBound_getElem {s : List α} (hs : s.Pairwise (· < ·)) {i : ℕ} (hi : i < s.length) :
    lowerBound s s[i] = i := by
  induction s generalizing i with
  | nil => simp at hi
  | cons a s ih =>
    obtain ⟨ha, hs'⟩ := List.pairwise_cons.1 hs
    cases i with
    | zero => simp [lowerBound]
    | succ i =>
      have hi' : i < s.length := by simpa using hi
      have hlt : a < s[i] := ha _ (List.getElem_mem hi')
      have hrest : (s.takeWhile (· < s[i])).length = i := ih hs' hi'
      simp [lowerBound, hlt, hrest]

theorem exists_getElem (hv : v ∈ l) : ∃ i, ∃ hi : i < (distinct l).length,
    (distinct l)[i] = v ∧ rank l v = i := by
  obtain ⟨i, hi, rfl⟩ := List.getElem_of_mem (mem_distinct.2 hv)
  exact ⟨i, hi, rfl, lowerBound_getElem (sorted_distinct l) hi⟩

theorem rank_lt_length (hv : v ∈ l) : rank l v < (distinct l).length := by
  obtain ⟨i, hi, -, hrank⟩ := exists_getElem hv
  exact hrank ▸ hi

theorem exists_rank {i : ℕ} (hi : i < (distinct l).length) : ∃ v ∈ l, rank l v = i :=
  ⟨(distinct l)[i], mem_distinct.1 (List.getElem_mem hi),
    lowerBound_getElem (sorted_distinct l) hi⟩

theorem rank_lt_rank (hv : v ∈ l) (hv' : v' ∈ l) : rank l v < rank l v' ↔ v < v' := by
  obtain ⟨i, hi, rfl, hrank⟩ := exists_getElem hv
  obtain ⟨j, hj, rfl, hrank'⟩ := exists_getElem hv'
  rw [hrank, hrank']
  exact (List.pairwise_iff_getElem.1 (sorted_distinct l) |> fun h =>
    ⟨fun hij => h i j hi hj hij, fun hlt => by
      by_contra hij
      rcases eq_or_lt_of_le (not_lt.1 hij) with rfl | hji
      · exact lt_irrefl _ hlt
      · exact lt_asymm hlt (h j i hj hi hji)⟩)

theorem rank_le_rank (hv : v ∈ l) (hv' : v' ∈ l) : rank l v ≤ rank l v' ↔ v ≤ v' := by
  rw [← not_lt, rank_lt_rank hv' hv, not_lt]

end Ranks

end ArgusBackend
