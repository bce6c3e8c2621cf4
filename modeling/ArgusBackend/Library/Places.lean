import Mathlib.Data.List.Basic

/-!
# One place of a list set anew

What `List.set` does to a count and to the members, and that what is counted at most once stands in
one place.
-/

namespace ArgusBackend

namespace Places

variable {α : Type*} {l : List α} {i : ℕ} {a a' : α}

theorem countP_replace {p : α → Bool} (hi : l[i]? = some a) :
    (l.set i a').countP p + (if p a then 1 else 0) = l.countP p + if p a' then 1 else 0 := by
  obtain ⟨hlt, rfl⟩ := List.getElem?_eq_some_iff.1 hi
  rw [List.countP_set hlt]
  have hpos : (if p l[i] then 1 else 0) ≤ l.countP p := by
    split
    next h => exact List.countP_pos_iff.2 ⟨_, List.getElem_mem hlt, h⟩
    next => exact Nat.zero_le _
  omega

/-- What stands in a list after one place was set. -/
theorem mem_replaced {b : α} (hb : b ∈ l.set i a') :
    b = a' ∨ ∃ j, j ≠ i ∧ l[j]? = some b := by
  obtain ⟨j, hj⟩ := List.mem_iff_getElem?.1 hb
  by_cases hij : i = j
  · subst hij
    have hlt : i < l.length := by
      simpa using (List.getElem?_eq_some_iff.1 hj).1
    rw [List.getElem?_set_self hlt] at hj
    exact .inl (Option.some.inj hj).symm
  · exact .inr ⟨j, Ne.symm hij, by rwa [List.getElem?_set_ne hij] at hj⟩

theorem set_self (hi : l[i]? = some a) : l.set i a = l := by
  obtain ⟨hlt, rfl⟩ := List.getElem?_eq_some_iff.1 hi
  exact List.set_getElem_self hlt

/-- What stands in a list, and differs from what stood at the place that was set. -/
theorem mem_set_of_ne {b : α} (hi : l[i]? = some a) (hb : b ∈ l) (hne : b ≠ a) : b ∈ l.set i a' := by
  obtain ⟨j, hj⟩ := List.mem_iff_getElem?.1 hb
  have hij : i ≠ j := fun heq => hne (by rw [heq, hj] at hi; exact Option.some.inj hi)
  exact List.mem_iff_getElem?.2 ⟨j, by rwa [List.getElem?_set_ne hij]⟩

theorem eq_or_mem_set {b : α} (hi : l[i]? = some a) (hb : b ∈ l) : b = a ∨ b ∈ l.set i a' := by
  by_cases heq : b = a
  · exact .inl heq
  · exact .inr (mem_set_of_ne hi hb heq)

theorem mem_set_self (hi : l[i]? = some a) : a' ∈ l.set i a' :=
  List.mem_set (List.getElem?_eq_some_iff.1 hi).1 a'

/-- What is picked from a list, around one place of it. -/
theorem filterMap_replace {β : Type*} (f : α → Option β) (hi : l[i]? = some a) :
    ∃ before after, l.filterMap f = before ++ (f a).toList ++ after ∧
      ∀ a', (l.set i a').filterMap f = before ++ (f a').toList ++ after := by
  obtain ⟨hlt, rfl⟩ := List.getElem?_eq_some_iff.1 hi
  have hsplit : ∀ (x : α) rest, (x :: rest).filterMap f = (f x).toList ++ rest.filterMap f := by
    intro x rest
    rw [List.filterMap_cons]
    cases f x <;> rfl
  refine ⟨(l.take i).filterMap f, (l.drop (i + 1)).filterMap f, ?_, fun a' => ?_⟩
  · conv_lhs => rw [← List.take_append_drop i l, List.drop_eq_getElem_cons hlt]
    rw [List.filterMap_append, hsplit, List.append_assoc]
  · rw [List.set_eq_take_append_cons_drop, if_pos hlt, List.filterMap_append, hsplit,
      List.append_assoc]

/-- What is counted at most once stands in one place. -/
theorem eq_of_countP_le_one {p : α → Bool} {j : ℕ} {b : α} (hle : l.countP p ≤ 1)
    (hi : l[i]? = some a) (ha : p a = true) (hj : l[j]? = some b) (hb : p b = true) : i = j := by
  induction l generalizing i j with
  | nil => cases hi
  | cons x l ih =>
    have hnone : p x = true → ∀ (k : ℕ) (y : α), l[k]? = some y → p y ≠ true := by
      intro hx k y hk hy
      rw [List.countP_cons_of_pos hx] at hle
      have hpos := List.countP_pos_iff.2 ⟨y, List.mem_of_getElem? hk, hy⟩
      omega
    cases i with
    | zero =>
      obtain rfl : x = a := Option.some.inj hi
      cases j with
      | zero => rfl
      | succ j => exact absurd hb (hnone ha j b hj)
    | succ i =>
      cases j with
      | zero =>
        obtain rfl : x = b := Option.some.inj hj
        exact absurd ha (hnone hb i a hi)
      | succ j =>
        have hrest : l.countP p ≤ 1 := Nat.le_trans ((List.sublist_cons_self x l).countP_le) hle
        exact congrArg _ (ih hrest hi hj)

end Places

end ArgusBackend
