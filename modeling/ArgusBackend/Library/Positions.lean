import ArgusBackend.Library.Table

/-!
# Lists with positions

A list without repetitions, with an index of where its members stand.  A member is added at the end;
the last member takes the place of one that is removed.

* `Positions` : the list and its index, which are inverse to each other;
* `mem_add`, `mem_remove` : the members after an operation.
-/

namespace ArgusBackend

/-- A list and the positions of its members. -/
structure Positions (α : Type) [DecidableEq α] where
  members : List α := []
  index : Table α ℕ := ∅
  inverse : ∀ a i, index.lookup a = some i ↔ members[i]? = some a := by simp

namespace Positions

variable {α : Type} [DecidableEq α] {members : List α} {index : Table α ℕ} {a b : α} {i : ℕ}

/-! ### The operations keep the index -/

theorem inverse_append (hinverse : ∀ a i, index.lookup a = some i ↔ members[i]? = some a)
    (hnone : index.lookup b = none) (a : α) (i : ℕ) :
    (index.insert b members.length).lookup a = some i ↔ (members ++ [b])[i]? = some a := by
  have hout : ∀ i : ℕ, members[i]? ≠ some b := fun i hi => by
    rw [(hinverse b i).2 hi] at hnone
    cases hnone
  rw [List.getElem?_append]
  by_cases hab : a = b
  · subst hab
    rw [AList.lookup_insert]
    split_ifs with hi
    · exact ⟨fun heq => by simp at heq; omega, fun hget => absurd hget (hout i)⟩
    · rw [List.getElem?_singleton]
      split_ifs <;> simp <;> omega
  · rw [AList.lookup_insert_ne hab, hinverse]
    split_ifs with hi
    · rfl
    · rw [List.getElem?_eq_none (not_lt.1 hi), List.getElem?_singleton]
      split_ifs <;> simp [Ne.symm hab]

/-- The last member takes the place of a member. -/
theorem inverse_swap (hinverse : ∀ a i, index.lookup a = some i ↔ members[i]? = some a)
    {moved : α} (hlast : members.getLast? = some moved) (hb : index.lookup b = some i)
    (hne : i ≠ members.length - 1) (a : α) (j : ℕ) :
    ((index.insert moved i).erase b).lookup a = some j ↔
      (members.set i moved).dropLast[j]? = some a := by
  have hb' : members[i]? = some b := (hinverse b i).1 hb
  have hi : i < members.length := (List.getElem?_eq_some_iff.1 hb').1
  have hmoved : members[members.length - 1]? = some moved := by rw [← hlast, List.getLast?_eq_getElem?]
  have hapart {a : α} {j j' : ℕ} (h : members[j]? = some a) (h' : members[j']? = some a) : j = j' :=
    Option.some.inj (((hinverse a j).2 h).symm.trans ((hinverse a j').2 h'))
  have hbm : b ≠ moved := fun heq => hne (hapart hb' (heq ▸ hmoved))
  rw [List.getElem?_dropLast, List.length_set, List.getElem?_set]
  by_cases hab : a = b
  · subst hab
    rw [AList.lookup_erase]
    refine ⟨fun heq => by simp at heq, fun hget => ?_⟩
    split_ifs at hget with hj hij
    · exact absurd (Option.some.inj hget).symm hbm
    · exact absurd (hapart hb' hget) hij
  · rw [AList.lookup_erase_ne hab]
    by_cases ham : a = moved
    · subst ham
      rw [AList.lookup_insert]
      constructor
      · rintro ⟨⟩
        rw [if_pos (by omega), if_pos rfl, if_pos hi]
      · intro hget
        split_ifs at hget with hj hij
        · rw [hij]
        · have := hapart hget hmoved
          omega
    · rw [AList.lookup_insert_ne ham, hinverse]
      split_ifs with hj hij
      · subst hij
        rw [hb']
        simp [Ne.symm hab, Ne.symm ham]
      · rfl
      · refine ⟨fun hget => ?_, fun heq => by simp at heq⟩
        have hjlt := (List.getElem?_eq_some_iff.1 hget).1
        obtain rfl : j = members.length - 1 := by omega
        exact absurd (Option.some.inj (hget.symm.trans hmoved)) ham

/-- The last member itself goes. -/
theorem inverse_dropLast (hinverse : ∀ a i, index.lookup a = some i ↔ members[i]? = some a)
    (hb : index.lookup b = some (members.length - 1)) (a : α) (j : ℕ) :
    (index.erase b).lookup a = some j ↔ members.dropLast[j]? = some a := by
  rw [List.getElem?_dropLast]
  by_cases hab : a = b
  · subst hab
    rw [AList.lookup_erase]
    refine ⟨fun heq => by simp at heq, fun hget => ?_⟩
    split_ifs at hget with hj
    have := Option.some.inj (hb.symm.trans ((hinverse a j).2 hget))
    omega
  · rw [AList.lookup_erase_ne hab, hinverse]
    split_ifs with hj
    · rfl
    · refine ⟨fun hget => ?_, fun heq => by simp at heq⟩
      have hjlt := (List.getElem?_eq_some_iff.1 hget).1
      obtain rfl : j = members.length - 1 := by omega
      exact absurd (Option.some.inj (hget.symm.trans ((hinverse b _).1 hb))) hab

/-! ### Operations -/

variable (s : Positions α)

/-- An element is added at the end, unless it is there. -/
def add (a : α) : Positions α :=
  if h : s.index.lookup a = none then
    ⟨s.members ++ [a], s.index.insert a s.members.length, inverse_append s.inverse h⟩
  else s

/-- An element goes, and the last one takes its place. -/
def remove (a : α) : Positions α :=
  match h : s.index.lookup a with
  | none => s
  | some i =>
    if hne : i ≠ s.members.length - 1 then
      match hlast : s.members.getLast? with
      | none => s
      | some moved =>
        ⟨(s.members.set i moved).dropLast, (s.index.insert moved i).erase a,
          inverse_swap s.inverse hlast h hne⟩
    else
      ⟨s.members.dropLast, s.index.erase a,
        inverse_dropLast s.inverse (not_not.1 hne ▸ h)⟩

variable {s}

theorem mem_members : a ∈ s.members ↔ ∃ i, s.index.lookup a = some i := by
  rw [List.mem_iff_getElem?]
  exact exists_congr fun i => (s.inverse a i).symm

theorem nodup_members (s : Positions α) : s.members.Nodup := by
  rw [List.nodup_iff_getElem?_ne_getElem?]
  intro i j hij hj heq
  obtain ⟨a, ha⟩ := Option.isSome_iff_exists.1 (by simpa using hj : (s.members[j]?).isSome)
  have := Option.some.inj (((s.inverse a j).2 ha).symm.trans ((s.inverse a i).2 (heq.trans ha)))
  omega

theorem mem_add : b ∈ (s.add a).members ↔ b = a ∨ b ∈ s.members := by
  unfold add
  split_ifs with h
  · change b ∈ s.members ++ [a] ↔ _
    rw [List.mem_append, List.mem_singleton, or_comm]
  · obtain ⟨i, hi⟩ := Option.ne_none_iff_exists'.1 h
    refine ⟨.inr, fun hb => hb.elim (fun heq => ?_) id⟩
    exact heq ▸ mem_members.2 ⟨i, hi⟩

theorem mem_remove : b ∈ (s.remove a).members ↔ b ∈ s.members ∧ b ≠ a := by
  unfold remove
  split
  next hnone =>
    refine ⟨fun hb => ⟨hb, fun heq => ?_⟩, And.left⟩
    obtain ⟨i, hi⟩ := mem_members.1 hb
    rw [heq, hnone] at hi
    cases hi
  next i hi =>
    have hget : s.members[i]? = some a := (s.inverse a i).1 hi
    split_ifs with hne
    · split
      next hlast => simp [List.getLast?_eq_none_iff.1 hlast] at hget
      next moved hlast =>
        rw [mem_members, mem_members]
        have hmoved : ∃ i, s.index.lookup moved = some i :=
          mem_members.1 (List.mem_of_getLast? hlast)
        by_cases hb : b = a
        · subst hb
          simp [AList.lookup_erase]
        · by_cases hbm : b = moved
          · subst hbm
            simp [AList.lookup_erase_ne hb, hmoved, hb]
          · simp [AList.lookup_erase_ne hb, AList.lookup_insert_ne hbm, hb]
    · rw [mem_members, mem_members]
      by_cases hb : b = a
      · subst hb
        simp [AList.lookup_erase]
      · simp [AList.lookup_erase_ne hb, hb]

end Positions

end ArgusBackend
