import Mathlib.Data.List.Infix
import Mathlib.Tactic.Common

/-!
# The longest suffix in a set of words

A set of words that has the prefixes of its words is read letter by letter: what is kept is the
longest suffix of the letters so far that is in the set.

* `Longest` : a word is the longest suffix of another one that is in the set;
* `Climbs.next`, `Climbs.border` : the next letter, along shorter and shorter suffixes;
* `Longest.flatMap_tails` : what is found at the suffixes of a word, from the longest one alone.
-/

namespace ArgusBackend

namespace Suffixes

variable {α : Type} {T : List α → Prop} {w u v v' x : List α} {c : α}

/-- `v` is the longest suffix of `w` in `T`. -/
structure Longest (T : List α → Prop) (w v : List α) : Prop where
  suffix : v <:+ w
  mem : T v
  most : ∀ u, u <:+ w → T u → u <:+ v

lemma suffix_antisymm (h : u <:+ v) (h' : v <:+ u) : u = v :=
  h.eq_of_length (Nat.le_antisymm h.length_le h'.length_le)

theorem Longest.unique (h : Longest T w v) (h' : Longest T w v') : v = v' :=
  suffix_antisymm (h'.most v h.suffix h.mem) (h.most v' h'.suffix h'.mem)

/-- A suffix of a text with one more letter is empty, or ends in that letter. -/
lemma suffix_concat (h : x <:+ w ++ [c]) : x = [] ∨ ∃ y, x = y ++ [c] ∧ y <:+ w := by
  obtain ⟨l, hl⟩ := h
  rcases List.eq_nil_or_concat x with rfl | ⟨y, d, rfl⟩
  · exact .inl rfl
  · refine .inr ⟨y, ?_, l, ?_⟩
    · rw [List.concat_eq_append, ← List.append_assoc] at hl
      rw [List.concat_eq_append, (List.append_inj' hl rfl).2]
    · rw [List.concat_eq_append, ← List.append_assoc] at hl
      exact (List.append_inj' hl rfl).1

lemma suffix_append_letter (h : u <:+ v) (c : α) : u ++ [c] <:+ v ++ [c] := by
  obtain ⟨l, rfl⟩ := h
  exact ⟨l, by rw [List.append_assoc]⟩

/-- On the way to the next state: every suffix that the letter continues is one of `u`. -/
structure Climbs (T : List α → Prop) (w : List α) (c : α) (u : List α) : Prop where
  suffix : u <:+ w
  mem : T u
  bound : ∀ y, y <:+ w → T (y ++ [c]) → y <:+ u

theorem Longest.climbs (hclosed : ∀ w c, T (w ++ [c]) → T w) (h : Longest T w v) (c : α) :
    Climbs T w c v :=
  ⟨h.suffix, h.mem, fun y hy hT => h.most y hy (hclosed y c hT)⟩

namespace Climbs

/-- Where the letter goes on, the next state is found. -/
theorem next (h : Climbs T w c u) (hT : T (u ++ [c])) :
    Longest T (w ++ [c]) (u ++ [c]) := by
  refine ⟨suffix_append_letter h.suffix c, hT, fun x hx hTx => ?_⟩
  rcases suffix_concat hx with rfl | ⟨y, rfl, hy⟩
  · exact List.nil_suffix
  · exact suffix_append_letter (h.bound y hy hTx) c

/-- At the root without that letter nothing is kept. -/
theorem none (h : Climbs T w c []) (hnil : T []) (hT : ¬T [c]) : Longest T (w ++ [c]) [] := by
  refine ⟨List.nil_suffix, hnil, fun x hx hTx => ?_⟩
  rcases suffix_concat hx with rfl | ⟨y, rfl, hy⟩
  · exact List.nil_suffix
  · have hy' := List.suffix_nil.mp (h.bound y hy hTx)
    subst hy'
    exact absurd hTx hT

/-- Where it does not, the longest proper suffix is tried. -/
theorem border (hclosed : ∀ w c, T (w ++ [c]) → T w) (h : Climbs T w c u)
    (hT : ¬T (u ++ [c])) (hv : Longest T u.tail v) : Climbs T w c v := by
  refine ⟨(hv.suffix.trans (List.tail_suffix u)).trans h.suffix, hv.mem, fun y hy hTy => ?_⟩
  have hyu := h.bound y hy hTy
  refine hv.most y ?_ (hclosed y c hTy)
  -- `y` is not all of `u`, which the letter does not continue
  obtain ⟨l, hl⟩ := hyu
  cases l with
  | nil => exact absurd (hl ▸ hTy) hT
  | cons a l => exact ⟨l, by rw [← hl]; rfl⟩

end Climbs

/-- What is only found in `T` is found at the suffixes of the longest one. -/
theorem Longest.flatMap_tails {β : Type} (h : Longest T w v) (g : List α → List β)
    (hg : ∀ x, g x ≠ [] → T x) : w.tails.flatMap g = v.tails.flatMap g := by
  obtain ⟨hsuffix, -, hmost⟩ := h
  induction w with
  | nil => rw [List.suffix_nil.mp hsuffix]
  | cons a w ih =>
    rcases List.suffix_cons_iff.mp hsuffix with rfl | hsuffix
    · rfl
    · have hnone : g (a :: w) = [] := by
        by_contra hne
        have hle := (hmost _ (List.suffix_refl _) (hg _ hne)).length_le
        have hle' := hsuffix.length_le
        rw [List.length_cons] at hle
        omega
      rw [List.tails_cons, List.flatMap_cons, hnone, List.nil_append]
      exact ih hsuffix fun u hu => hmost u (hu.trans (List.suffix_cons a w))

end Suffixes

end ArgusBackend
