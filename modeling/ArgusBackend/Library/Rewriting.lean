import ArgusBackend.Library.Words

/-!
# Rewriting phrases

A phrase is found in a text of words by its letters, with a blank on both sides.  Replacing it there
is rewriting the words.

* `padded` : the words with a blank before and after each;
* `replaced_padded` : the first place of a phrase in the letters is the first one in the words;
* `rewriteLoop_none` : a rule that shortens is used up.
-/

namespace ArgusBackend

namespace Words

variable {α : Type}

/-- Words with a blank before and after each. -/
def padded (blank : α) (ws : List (List α)) : List α := blank :: ws.flatMap (· ++ [blank])

section Padded

variable {blank : α} {w w' : List α} {p ws : List (List α)}

lemma padded_cons (blank : α) (w : List α) (ws : List (List α)) :
    padded blank (w :: ws) = blank :: (w ++ padded blank ws) := by
  simp [padded]

lemma padded_append (p r : List (List α)) :
    padded blank (p ++ r) = padded blank p ++ r.flatMap (· ++ [blank]) := by
  simp [padded]

/-- A word ends at its blank. -/
lemma word_append_inj (hw : blank ∉ w) (hw' : blank ∉ w') {x y : List α}
    (h : w ++ blank :: x = w' ++ blank :: y) : w = w' ∧ x = y := by
  induction w generalizing w' with
  | nil =>
    cases w' with
    | nil => exact ⟨rfl, (List.cons.inj h).2⟩
    | cons d w' => exact absurd ((List.cons.inj h).1 ▸ List.mem_cons_self) hw'
  | cons d w ih =>
    cases w' with
    | nil => exact absurd ((List.cons.inj h).1 ▸ List.mem_cons_self) hw
    | cons d' w' =>
      obtain ⟨rfl, htail⟩ := List.cons.inj h
      rw [List.mem_cons, not_or] at hw hw'
      obtain ⟨rfl, hxy⟩ := ih hw.2 hw'.2 htail
      exact ⟨rfl, hxy⟩

lemma prefix_of_padded (hp : ∀ w ∈ p, blank ∉ w) (hws : ∀ w ∈ ws, blank ∉ w)
    (h : padded blank p <+: padded blank ws) : p <+: ws := by
  induction p generalizing ws with
  | nil => exact List.nil_prefix
  | cons w p ih =>
    rw [List.forall_mem_cons] at hp
    obtain ⟨t, ht⟩ := h
    cases ws with
    | nil => simp [padded] at ht
    | cons w' ws =>
      rw [List.forall_mem_cons] at hws
      rw [padded_cons, padded_cons, List.cons_append, List.cons.injEq, List.append_assoc] at ht
      obtain ⟨rfl, hrest⟩ := word_append_inj hp.1 hws.1 ht.2
      have hpre : padded blank p <+: padded blank ws := ⟨t, congrArg (blank :: ·) hrest⟩
      exact List.cons_prefix_cons.mpr ⟨rfl, ih hp.2 hws.2 hpre⟩

end Padded

variable [DecidableEq α]

/-- The first place where `needle` is in a text. -/
def find (needle : List α) : List α → Option ℕ
  | [] => if needle = [] then some 0 else none
  | c :: s => if needle <+: c :: s then some 0 else (find needle s).map (· + 1)

/-- A part of a list is replaced. -/
def replace (at_ n : ℕ) (repl s : List α) : List α := s.take at_ ++ repl ++ s.drop (at_ + n)

/-- The text with the first `needle` replaced, if there is one. -/
def replaced (needle repl s : List α) : Option (List α) :=
  (find needle s).map fun at_ => replace at_ needle.length repl s

/-- At most `n` replacements, one after the other. -/
def replaceLoop (needle repl : List α) : ℕ → List α → List α
  | 0, s => s
  | n + 1, s =>
    match replaced needle repl s with
    | none => s
    | some s' => replaceLoop needle repl n s'

/-- The words with the first phrase `p` replaced by `q`, if there is one. -/
def rewrite (p q : List (List α)) : List (List α) → Option (List (List α))
  | [] => none
  | w :: ws => if p <+: w :: ws then some (q ++ (w :: ws).drop p.length)
      else (rewrite p q ws).map (w :: ·)

/-- The first phrase is rewritten again and again. -/
def rewriteLoop (p q : List (List α)) : ℕ → List (List α) → List (List α)
  | 0, ws => ws
  | n + 1, ws =>
    match rewrite p q ws with
    | none => ws
    | some ws' => rewriteLoop p q n ws'

variable {blank c : α} {needle repl s u w w' : List α} {p q ws ws' : List (List α)} {n : ℕ}

lemma replaced_cons_of_not (h : ¬needle <+: c :: s) :
    replaced needle repl (c :: s) = (replaced needle repl s).map (c :: ·) := by
  rw [replaced, find, if_neg h, Option.map_map, replaced, Option.map_map]
  congr 1
  funext at_
  simp [replace, Nat.succ_add]

lemma replaced_of_prefix (hne : needle ≠ []) (rest : List α) :
    replaced needle repl (needle ++ rest) = some (repl ++ rest) := by
  cases needle with
  | nil => exact absurd rfl hne
  | cons d needle =>
    rw [replaced, List.cons_append, find, if_pos ⟨rest, rfl⟩]
    simp [replace]

/-- A needle that starts with a blank is not among letters. -/
lemma replaced_letters (hu : blank ∉ u) :
    replaced (blank :: needle) repl (u ++ s) =
      (replaced (blank :: needle) repl s).map (u ++ ·) := by
  induction u with
  | nil => simp
  | cons d u ih =>
    rw [List.mem_cons, not_or] at hu
    have hnot : ¬blank :: needle <+: d :: (u ++ s) := fun h => hu.1 (List.cons_prefix_cons.mp h).1
    rw [List.cons_append, replaced_cons_of_not hnot, ih hu.2, Option.map_map]
    rfl

/-- Replacing a phrase between blanks is rewriting the words. -/
theorem replaced_padded (hne : p ≠ []) (hp : ∀ w ∈ p, blank ∉ w) (hws : ∀ w ∈ ws, blank ∉ w) :
    replaced (padded blank p) (padded blank q) (padded blank ws) =
      (rewrite p q ws).map (padded blank) := by
  induction ws with
  | nil =>
    have hnot : ¬padded blank p <+: blank :: [] := by
      intro h
      have hnil : p <+: [] := prefix_of_padded hp (by simp) (h : padded blank p <+: padded blank [])
      exact hne (List.prefix_nil.mp hnil)
    rw [show padded blank [] = blank :: [] from rfl, replaced_cons_of_not hnot]
    simp [rewrite, replaced, find, padded]
  | cons w ws ih =>
    rw [List.forall_mem_cons] at hws
    by_cases hbegins : p <+: w :: ws
    · obtain ⟨r, hr⟩ := hbegins
      rw [rewrite, if_pos ⟨r, hr⟩, ← hr, List.drop_left, padded_append,
        replaced_of_prefix (by simp [padded]), Option.map_some, padded_append]
    · have hnot : ¬padded blank p <+: padded blank (w :: ws) := fun h =>
        hbegins (prefix_of_padded hp (List.forall_mem_cons.mpr hws) h)
      rw [rewrite, if_neg hbegins, padded_cons] at *
      rw [replaced_cons_of_not hnot, padded, replaced_letters hws.1, ← padded, ih hws.2,
        Option.map_map, Option.map_map, Option.map_map]
      congr 1
      funext x
      exact (padded_cons blank w x).symm

lemma rewrite_some (h : rewrite p q ws = some ws') : ∃ l r, ws = l ++ p ++ r ∧ ws' = l ++ q ++ r := by
  induction ws generalizing ws' with
  | nil => cases h
  | cons w ws ih =>
    rw [rewrite] at h
    split_ifs at h with hbegins
    · obtain ⟨r, hr⟩ := hbegins
      refine ⟨[], r, hr.symm, ?_⟩
      rw [← Option.some.inj h, ← hr, List.drop_left]
      rfl
    · obtain ⟨ws'', hrest, rfl⟩ := Option.map_eq_some_iff.mp h
      obtain ⟨l, r, rfl, rfl⟩ := ih hrest
      exact ⟨w :: l, r, rfl, rfl⟩

lemma rewrite_eq_none (hne : p ≠ []) : rewrite p q ws = none ↔ ¬p <:+: ws := by
  induction ws with
  | nil => simp [rewrite, hne]
  | cons w ws ih =>
    rw [rewrite, List.infix_cons_iff, not_or]
    split_ifs with hbegins
    · simp [hbegins]
    · rw [Option.map_eq_none_iff, ih]
      exact (and_iff_right hbegins).symm

/-- A needle is found where its phrase is among the words. -/
theorem find_padded (hne : p ≠ []) (hp : ∀ w ∈ p, blank ∉ w) (hws : ∀ w ∈ ws, blank ∉ w) :
    (find (padded blank p) (padded blank ws)).isSome = true ↔ p <:+: ws := by
  have h := replaced_padded (q := []) hne hp hws
  rw [replaced] at h
  rw [← not_iff_not, ← rewrite_eq_none (q := []) hne, Bool.not_eq_true, Option.isSome_eq_false_iff,
    Option.isNone_iff_eq_none, ← Option.map_eq_none_iff, h, Option.map_eq_none_iff]

lemma mem_of_rewrite (h : rewrite p q ws = some ws') (hw : w ∈ ws') : w ∈ ws ∨ w ∈ q := by
  obtain ⟨l, r, rfl, rfl⟩ := rewrite_some h
  simp only [List.mem_append] at hw ⊢
  tauto

theorem replaceLoop_padded (hne : p ≠ []) (hp : ∀ w ∈ p, blank ∉ w) (hq : ∀ w ∈ q, blank ∉ w)
    (hws : ∀ w ∈ ws, blank ∉ w) :
    replaceLoop (padded blank p) (padded blank q) n (padded blank ws) =
      padded blank (rewriteLoop p q n ws) := by
  induction n generalizing ws with
  | zero => rfl
  | succ n ih =>
    rw [replaceLoop, rewriteLoop, replaced_padded hne hp hws]
    cases h : rewrite p q ws with
    | none => rfl
    | some ws' =>
      refine ih fun w hw => ?_
      rcases mem_of_rewrite h hw with hw | hw
      · exact hws w hw
      · exact hq w hw

/-- What every use of the rule keeps holds in the end. -/
lemma rewriteLoop_invariant {P : List (List α) → Prop}
    (hstep : ∀ ws ws', P ws → rewrite p q ws = some ws' → P ws') (h : P ws) :
    P (rewriteLoop p q n ws) := by
  induction n generalizing ws with
  | zero => exact h
  | succ n ih =>
    rw [rewriteLoop]
    split
    · exact h
    · next ws' hws' => exact ih (hstep ws ws' h hws')

lemma mem_of_rewriteLoop (hw : w ∈ rewriteLoop p q n ws) : w ∈ ws ∨ w ∈ q := by
  revert hw
  refine rewriteLoop_invariant (P := fun ws' => w ∈ ws' → w ∈ ws ∨ w ∈ q) ?_ .inl
  intro ws₁ ws₂ hkeep hstep hw
  rcases mem_of_rewrite hstep hw with hw | hw
  · exact hkeep hw
  · exact .inr hw

/-- A rule that shortens is used up after as many steps as there are words. -/
theorem rewriteLoop_none (hshort : q.length < p.length) (hn : ws.length ≤ n) :
    ¬p <:+: rewriteLoop p q n ws := by
  have hne : p ≠ [] := by
    rintro rfl
    exact absurd hshort (Nat.not_lt_zero _)
  induction n generalizing ws with
  | zero =>
    rw [rewriteLoop, List.eq_nil_of_length_eq_zero (Nat.le_zero.mp hn)]
    exact fun h => hne (List.infix_nil.mp h)
  | succ n ih =>
    rw [rewriteLoop]
    split
    · next hnone => exact (rewrite_eq_none hne).mp hnone
    · next ws' hws' =>
      obtain ⟨l, r, rfl, rfl⟩ := rewrite_some hws'
      refine ih ?_
      simp only [List.length_append] at hn ⊢
      omega

lemma rewriteLoop_absent (hne : p ≠ []) (h : ¬p <:+: ws) : rewriteLoop p q n ws = ws := by
  cases n with
  | zero => rfl
  | succ n => rw [rewriteLoop, (rewrite_eq_none hne).mpr h]

end Words

end ArgusBackend
