import Mathlib.Algebra.Order.Monoid.Unbundled.Basic
import Mathlib.Data.List.Induction
import Mathlib.Data.List.Pairwise
import Mathlib.Logic.Function.Basic

/-!
# Best paths over positions

Edges lead from positions to later ones, and their scores are added from the left along a path.
Each edge is relaxed once, in the order of the sources; a table keeps the best score of a position
and where it was reached from.  All that is asked of the addition is that it is monotone on the
left, so the scores may be rounded.

* `Settled` : what the table holds when all edges were relaxed;
* `trace_spec` : traced back, the table gives a path of the score it holds;
* `le_of_chain` : no path to a position has a better score.
-/

namespace ArgusBackend

namespace Trellis

/-- An edge from a place to another, with its score. -/
structure Edge (S α : Type) where
  source : ℕ
  target : ℕ
  score : S
  label : α

/-- The best way to a place: its score and its last edge. -/
structure Node (S α : Type) where
  score : S
  start : ℕ
  label : α

variable {S α : Type} [LinearOrder S] [Add S]

/-- The table is empty but for the position 0. -/
def table (zero : Node S α) : ℕ → Option (Node S α) := fun p => if p = 0 then some zero else none

/-- An edge betters the way to its target. -/
def relax (best : ℕ → Option (Node S α)) (e : Edge S α) : ℕ → Option (Node S α) :=
  match best e.source with
  | none => best
  | some n =>
    if (best e.target).all fun old => old.score < n.score + e.score then
      Function.update best e.target (some ⟨n.score + e.score, e.source, e.label⟩)
    else best

/-- The ends and labels of the edges of a path, the last one first. -/
def trace (best : ℕ → Option (Node S α)) : ℕ → ℕ → List (ℕ × α)
  | 0, _ => []
  | fuel + 1, p =>
    if p = 0 then []
    else
      match best p with
      | none => []
      | some n => (p, n.label) :: trace best fuel n.start

/-- Edges that lead from `a` to `b`. -/
def Chain : ℕ → List (Edge S α) → ℕ → Prop
  | a, [], b => a = b
  | a, e :: path, b => e.source = a ∧ Chain e.target path b

/-- The score of a path. -/
def total (s : S) (path : List (Edge S α)) : S := path.foldl (fun s e => s + e.score) s

/-- A table from which nothing is gained by relaxing one of the edges. -/
structure Settled (es : List (Edge S α)) (zero : Node S α) (best : ℕ → Option (Node S α)) :
    Prop where
  start : best 0 = some zero
  reached : ∀ p n, best p = some n → p ≠ 0 → ∃ e ∈ es, e.target = p ∧ e.source = n.start ∧
    e.label = n.label ∧ ∃ m, best e.source = some m ∧ n.score = m.score + e.score
  beaten : ∀ e ∈ es, ∀ m, best e.source = some m →
    ∃ n, best e.target = some n ∧ m.score + e.score ≤ n.score

section Lemmas

variable {es path path' : List (Edge S α)} {zero n m : Node S α}
  {best : ℕ → Option (Node S α)} {e : Edge S α} {a b p : ℕ} {s s' : S}

theorem relax_none (h : best e.source = none) : relax best e = best := by
  unfold relax
  rw [h]

theorem foldl_relax_none (h : ∀ e ∈ es, best e.source = none) :
    es.foldl Trellis.relax best = best := by
  induction es with
  | nil => rfl
  | cons e es ih =>
    rw [List.foldl_cons, relax_none (h e (List.mem_cons_self ..))]
    exact ih fun e' he' => h e' (List.mem_cons_of_mem _ he')

theorem relax_of_ne (hne : p ≠ e.target) : relax best e p = best p := by
  cases hm : best e.source with
  | none => rw [relax_none hm]
  | some m =>
    unfold relax
    rw [hm]
    dsimp only
    split_ifs
    · exact Function.update_of_ne hne _ _
    · rfl

/-- What the target of the edge holds then. -/
theorem relax_target (hm : best e.source = some m) :
    (∃ n, best e.target = some n ∧ m.score + e.score ≤ n.score ∧ relax best e = best) ∨
      relax best e e.target = some ⟨m.score + e.score, e.source, e.label⟩ := by
  unfold relax
  rw [hm]
  dsimp only
  split_ifs with hbetter
  · exact .inr (Function.update_self ..)
  · obtain ⟨n, hn, hle⟩ : ∃ n, best e.target = some n ∧ m.score + e.score ≤ n.score := by
      cases hn : best e.target with
      | none => simp [hn] at hbetter
      | some n => exact ⟨n, rfl, by simpa [hn] using hbetter⟩
    exact .inl ⟨n, hn, hle, rfl⟩

/-- Relaxing an edge whose source is not before those of the edges that were relaxed. -/
theorem Settled.relax (h : Settled es zero best)
    (hforward : ∀ e' ∈ es ++ [e], e'.source < e'.target)
    (hlast : ∀ e' ∈ es, e'.source ≤ e.source) : Settled (es ++ [e]) zero (relax best e) := by
  have hlt : e.source < e.target := hforward e (by simp)
  have hpos : (0 : ℕ) ≠ e.target := by omega
  have hsource (e' : Edge S α) (he' : e' ∈ es ++ [e]) : Trellis.relax best e e'.source =
      best e'.source := by
    refine relax_of_ne ?_
    rcases List.mem_append.1 he' with he' | he'
    · have := hlast e' he'
      omega
    · obtain rfl := List.mem_singleton.1 he'
      omega
  have hkept {p : ℕ} {n : Node S α} (hn : best p = some n) (hp : p ≠ 0) :
      ∃ e' ∈ es ++ [e], e'.target = p ∧ e'.source = n.start ∧ e'.label = n.label ∧
        ∃ m, Trellis.relax best e e'.source = some m ∧ n.score = m.score + e'.score := by
    obtain ⟨e', he', htarget, hstart, hlabel, m, hm, hscore⟩ := h.reached p n hn hp
    have he'' := List.mem_append_left [e] he'
    exact ⟨e', he'', htarget, hstart, hlabel, m, (hsource e' he'').trans hm, hscore⟩
  refine ⟨(relax_of_ne hpos).trans h.start, fun p n hn hp => ?_, fun e' he' m hm => ?_⟩
  · by_cases hp' : p = e.target
    · subst hp'
      cases hm : best e.source with
      | none => exact hkept (relax_none hm ▸ hn) hp
      | some m =>
        rcases relax_target hm with ⟨-, -, -, hsame⟩ | hnew
        · exact hkept (hsame ▸ hn) hp
        · rw [hnew] at hn
          cases hn
          exact ⟨e, by simp, rfl, rfl, rfl, m, (hsource e (by simp)).trans hm, rfl⟩
    · rw [relax_of_ne hp'] at hn
      exact hkept hn hp
  · rw [hsource e' he'] at hm
    -- The table at a target only gets better.
    have hbetter {n : Node S α} (hn : best e'.target = some n)
        (hle : m.score + e'.score ≤ n.score) :
        ∃ n, Trellis.relax best e e'.target = some n ∧ m.score + e'.score ≤ n.score := by
      by_cases hsame : e'.target = e.target
      · cases hm' : best e.source with
        | none => exact ⟨n, by rwa [relax_none hm'], hle⟩
        | some m' =>
          unfold Trellis.relax
          rw [hm']
          dsimp only
          split_ifs with hlt
          · rw [← hsame, hn] at hlt
            rw [hsame, Function.update_self]
            exact ⟨_, rfl, hle.trans (by simpa using hlt : n.score < _).le⟩
          · exact ⟨n, hn, hle⟩
      · exact ⟨n, (relax_of_ne hsame).trans hn, hle⟩
    rcases List.mem_append.1 he' with he' | he'
    · obtain ⟨n, hn, hle⟩ := h.beaten e' he' m hm
      exact hbetter hn hle
    · obtain rfl := List.mem_singleton.1 he'
      rcases relax_target hm with ⟨n, hn, hle, -⟩ | hnew
      · exact hbetter hn hle
      · exact ⟨_, hnew, le_rfl⟩

theorem settled_foldl (hsorted : es.Pairwise fun e e' => e.source ≤ e'.source)
    (hforward : ∀ e ∈ es, e.source < e.target) :
    Settled es zero (es.foldl Trellis.relax (table zero)) := by
  induction es using List.reverseRecOn with
  | nil =>
    refine ⟨rfl, fun p n hn hp => ?_, fun e he => absurd he List.not_mem_nil⟩
    rw [List.foldl_nil, table, if_neg hp] at hn
    cases hn
  | append_singleton es e ih =>
    rw [List.pairwise_append] at hsorted
    have hsettled := ih hsorted.1 fun e' he' => hforward e' (List.mem_append_left _ he')
    rw [List.foldl_append]
    exact hsettled.relax hforward fun e' he' => hsorted.2.2 e' he' e (by simp)

omit [LinearOrder S] [Add S] in
theorem chain_append : Chain a (path ++ path') b ↔ ∃ p, Chain a path p ∧ Chain p path' b := by
  induction path generalizing a with
  | nil => simp [Chain]
  | cons e path ih => simp [Chain, ih, and_assoc]

theorem trace_spec (h : Settled es zero best) (hforward : ∀ e ∈ es, e.source < e.target)
    {fuel : ℕ} (hfuel : p ≤ fuel) (hn : best p = some n) :
    ∃ path, (∀ e ∈ path, e ∈ es) ∧ Chain 0 path p ∧ total zero.score path = n.score ∧
      (trace best fuel p).reverse = path.map fun e => (e.target, e.label) := by
  induction fuel generalizing p n with
  | zero =>
    obtain rfl := Nat.le_zero.1 hfuel
    rw [h.start] at hn
    cases hn
    exact ⟨[], by simp, rfl, rfl, rfl⟩
  | succ fuel ih =>
    by_cases hp : p = 0
    · subst hp
      rw [h.start] at hn
      cases hn
      exact ⟨[], by simp, rfl, rfl, by rw [trace, if_pos rfl]; rfl⟩
    · obtain ⟨e, he, rfl, hstart, hlabel, m, hm, hscore⟩ := h.reached p n hn hp
      have hlt := hforward e he
      obtain ⟨path, hpath, hchain, htotal, htrace⟩ := ih (by omega) hm
      refine ⟨path ++ [e], ?_, chain_append.2 ⟨_, hchain, rfl, rfl⟩, ?_, ?_⟩
      · intro e' he'
        rcases List.mem_append.1 he' with he' | he'
        · exact hpath e' he'
        · exact List.mem_singleton.1 he' ▸ he
      · rw [hscore, ← htotal, total, List.foldl_append]
        rfl
      · rw [trace, if_neg hp, hn]
        dsimp only
        rw [List.reverse_cons, ← hstart, htrace, List.map_append, ← hlabel]
        rfl

variable [AddRightMono S]

theorem total_mono (h : s ≤ s') : total s path ≤ total s' path := by
  induction path generalizing s s' with
  | nil => exact h
  | cons e path ih => exact ih (add_le_add_left h e.score)

theorem le_of_chain (h : Settled es zero best) (hpath : ∀ e ∈ path, e ∈ es)
    (hchain : Chain a path p) (hm : best a = some m) :
    ∃ n, best p = some n ∧ total m.score path ≤ n.score := by
  induction path generalizing a m with
  | nil => exact ⟨m, hchain ▸ hm, le_rfl⟩
  | cons e path ih =>
    obtain ⟨rfl, hchain⟩ := hchain
    obtain ⟨n, hn, hle⟩ := h.beaten e (hpath e (List.mem_cons_self ..)) m hm
    obtain ⟨n', hn', hle'⟩ := ih (fun e' he' => hpath e' (List.mem_cons_of_mem _ he')) hchain hn
    exact ⟨n', hn', (total_mono hle).trans hle'⟩

end Lemmas

end Trellis

end ArgusBackend
