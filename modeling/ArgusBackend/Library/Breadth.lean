import Mathlib.Data.List.Nodup
import Mathlib.Data.List.NodupEquivFin
import Mathlib.Data.List.Range
import Mathlib.Tactic.Common

/-!
# Breadth first

The nodes of a tree are taken from a queue, to which the children of each are added.

* `bfs` : the loop, with what it does at each node;
* `Taking.bfs_eq` : the loop ends, and acts on the nodes in the order `order`;
* `Taking.ordered` : every node once, the upper ones first.
-/

namespace ArgusBackend

namespace Breadth

variable {σ : Type} (children : ℕ → List ℕ)

/-- The loop, with what it does at each node; `none` where `fuel` nodes are not enough. -/
def bfs (act : σ → ℕ → Option σ) : ℕ → List ℕ → σ → Option σ
  | _, [], s => some s
  | 0, _ :: _, _ => none
  | fuel + 1, n :: queue, s => (act s n).bind (bfs act fuel (queue ++ children n))

/-- The nodes in the order in which they are taken. -/
def order : ℕ → List ℕ → List ℕ
  | 0, _ => []
  | _ + 1, [] => []
  | fuel + 1, n :: queue => n :: order fuel (queue ++ children n)

/-- A tree with root `0`: every other node is once among the children of one node, one level
below it. -/
structure Tree (children : ℕ → List ℕ) (depth : ℕ → ℕ) (size : ℕ) : Prop where
  pos : 0 < size
  lt : ∀ n < size, ∀ m ∈ children n, m < size
  ne_root : ∀ n < size, ∀ m ∈ children n, m ≠ 0
  depth : ∀ n < size, ∀ m ∈ children n, depth m = depth n + 1
  nodup : ∀ n < size, (children n).Nodup
  alone : ∀ n < size, ∀ n' < size, ∀ m, m ∈ children n → m ∈ children n' → n = n'
  parent : ∀ m < size, m ≠ 0 → ∃ n < size, m ∈ children n

variable {children} {depth : ℕ → ℕ} {size : ℕ}

/-- What holds of the nodes that were taken and of those in the queue. -/
structure Taking (children : ℕ → List ℕ) (depth : ℕ → ℕ) (size : ℕ) (done queue : List ℕ) :
    Prop where
  nodup : (done ++ queue).Nodup
  lt : ∀ n ∈ done ++ queue, n < size
  root : 0 ∈ done ++ queue
  closed : ∀ n ∈ done, ∀ m ∈ children n, m ∈ done ++ queue
  parent : ∀ m ∈ done ++ queue, m ≠ 0 → ∃ n ∈ done, m ∈ children n
  sorted : (done ++ queue).Pairwise (fun n m => depth n ≤ depth m)
  near : ∀ n ∈ queue.head?, ∀ m ∈ queue, depth m ≤ depth n + 1

lemma taking_start (h : Tree children depth size) : Taking children depth size [] [0] where
  nodup := by simp
  lt := by simpa using h.pos
  root := by simp
  closed := by simp
  parent := by simp
  sorted := by simp
  near := by simp

lemma Taking.next (htree : Tree children depth size) {done queue : List ℕ} {n : ℕ}
    (h : Taking children depth size done (n :: queue)) :
    Taking children depth size (done ++ [n]) (queue ++ children n) := by
  have heq : (done ++ [n]) ++ (queue ++ children n) = (done ++ n :: queue) ++ children n := by simp
  have hn : n ∈ done ++ n :: queue := by simp
  have hlt := h.lt n hn
  have hnear : ∀ m ∈ n :: queue, depth m ≤ depth n + 1 := h.near n rfl
  -- a child that was seen before would have another parent
  have hfresh : ∀ m ∈ children n, m ∉ done ++ n :: queue := by
    intro m hm hseen
    obtain ⟨n', hn', hm'⟩ := h.parent m hseen (htree.ne_root n hlt m hm)
    have heq' : n' = n :=
      htree.alone n' (h.lt n' (List.mem_append_left _ hn')) n hlt m hm' hm
    subst heq'
    exact (List.nodup_append.mp h.nodup).2.2 _ hn' _ (List.mem_cons_self ..) rfl
  have hsorted := List.pairwise_append.mp h.sorted
  refine ⟨?_, ?_, ?_, ?_, ?_, ?_, ?_⟩
  · rw [heq, List.nodup_append]
    exact ⟨h.nodup, htree.nodup n hlt, fun a ha b hb hab => hfresh b hb (hab ▸ ha)⟩
  · rw [heq]
    intro m hm
    rcases List.mem_append.mp hm with hm | hm
    · exact h.lt m hm
    · exact htree.lt n hlt m hm
  · rw [heq]
    exact List.mem_append_left _ h.root
  · rw [heq]
    intro n' hn' m hm
    rcases List.mem_append.mp hn' with hn' | hn'
    · exact List.mem_append_left _ (h.closed n' hn' m hm)
    · rw [List.mem_singleton.mp hn'] at hm
      exact List.mem_append_right _ hm
  · rw [heq]
    intro m hm hne
    rcases List.mem_append.mp hm with hm | hm
    · obtain ⟨n', hn', hm'⟩ := h.parent m hm hne
      exact ⟨n', List.mem_append_left _ hn', hm'⟩
    · exact ⟨n, by simp, hm⟩
  · rw [heq, List.pairwise_append]
    refine ⟨h.sorted, ?_, ?_⟩
    · refine (htree.nodup n hlt).imp_of_mem fun {a b} ha hb _ => ?_
      rw [htree.depth n hlt a ha, htree.depth n hlt b hb]
    · intro a ha b hb
      rw [htree.depth n hlt b hb]
      rcases List.mem_append.mp ha with ha | ha
      · exact (hsorted.2.2 a ha n (List.mem_cons_self ..)).trans (Nat.le_succ _)
      · exact hnear a ha
  · intro m hm k hk
    have hmq : m ∈ queue ++ children n := List.mem_of_mem_head? hm
    have hle : depth n ≤ depth m := by
      rcases List.mem_append.mp hmq with hmq | hmq
      · exact (List.pairwise_cons.mp hsorted.2.1).1 m hmq
      · rw [htree.depth n hlt m hmq]
        exact Nat.le_succ _
    rcases List.mem_append.mp hk with hk | hk
    · exact (hnear k (List.mem_cons_of_mem _ hk)).trans (Nat.succ_le_succ hle)
    · rw [htree.depth n hlt k hk]
      exact Nat.succ_le_succ hle

/-- There is room for all the nodes, as each is taken once. -/
lemma Taking.length_le {done queue : List ℕ} (h : Taking children depth size done queue) :
    done.length + queue.length ≤ size := by
  have hsub : (done ++ queue) ⊆ List.range size := fun n hn => List.mem_range.mpr (h.lt n hn)
  have hlen := (List.subperm_of_subset h.nodup hsub).length_le
  rwa [List.length_range, List.length_append] at hlen

/-- The loop ends, and acts on the nodes in their order. -/
theorem Taking.bfs_eq (htree : Tree children depth size) (act : σ → ℕ → Option σ) {fuel : ℕ}
    {done queue : List ℕ} (h : Taking children depth size done queue)
    (hfuel : size ≤ done.length + fuel) (s : σ) :
    bfs children act fuel queue s = (order children fuel queue).foldlM act s := by
  induction fuel generalizing done queue s with
  | zero =>
    have hnil : queue = [] := List.eq_nil_of_length_eq_zero (by have := h.length_le; omega)
    subst hnil
    rfl
  | succ fuel ih =>
    cases queue with
    | nil => rfl
    | cons n queue =>
      rw [bfs, order, List.foldlM_cons]
      have hnext := ih (h.next htree) (by rw [List.length_append, List.length_singleton]; omega)
      exact congrArg _ (funext hnext)

/-- With room for all the nodes the loop ends with an empty queue. -/
lemma Taking.finish (htree : Tree children depth size) {fuel : ℕ} {done queue : List ℕ}
    (h : Taking children depth size done queue) (hfuel : size ≤ done.length + fuel) :
    Taking children depth size (done ++ order children fuel queue) [] := by
  induction fuel generalizing done queue with
  | zero =>
    have hnil : queue = [] := List.eq_nil_of_length_eq_zero (by have := h.length_le; omega)
    subst hnil
    simpa [order] using h
  | succ fuel ih =>
    cases queue with
    | nil => simpa [order] using h
    | cons n queue =>
      have hnext := ih (h.next htree) (by rw [List.length_append, List.length_singleton]; omega)
      simpa [order] using hnext

/-- Every node once, the upper ones first. -/
structure Ordered (depth : ℕ → ℕ) (size : ℕ) (nodes : List ℕ) : Prop where
  nodup : nodes.Nodup
  mem : ∀ n, n ∈ nodes ↔ n < size
  sorted : nodes.Pairwise (fun n m => depth n ≤ depth m)

theorem Taking.ordered (htree : Tree children depth size) {fuel : ℕ} {done queue : List ℕ}
    (h : Taking children depth size done queue) (hfuel : size ≤ done.length + fuel) :
    Ordered depth size (done ++ order children fuel queue) := by
  have hall := h.finish htree hfuel
  refine ⟨by simpa using hall.nodup, fun n => ⟨fun hn => hall.lt n (by simpa using hn), ?_⟩,
    by simpa using hall.sorted⟩
  intro hn
  induction hd : depth n using Nat.strong_induction_on generalizing n with
  | _ d ih =>
    by_cases hroot : n = 0
    · subst hroot
      simpa using hall.root
    · obtain ⟨p, hp, hchild⟩ := htree.parent n hn hroot
      have hdepth := htree.depth p hp n hchild
      have hpmem := ih (depth p) (by omega) p hp rfl
      simpa using hall.closed p hpmem n hchild

/-- Before a node come all that are above it. -/
lemma Ordered.before {done rest : List ℕ} {n m : ℕ} (h : Ordered depth size (done ++ n :: rest))
    (hm : m < size) (hdepth : depth m < depth n) : m ∈ done := by
  rcases List.mem_append.mp ((h.mem m).mpr hm) with hm | hm
  · exact hm
  · have hsorted := (List.pairwise_append.mp h.sorted).2.1
    rcases List.mem_cons.mp hm with rfl | hm
    · exact absurd hdepth (lt_irrefl _)
    · exact absurd hdepth (Nat.not_lt.mpr ((List.pairwise_cons.mp hsorted).1 m hm))

end Breadth

end ArgusBackend
