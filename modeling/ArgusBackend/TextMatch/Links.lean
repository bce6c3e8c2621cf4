import ArgusBackend.TextMatch.Trie

/-!
# The failure links

The link of a node is its longest proper suffix among the words of the trie.

* `Linked` : the link of a node;
* `failFor_spec` : the link of a child, from the links of the nodes above it;
* `link_spec` : the pass over the trie ends, and gives every node its link.
-/

namespace ArgusBackend

namespace TextMatch

open Suffixes Breadth

variable {s : Scratch} {word : ℕ → Bytes} {fail fail' : ℕ → ℕ} {node f n : ℕ} {c : UInt8}
  {w : Bytes}

/-- The link of `n` is its longest proper suffix. -/
structure Linked (s : Scratch) (word : ℕ → Bytes) (fail : ℕ → ℕ) (n : ℕ) : Prop where
  lt : fail n < s.size
  longest : Longest (Words s word) (word n).tail (word (fail n))

lemma Linked.congr (h : Linked s word fail n) (heq : fail' n = fail n) :
    Linked s word fail' n :=
  ⟨heq ▸ h.lt, heq ▸ h.longest⟩

/-- The link of a node other than the root is above it. -/
lemma Linked.shorter (h : Linked s word fail n) (hn : word n ≠ []) :
    (word (fail n)).length < (word n).length := by
  have hle := h.longest.suffix.length_le
  have hpos := List.length_pos_of_ne_nil hn
  rw [List.length_tail] at hle
  omega

/-- From the root the next state is a child of it, or the root. -/
lemma root_spec (hspelt : Spelt s word) (h : Climbs (Words s word) w c []) :
    (find (s.children kRoot) c).getD kRoot < s.size ∧
      Longest (Words s word) (w ++ [c]) (word ((find (s.children kRoot) c).getD kRoot)) := by
  cases hchild : find (s.children kRoot) c with
  | some child =>
    obtain ⟨hlt, hword⟩ := (hspelt.find_some hspelt.pos).mp hchild
    have hT : Words s word ([] ++ [c]) := ⟨child, hlt, by rw [hword, hspelt.root]⟩
    refine ⟨hlt, ?_⟩
    have hnext := h.next hT
    rwa [Option.getD_some, hword, hspelt.root]
  | none =>
    have hT := (hspelt.find_none hspelt.pos).mp hchild
    rw [hspelt.root, List.nil_append] at hT
    refine ⟨hspelt.pos, ?_⟩
    rw [Option.getD_none, hspelt.word_root]
    exact h.none hspelt.nil_word hT

/-- What the climb finds, where the nodes on the way have their links. -/
lemma climb_spec (hspelt : Spelt s word) (c : UInt8) (fuel : ℕ) (hf : f < s.size)
    (hlinks : ∀ n < s.size, n ≠ 0 → (word n).length ≤ (word f).length → Linked s word fail n)
    (hfuel : (word f).length < fuel) (h : Climbs (Words s word) w c (word f)) :
    ∃ g, Scratch.climb { s with fail := fail } c fuel f = some g ∧
      (if g = kRoot then (find (s.children kRoot) c).getD kRoot else g) < s.size ∧
      Longest (Words s word) (w ++ [c])
        (word (if g = kRoot then (find (s.children kRoot) c).getD kRoot else g)) := by
  -- a link leads to a shorter word, so the fuel outlasts the word of the node
  induction fuel generalizing f with
  | zero => exact absurd hfuel (Nat.not_lt_zero _)
  | succ fuel ih =>
    rw [Scratch.climb]
    by_cases hroot : f = kRoot
    · subst hroot
      refine ⟨kRoot, if_pos rfl, ?_⟩
      rw [hspelt.word_root] at h
      rw [if_pos rfl]
      exact root_spec hspelt h
    · rw [if_neg hroot]
      dsimp only
      cases hchild : find (s.children f) c with
      | some child =>
        obtain ⟨hlt, hword⟩ := (hspelt.find_some hf).mp hchild
        have hne : child ≠ kRoot := by
          rintro rfl
          rw [hspelt.word_root] at hword
          simp at hword
        refine ⟨child, rfl, ?_⟩
        rw [if_neg hne, hword]
        exact ⟨hlt, h.next ⟨child, hlt, hword⟩⟩
      | none =>
        have hT := (hspelt.find_none hf).mp hchild
        have hlink := hlinks f hf hroot le_rfl
        have hne : word f ≠ [] := fun hnil => hroot (hspelt.eq_root hf hnil)
        have hshort := hlink.shorter hne
        exact ih hlink.lt (fun n hn hn0 hle => hlinks n hn hn0 (hle.trans hshort.le)) (by omega)
          (h.border hspelt.closed hT hlink.longest)

/-- The link of the child for `c` of a node other than the root. -/
lemma failFor_spec (hspelt : Spelt s word) (hnode : node < s.size) (hne : node ≠ 0)
    (hlinks : ∀ n < s.size, n ≠ 0 → (word n).length ≤ (word node).length → Linked s word fail n)
    (c : UInt8) :
    ∃ g, Scratch.failFor { s with fail := fail } node c = some g ∧ g < s.size ∧
      Longest (Words s word) (word node ++ [c]).tail (word g) := by
  have hlink := hlinks node hnode hne le_rfl
  have hword : word node ≠ [] := fun hnil => hne (hspelt.eq_root hnode hnil)
  have hshort := hlink.shorter hword
  have hsize := hspelt.length_le hlink.lt
  obtain ⟨g, hclimb, hlt, hlongest⟩ := climb_spec hspelt c s.size hlink.lt
    (fun n hn hn0 hle => hlinks n hn hn0 (hle.trans hshort.le)) (hsize.trans_lt hlink.lt)
    (hlink.longest.climbs hspelt.closed c)
  refine ⟨_, ?_, hlt, ?_⟩
  · rw [Scratch.failFor]
    dsimp only
    rw [hclimb]
    rfl
  · rwa [List.tail_append_of_ne_nil hword]

/-- The children of a node get their links, and the nodes that are not below it keep theirs. -/
lemma setFails_spec (hspelt : Spelt s word) (hnode : node < s.size) (hne : node ≠ 0)
    (hlinks : ∀ n < s.size, n ≠ 0 → (word n).length ≤ (word node).length → Linked s word fail n) :
    ∃ fail', Scratch.setFails { s with fail := fail } node = some { s with fail := fail' } ∧
      (∀ n, Linked s word fail n → Linked s word fail' n) ∧ fail' 0 = fail 0 ∧
      ∀ n ∈ s.childNodes node, Linked s word fail' n := by
  have hfold : ∀ (entries : Children), (∀ entry ∈ entries, entry ∈ s.children node) →
      ∀ fail : ℕ → ℕ, (∀ n < s.size, n ≠ 0 → (word n).length ≤ (word node).length →
        Linked s word fail n) →
      ∃ fail', entries.foldlM (Scratch.setFail node) { s with fail := fail } =
          some { s with fail := fail' } ∧
        (∀ n, Linked s word fail n → Linked s word fail' n) ∧ fail' 0 = fail 0 ∧
        ∀ entry ∈ entries, Linked s word fail' entry.2 := by
    intro entries
    induction entries with
    | nil =>
      intro _ fail _
      exact ⟨fail, rfl, fun _ h => h, rfl, by simp⟩
    | cons entry entries ih =>
      intro hsub fail hlinks
      obtain ⟨c, j⟩ := entry
      obtain ⟨hj, hword⟩ := (hspelt.child node hnode c j).mp (hsub _ (List.mem_cons_self ..))
      obtain ⟨g, hg, hlt, hlongest⟩ := failFor_spec hspelt hnode hne hlinks c
      have hself : Linked s word (Function.update fail j g) j := by
        constructor <;> rw [Function.update_self]
        · exact hlt
        · rwa [hword]
      -- a child that is written twice would get its link again
      have hkeep : ∀ n, Linked s word fail n → Linked s word (Function.update fail j g) n := by
        intro n hn
        by_cases hnj : n = j
        · exact hnj ▸ hself
        · exact hn.congr (Function.update_of_ne hnj _ _)
      have hj0 : 0 ≠ j := by
        rintro rfl
        rw [hspelt.root] at hword
        simp at hword
      obtain ⟨fail', hrest, hkeep', hzero, hentries⟩ := ih
        (fun entry h => hsub entry (List.mem_cons_of_mem _ h)) (Function.update fail j g)
        fun n hn hn0 hle => hkeep n (hlinks n hn hn0 hle)
      refine ⟨fail', ?_, fun n hn => hkeep' n (hkeep n hn),
        hzero.trans (Function.update_of_ne hj0 _ _), ?_⟩
      · rw [List.foldlM_cons, Scratch.setFail]
        dsimp only
        rw [hg]
        exact hrest
      · intro entry hentry
        rcases List.mem_cons.mp hentry with rfl | hentry
        · exact hkeep' _ hself
        · exact hentries entry hentry
  obtain ⟨fail', hset, hkeep, hzero, hentries⟩ := hfold _ (fun _ h => h) fail hlinks
  refine ⟨fail', hset, hkeep, hzero, fun n hn => ?_⟩
  obtain ⟨entry, hentry, rfl⟩ := List.mem_map.mp hn
  exact hentries entry hentry

/-- Once the nodes of `done` were taken, their children have their links. -/
lemma foldlM_setFails (hspelt : Spelt s word) (fail : ℕ → ℕ) {done rest : List ℕ}
    (hordered : Ordered (fun i => (word i).length) s.size (done ++ rest)) (hdone : 0 ∈ done)
    (hzero : fail 0 = 0) (hlinks : ∀ p ∈ done, ∀ n ∈ s.childNodes p, Linked s word fail n) :
    ∃ fail', rest.foldlM Scratch.setFails { s with fail := fail } = some { s with fail := fail' } ∧
      fail' 0 = 0 ∧ ∀ p ∈ done ++ rest, ∀ n ∈ s.childNodes p, Linked s word fail' n := by
  induction rest generalizing done fail with
  | nil => exact ⟨fail, rfl, hzero, by simpa using hlinks⟩
  | cons node rest ih =>
    have hnode : node < s.size := (hordered.mem node).mp (by simp)
    have hne : node ≠ 0 := by
      rintro rfl
      exact (List.nodup_append.mp hordered.nodup).2.2 _ hdone _ (List.mem_cons_self ..) rfl
    -- the parent of a node that is not below this one was taken before
    have hup : ∀ n < s.size, n ≠ 0 → (word n).length ≤ (word node).length →
        Linked s word fail n := by
      intro n hn hn0 hle
      obtain ⟨p, hp, hchild⟩ := hspelt.tree.parent n hn hn0
      have hdepth : (word n).length = (word p).length + 1 := hspelt.tree.depth p hp n hchild
      have habove : (word p).length < (word node).length := by omega
      exact hlinks p (hordered.before hp habove) n hchild
    obtain ⟨fail', hset, hkeep, hzero', hchildren⟩ := setFails_spec hspelt hnode hne hup
    have heq : done ++ node :: rest = (done ++ [node]) ++ rest := by simp
    rw [heq] at hordered ⊢
    obtain ⟨fail'', hrest, hfinal⟩ := ih fail' hordered (List.mem_append_left _ hdone)
      (hzero'.trans hzero) (by
        intro p hp n hn
        rcases List.mem_append.mp hp with hp | hp
        · exact hkeep n (hlinks p hp n hn)
        · exact hchildren n (List.mem_singleton.mp hp ▸ hn))
    refine ⟨fail'', ?_, hfinal⟩
    rw [List.foldlM_cons, hset]
    exact hrest

/-- The pass over the trie ends, and gives every node its link. -/
theorem link_spec (hspelt : Spelt s word) (hstart : s.fail = fun _ => kRoot) :
    ∃ fail, s.link = some { s with fail := fail } ∧ fail 0 = 0 ∧
      ∀ n < s.size, n ≠ 0 → Linked s word fail n := by
  have hzero : (s.childNodes kRoot).foldl (fun fail n => Function.update fail n kRoot) s.fail =
      fun _ => kRoot := by
    rw [hstart]
    induction s.childNodes kRoot with
    | nil => rfl
    | cons n nodes ih =>
      rw [List.foldl_cons, Function.update_eq_self_iff.mpr rfl]
      exact ih
  have htaking := (taking_start hspelt.tree).next hspelt.tree
  have hfuel : s.size ≤ ([] ++ [0] : List ℕ).length + s.size := Nat.le_add_left _ _
  have hordered := htaking.ordered hspelt.tree hfuel
  have hbfs := htaking.bfs_eq hspelt.tree Scratch.setFails hfuel { s with fail := fun _ => kRoot }
  obtain ⟨fail, hfold, hfail, hlinks⟩ := foldlM_setFails hspelt (fun _ => kRoot) hordered
    (by simp) rfl (by
      intro p hp n hn
      obtain rfl : p = 0 := by simpa using hp
      obtain ⟨entry, hentry, rfl⟩ := List.mem_map.mp hn
      obtain ⟨hlt, hword⟩ := (hspelt.child 0 hspelt.pos entry.1 entry.2).mp hentry
      refine ⟨hspelt.pos, ?_⟩
      rw [hword, hspelt.root, hspelt.word_root]
      exact ⟨List.nil_suffix, hspelt.nil_word, fun u hu _ => hu⟩)
  refine ⟨fail, ?_, hfail, fun n hn hn0 => ?_⟩
  · rw [Scratch.link, hzero]
    exact hbfs.trans hfold
  · obtain ⟨p, hp, hchild⟩ := hspelt.tree.parent n hn hn0
    exact hlinks p ((hordered.mem p).mpr hp) n hchild

end TextMatch

end ArgusBackend
