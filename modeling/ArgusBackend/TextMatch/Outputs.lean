import ArgusBackend.TextMatch.Links

/-!
# The flat automaton

The children of the nodes and the patterns that end in them are segments of common vectors.

* `Segment` : a segment of a vector to which more is appended;
* `transition_eq` : the binary search finds the child;
* `putOutputs_spec` : the outputs of a node, from those of its longest proper suffix;
* `build_spec` : the automaton that is built.
-/

namespace ArgusBackend

namespace TextMatch

open Suffixes Breadth

/-! ### Segments -/

section Segments

variable {α : Type} {l m r : List α} {start count i : ℕ}

/-- `m` is in `l` at `start`, with `count` entries. -/
structure Segment (l : List α) (start count : ℕ) (m : List α) : Prop where
  eq : (l.drop start).take count = m
  length : m.length = count

lemma Segment.append (h : Segment l start count m) (r : List α) :
    Segment (l ++ r) start count m := by
  refine ⟨?_, h.length⟩
  by_cases hcount : count = 0
  · subst hcount
    rw [List.take_zero, List.eq_nil_of_length_eq_zero h.length]
  · have hlen := congrArg List.length h.eq
    rw [List.length_take, List.length_drop, h.length] at hlen
    rw [List.drop_append_of_le_length (by omega),
      List.take_append_of_le_length (by rw [List.length_drop]; omega), h.eq]

lemma segment_last (l m : List α) : Segment (l ++ m) l.length m.length m :=
  ⟨by rw [List.drop_left, List.take_length], rfl⟩

lemma Segment.getD (h : Segment l start count m) (hi : i < count) (d : α) :
    l.getD (start + i) d = m.getD i d := by
  rw [← h.eq, List.getD_eq_getElem?_getD, List.getD_eq_getElem?_getD, List.getElem?_take_of_lt hi,
    List.getElem?_drop]

lemma Segment.map_range (h : Segment l start count m) (d : α) :
    (List.range count).map (fun i => l.getD (start + i) d) = m := by
  refine List.ext_getElem (by simp [h.length]) fun i hi hi' => ?_
  rw [List.getElem_map, List.getElem_range, h.getD (h.length ▸ hi'), List.getD_eq_getElem _ _ hi']

/-- Entries are copied to the end of the vector that they are read from. -/
lemma Segment.copy {l m : List ℕ} (h : Segment l start count m) :
    (List.range count).foldl (fun o i => o ++ [o.getD (start + i) 0]) l = l ++ m := by
  have hfold : ∀ k ≤ count,
      (List.range k).foldl (fun o i => o ++ [o.getD (start + i) 0]) l = l ++ m.take k := by
    intro k hk
    induction k with
    | zero => simp
    | succ k ih =>
      have hlt : k < m.length := by rw [h.length]; omega
      rw [List.range_succ, List.foldl_append, ih (by omega), List.foldl_cons, List.foldl_nil,
        (h.append _).getD (by omega), List.append_assoc, List.getD_eq_getElem _ _ hlt,
        List.take_concat_get' _ _ hlt]
  rw [hfold count le_rfl, ← h.length, List.take_length]

end Segments

/-! ### Transitions -/

section Transitions

variable {s : Scratch} {a : PhraseAutomaton} {i : ℕ} {c : UInt8} {children : Children}

/-- What the binary search finds among sorted bytes. -/
lemma find_lowerBound (h : Sorted children) (c : UInt8) :
    find children c =
      if PhraseAutomaton.lowerBound (children.map (·.1)) c < (children.map (·.1)).length ∧
          (children.map (·.1)).getD (PhraseAutomaton.lowerBound (children.map (·.1)) c) 0 = c then
        some ((children.map (·.2)).getD (PhraseAutomaton.lowerBound (children.map (·.1)) c) 0)
      else none := by
  induction children with
  | nil => rfl
  | cons entry rest ih =>
    obtain ⟨d, n⟩ := entry
    obtain ⟨hlt, hrest⟩ := List.pairwise_cons.mp h
    have hih := ih hrest
    unfold PhraseAutomaton.lowerBound at hih ⊢
    rw [find_cons, List.map_cons, List.map_cons, List.findIdx_cons]
    -- the search goes past smaller bytes, and a greater one ends it
    by_cases hdc : d < c
    · have hne : d ≠ c := UInt8.ne_of_lt hdc
      have hless : (!decide (d < c)) = false := by simp [hdc]
      rw [if_neg hne, hih, hless]
      simp only [cond_false, List.getD_cons_succ, List.length_cons, Nat.add_lt_add_iff_right]
    · by_cases heq : d = c
      · subst heq
        simp
      · have hnone : find rest c = none := by
          refine Option.eq_none_iff_forall_ne_some.mpr fun j hj => ?_
          have hmem := (find_eq_some hrest).mp hj
          exact hdc (hlt _ hmem)
        rw [if_neg heq, hnone]
        simp [hdc, heq]

/-- There are no more children than bytes. -/
lemma length_children_le (h : Sorted children) : children.length ≤ 256 := by
  have hnodup : (children.map fun entry => entry.1.toNat).Nodup := by
    refine List.pairwise_map.mpr (h.imp fun hlt heq => ?_)
    exact absurd (UInt8.toNat_inj.mp heq) (UInt8.ne_of_lt hlt)
  have hsub : (children.map fun entry => entry.1.toNat) ⊆ List.range 256 := by
    intro n hn
    obtain ⟨entry, -, rfl⟩ := List.mem_map.mp hn
    exact List.mem_range.mpr entry.1.toNat_lt
  have hle := (List.subperm_of_subset hnodup hsub).length_le
  rwa [List.length_map, List.length_range] at hle

/-- A node as it is flattened. -/
structure Flat (s : Scratch) (a : PhraseAutomaton) (i : ℕ) : Prop where
  fail : (a.nodes i).fail = s.fail i
  bytes : Segment a.transByte (a.nodes i).transStart (a.nodes i).transCount
    ((s.children i).map (·.1))
  next : Segment a.transNext (a.nodes i).transStart (a.nodes i).transCount
    ((s.children i).map (·.2))

lemma flatten_spec (hsorted : ∀ i, Sorted (s.children i)) (patterns : List Pattern) :
    (∀ i < s.size, Flat s (flatten s { patterns := patterns }) i) ∧
      (flatten s { patterns := patterns }).patterns = patterns := by
  have hfold : ∀ k,
      (∀ i < k, Flat s ((List.range k).foldl (flattenNode s) { patterns := patterns }) i) ∧
      ((List.range k).foldl (flattenNode s) { patterns := patterns }).transByte.length =
        ((List.range k).foldl (flattenNode s) { patterns := patterns }).transNext.length ∧
      ((List.range k).foldl (flattenNode s) { patterns := patterns }).patterns = patterns := by
    intro k
    induction k with
    | zero => exact ⟨fun i hi => absurd hi (Nat.not_lt_zero _), rfl, rfl⟩
    | succ k ih =>
      obtain ⟨hflat, hlen, hpatterns⟩ := ih
      rw [List.range_succ, List.foldl_append, List.foldl_cons, List.foldl_nil]
      generalize (List.range k).foldl (flattenNode s) { patterns := patterns } = out at *
      have hcount : (s.children k).length % 65536 = (s.children k).length :=
        Nat.mod_eq_of_lt ((length_children_le (hsorted k)).trans_lt (by decide))
      refine ⟨fun i hi => ?_, by simp [flattenNode, hlen], hpatterns⟩
      by_cases hik : i = k
      · subst hik
        have hbytes := segment_last out.transByte ((s.children i).map (·.1))
        have hnext := segment_last out.transNext ((s.children i).map (·.2))
        rw [List.length_map] at hbytes hnext
        rw [← hlen] at hnext
        refine ⟨?_, ?_, ?_⟩ <;> simp only [flattenNode, Function.update_self, hcount]
        · exact hbytes
        · exact hnext
      · obtain ⟨hfail, hbytes, hnext⟩ := hflat i (by omega)
        have hnode : (flattenNode s out k).nodes i = out.nodes i := Function.update_of_ne hik _ _
        refine ⟨?_, ?_, ?_⟩ <;> rw [hnode]
        · exact hfail
        · exact hbytes.append _
        · exact hnext.append _
  exact ⟨(hfold s.size).1, (hfold s.size).2.2⟩

/-- The binary search in the segment of a node finds its child. -/
lemma transition_eq (hsorted : Sorted (s.children i)) (h : Flat s a i) (c : UInt8) :
    a.transition i c = find (s.children i) c := by
  rw [find_lowerBound hsorted, PhraseAutomaton.transition, h.bytes.eq]
  split_ifs with hit
  · have hlt : PhraseAutomaton.lowerBound ((s.children i).map (·.1)) c < (a.nodes i).transCount :=
      h.bytes.length ▸ hit.1
    rw [h.next.getD hlt]
  · rfl

end Transitions

/-! ### Outputs -/

/-- The patterns that are suffixes of `w`, the longer ones first. -/
def outs (kept : List Bytes) (w : Bytes) : List ℕ := w.tails.flatMap (indices kept)

lemma pairwise_tails {α : Type} (w : List α) :
    w.tails.Pairwise fun x y => y.length < x.length := by
  induction w with
  | nil => simp
  | cons a w ih =>
    rw [List.tails_cons, List.pairwise_cons]
    refine ⟨fun x hx => ?_, ih⟩
    exact Nat.lt_succ_of_le ((List.mem_tails _ _).mp hx).length_le

/-- A pattern ends once at a place, so that a node has no more outputs than there are patterns. -/
lemma length_outs_le (kept : List Bytes) (w : Bytes) : (outs kept w).length ≤ kept.length := by
  have hnodup : (outs kept w).Nodup := by
    rw [outs, List.nodup_flatMap]
    refine ⟨fun x _ => List.nodup_range.filter _, (pairwise_tails w).imp fun hlt => ?_⟩
    intro k hk hk'
    have heq := (mem_indices.mp hk).2.symm.trans (mem_indices.mp hk').2
    exact absurd (congrArg List.length heq) hlt.ne'
  have hsub : outs kept w ⊆ List.range kept.length := by
    intro k hk
    obtain ⟨x, -, hk⟩ := List.mem_flatMap.mp hk
    exact List.mem_range.mpr (mem_indices.mp hk).1
  have hle := (List.subperm_of_subset hnodup hsub).length_le
  rwa [List.length_range] at hle

section Placing

variable {s : Scratch} {word : ℕ → Bytes} {patterns : List Pattern} {kept : List Bytes}
  {a : PhraseAutomaton} {node : ℕ}

lemma indices_nil (h : Filled s word patterns kept) : indices kept [] = [] :=
  indices_of_not_mem fun hmem => h.nonempty _ hmem rfl

lemma words_of_indices (h : Filled s word patterns kept) (w : Bytes) (hw : indices kept w ≠ []) :
    Words s word w := by
  by_contra hnot
  exact hw (indices_of_not_mem fun hmem => hnot (h.known _ hmem))

/-- The outputs of a node are its own, and those of its longest proper suffix. -/
lemma outs_eq (h : Filled s word patterns kept) (hzero : s.fail 0 = 0) (hnode : node < s.size)
    (hlink : node ≠ 0 → Linked s word s.fail node) :
    outs kept (word node) =
      s.outputs node ++ if s.fail node ≠ kRoot then outs kept (word (s.fail node)) else [] := by
  have hnil : outs kept [] = [] := by simp [outs, indices_nil h]
  have hfail : (if s.fail node ≠ kRoot then outs kept (word (s.fail node)) else []) =
      outs kept (word (s.fail node)) := by
    split_ifs with hroot
    · rfl
    · rw [not_not.mp hroot, h.spelt.word_root, hnil]
  rw [hfail, h.outputs node hnode]
  by_cases hn : node = 0
  · subst hn
    rw [hzero, h.spelt.root, hnil, indices_nil h, List.nil_append]
  · have hlongest := (hlink hn).longest
    cases hword : word node with
    | nil => exact absurd (h.spelt.eq_root hnode hword) hn
    | cons b w =>
      rw [hword] at hlongest
      rw [outs, List.tails_cons, List.flatMap_cons]
      exact congrArg _ (hlongest.flatMap_tails _ (words_of_indices h))

/-- The nodes of `done` have their outputs. -/
structure Placed (s : Scratch) (word : ℕ → Bytes) (kept : List Bytes) (patterns : List Pattern)
    (done : List ℕ) (a : PhraseAutomaton) : Prop where
  flat : ∀ i < s.size, Flat s a i
  patterns : a.patterns = patterns
  outs : ∀ i ∈ done, Segment a.output (a.nodes i).outStart (a.nodes i).outCount
    (outs kept (word i))

lemma putOutputs_spec {done : List ℕ} (h : Placed s word kept patterns done a)
    (hnode : node < s.size) (hnew : node ∉ done) (hdone : s.fail node ≠ kRoot → s.fail node ∈ done)
    (houts : outs kept (word node) =
      s.outputs node ++ if s.fail node ≠ kRoot then outs kept (word (s.fail node)) else [])
    (hlen : (outs kept (word node)).length < 65536) :
    Placed s word kept patterns (done ++ [node]) (putOutputs s a node) := by
  have hfail := (h.flat node hnode).fail
  have hcopied : (putOutputs s a node).output = a.output ++ outs kept (word node) := by
    rw [houts, putOutputs]
    dsimp only
    rw [hfail]
    split_ifs with hroot
    · -- the copy reads the segment of another node, which is complete
      have hne : s.fail node ≠ node := fun heq => hnew (heq ▸ hdone hroot)
      rw [Function.update_of_ne hne]
      have hseg := (h.outs _ (hdone hroot)).append (s.outputs node)
      rw [hseg.copy, List.append_assoc]
    · rw [List.append_nil]
  have hnodes : (putOutputs s a node).nodes = Function.update a.nodes node
      { a.nodes node with
        outStart := a.output.length
        outCount := (outs kept (word node)).length } := by
    have hcount : ((putOutputs s a node).output.length - a.output.length) % 65536 =
        (outs kept (word node)).length := by
      rw [hcopied, List.length_append, Nat.add_sub_cancel_left, Nat.mod_eq_of_lt hlen]
    rw [← hcount, putOutputs]
    dsimp only
    rw [Function.update_idem]
  -- only this node changes, and the vector only grows
  refine ⟨fun i hi => ?_, h.patterns, fun i hi => ?_⟩
  · obtain ⟨hfail, hbytes, hnext⟩ := h.flat i hi
    by_cases hin : i = node
    · subst hin
      refine ⟨?_, ?_, ?_⟩ <;> rw [hnodes, Function.update_self]
      · exact hfail
      · exact hbytes
      · exact hnext
    · refine ⟨?_, ?_, ?_⟩ <;> rw [hnodes, Function.update_of_ne hin]
      · exact hfail
      · exact hbytes
      · exact hnext
  · rw [hnodes, hcopied]
    rcases List.mem_append.mp hi with hi | hi
    · have hin : i ≠ node := fun heq => hnew (heq ▸ hi)
      rw [Function.update_of_ne hin]
      exact (h.outs i hi).append _
    · obtain rfl := List.mem_singleton.mp hi
      rw [Function.update_self]
      exact segment_last _ _

lemma foldlM_putOutputs (h : Filled s word patterns kept) (hzero : s.fail 0 = 0)
    (hlinks : ∀ n < s.size, n ≠ 0 → Linked s word s.fail n) (hkept : kept.length < 65536)
    {done rest : List ℕ} (hordered : Ordered (fun i => (word i).length) s.size (done ++ rest))
    (hplaced : Placed s word kept patterns done a) :
    ∃ a', rest.foldlM (fun out node => some (putOutputs s out node)) a = some a' ∧
      Placed s word kept patterns (done ++ rest) a' := by
  induction rest generalizing done a with
  | nil => exact ⟨a, rfl, by simpa using hplaced⟩
  | cons node rest ih =>
    have hnode : node < s.size := (hordered.mem node).mp (by simp)
    have hnew : node ∉ done := fun hmem =>
      (List.nodup_append.mp hordered.nodup).2.2 _ hmem _ (List.mem_cons_self ..) rfl
    -- a suffix is above the node, so its outputs are there to be copied
    have hdone : s.fail node ≠ kRoot → s.fail node ∈ done := by
      intro hroot
      have hne : node ≠ 0 := by
        rintro rfl
        exact hroot hzero
      have hlink := hlinks node hnode hne
      exact hordered.before hlink.lt
        (hlink.shorter fun hnil => hne (h.spelt.eq_root hnode hnil))
    have hstep := putOutputs_spec hplaced hnode hnew hdone
      (outs_eq h hzero hnode (hlinks node hnode)) ((length_outs_le _ _).trans_lt hkept)
    have heq : done ++ node :: rest = (done ++ [node]) ++ rest := by simp
    rw [heq] at hordered ⊢
    exact ih hordered hstep

end Placing

/-! ### The automaton -/

/-- The automaton of the patterns `kept`, with the trie that it was built from. -/
structure Built (a : PhraseAutomaton) (s : Scratch) (word : ℕ → Bytes) (kept : List Bytes) :
    Prop where
  spelt : Spelt s word
  known : ∀ w, indices kept w ≠ [] → Words s word w
  transition : ∀ i < s.size, ∀ c, a.transition i c = find (s.children i) c
  linked : ∀ i < s.size, i ≠ 0 → Linked s word (fun i => (a.nodes i).fail) i
  outs : ∀ i < s.size, Segment a.output (a.nodes i).outStart (a.nodes i).outCount
    (outs kept (word i))
  lengths : a.patterns.map (·.length) = kept.map List.length

/-- The vectors are filled, and the pass over the trie ends. -/
lemma placed_order {s : Scratch} {word : ℕ → Bytes} {patterns : List Pattern} {kept : List Bytes}
    (h : Filled s word patterns kept) (hzero : s.fail 0 = 0)
    (hlinks : ∀ n < s.size, n ≠ 0 → Linked s word s.fail n) (hkept : kept.length < 65536) :
    ∃ a, bfs s.childNodes (fun out node => some (putOutputs s out node)) s.size [kRoot]
        (flatten s { patterns := patterns }) = some a ∧ a.patterns = patterns ∧
      Built a s word kept := by
  obtain ⟨hflat, hpatterns⟩ := flatten_spec h.spelt.sorted patterns
  have htaking := taking_start h.spelt.tree
  have hfuel : s.size ≤ ([] : List ℕ).length + s.size := Nat.le_add_left _ _
  have hordered := htaking.ordered h.spelt.tree hfuel
  obtain ⟨a, hfold, hplaced⟩ := foldlM_putOutputs h hzero hlinks hkept hordered
    ⟨hflat, hpatterns, by simp⟩
  refine ⟨a, (htaking.bfs_eq h.spelt.tree _ hfuel _).trans hfold, hplaced.patterns, h.spelt,
    words_of_indices h, fun i hi c => transition_eq (h.spelt.sorted i) (hplaced.flat i hi) c, fun i hi hne => ?_,
    fun i hi => hplaced.outs i ((hordered.mem i).mpr hi), ?_⟩
  · exact (hlinks i hi hne).congr (hplaced.flat i hi).fail
  · rw [hplaced.patterns, h.lengths]

lemma length_keptTexts_le (refs : List PatternRef) : (keptTexts refs).length ≤ refs.length := by
  rw [keptTexts, List.length_map]
  exact List.length_filter_le _ _

theorem build_spec {refs : List PatternRef} (hne : refs ≠ [])
    (hlen : refs.length ≤ kMaxPatterns) :
    ∃ a s word, build refs = some a ∧ a.patterns = keptPatterns refs ∧
      Built a s word (keptTexts refs) := by
  obtain ⟨word, hfilled⟩ := filled_insert refs
  obtain ⟨fail, hlink, hzero, hlinks⟩ := link_spec hfilled.spelt (fail_insert refs)
  have hcond : ¬(refs = [] ∨ refs.length > kMaxPatterns) := by
    rintro (hnil | hlong)
    · exact hne hnil
    · omega
  have hkept : (keptTexts refs).length < 65536 :=
    (length_keptTexts_le refs).trans_lt (hlen.trans_lt (by decide))
  have hkeptPatterns := patterns_insert refs
  rw [build, if_neg hcond]
  dsimp only
  generalize hscratch : refs.foldl Scratch.insert ({}, []) = out at *
  obtain ⟨s, patterns⟩ := out
  dsimp only at hfilled hlink hlinks hkeptPatterns ⊢
  rw [hlink, Option.bind_some]
  -- the links change neither the words nor the outputs of the trie
  have hspelt : Spelt { s with fail := fail } word :=
    ⟨hfilled.spelt.pos, hfilled.spelt.root, hfilled.spelt.inj, hfilled.spelt.sorted,
      hfilled.spelt.child, hfilled.spelt.parent, hfilled.spelt.fresh⟩
  have hfilled' : Filled { s with fail := fail } word patterns (keptTexts refs) :=
    ⟨hspelt, hfilled.outputs, hfilled.known, hfilled.nonempty, hfilled.lengths⟩
  have hlinks' : ∀ n < s.size, n ≠ 0 → Linked { s with fail := fail } word fail n :=
    fun n hn hn0 => ⟨(hlinks n hn hn0).lt, (hlinks n hn hn0).longest⟩
  obtain ⟨a, hbfs, hpatterns, hbuilt⟩ := placed_order hfilled' hzero hlinks' hkept
  exact ⟨a, _, word, hbfs, hpatterns.trans hkeptPatterns, hbuilt⟩

end TextMatch

end ArgusBackend
