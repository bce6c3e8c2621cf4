import ArgusBackend.Library.Suffixes
import ArgusBackend.TextMatch.Automaton
import Mathlib.Data.List.GetD

/-!
# The trie

Every node of the trie stands for the bytes on the way to it.

* `Spelt` : the nodes and their words;
* `Filled` : the outputs of a node are the patterns with its word;
* `filled_insert` : the trie of a list of patterns.
-/

namespace ArgusBackend

namespace TextMatch

/-! ### Children -/

section Maps

variable {children : Children} {c d : UInt8} {j n : ℕ}

/-- The children are in the order of their bytes. -/
def Sorted (children : Children) : Prop := children.Pairwise fun a b => a.1 < b.1

lemma find_cons (d : UInt8) (n : ℕ) (rest : Children) (c : UInt8) :
    find ((d, n) :: rest) c = if d = c then some n else find rest c := by
  unfold find
  rw [List.find?_cons]
  by_cases h : d = c <;> simp [h]

lemma find_eq_some (h : Sorted children) : find children c = some j ↔ (c, j) ∈ children := by
  induction children with
  | nil => simp [find]
  | cons entry rest ih =>
    obtain ⟨d, n⟩ := entry
    obtain ⟨hlt, hrest⟩ := List.pairwise_cons.mp h
    rw [find_cons, List.mem_cons, Prod.mk.injEq]
    split_ifs with hd
    · subst hd
      constructor
      · intro heq
        exact .inl ⟨rfl, (Option.some.inj heq).symm⟩
      · rintro (⟨-, rfl⟩ | hmem)
        · rfl
        · exact absurd (hlt _ hmem) (UInt8.lt_irrefl _)
    · rw [ih hrest]
      exact ⟨.inr, fun hor => hor.resolve_left fun heq => hd heq.1.symm⟩

lemma mem_insertChild :
    (d, n) ∈ insertChild c j children ↔ (d = c ∧ n = j) ∨ (d, n) ∈ children := by
  induction children with
  | nil => simp [insertChild]
  | cons entry rest ih =>
    rw [insertChild]
    split_ifs
    · simp
    · rw [List.mem_cons, ih, List.mem_cons]
      tauto

lemma sorted_insertChild (h : Sorted children) (hc : ∀ n, (c, n) ∉ children) :
    Sorted (insertChild c j children) := by
  induction children with
  | nil => exact List.pairwise_singleton _ _
  | cons entry rest ih =>
    obtain ⟨hlt, hrest⟩ := List.pairwise_cons.mp h
    rw [insertChild]
    split_ifs with hcd
    · refine List.pairwise_cons.mpr ⟨fun entry' hentry' => ?_, h⟩
      rcases List.mem_cons.mp hentry' with rfl | hmem
      · exact hcd
      · exact UInt8.lt_trans hcd (hlt _ hmem)
    · have hne : entry.1 ≠ c := fun heq => hc entry.2 (heq ▸ List.mem_cons_self ..)
      refine List.pairwise_cons.mpr ⟨fun entry' hentry' => ?_,
        ih hrest fun n hn => hc n (List.mem_cons_of_mem _ hn)⟩
      obtain ⟨d', n'⟩ := entry'
      rcases mem_insertChild.mp hentry' with ⟨rfl, -⟩ | hmem
      · exact UInt8.lt_of_le_of_ne (UInt8.not_lt.mp hcd) hne
      · exact hlt _ hmem

end Maps

/-! ### Words -/

/-- The words of the nodes. -/
structure Spelt (s : Scratch) (word : ℕ → Bytes) : Prop where
  pos : 0 < s.size
  root : word 0 = []
  inj : ∀ i < s.size, ∀ j < s.size, word i = word j → i = j
  sorted : ∀ i, Sorted (s.children i)
  child : ∀ i < s.size, ∀ c j, (c, j) ∈ s.children i ↔ j < s.size ∧ word j = word i ++ [c]
  parent : ∀ j < s.size, j ≠ 0 → ∃ i < j, ∃ c, word j = word i ++ [c]
  fresh : ∀ i, s.size ≤ i → s.children i = [] ∧ s.outputs i = []

/-- The words of the trie. -/
def Words (s : Scratch) (word : ℕ → Bytes) (w : Bytes) : Prop := ∃ i < s.size, word i = w

namespace Spelt

variable {s s' : Scratch} {word word' : ℕ → Bytes} {i j node : ℕ} {c : UInt8} {w : Bytes}

lemma find_some (h : Spelt s word) (hi : i < s.size) :
    find (s.children i) c = some j ↔ j < s.size ∧ word j = word i ++ [c] := by
  rw [find_eq_some (h.sorted i), h.child i hi]

lemma find_none (h : Spelt s word) (hi : i < s.size) :
    find (s.children i) c = none ↔ ¬Words s word (word i ++ [c]) := by
  rw [Option.eq_none_iff_forall_ne_some]
  constructor
  · rintro hnone ⟨j, hj, hw⟩
    exact hnone j ((h.find_some hi).mpr ⟨hj, hw⟩)
  · intro hnot j hj
    exact hnot ⟨j, (h.find_some hi).mp hj⟩

lemma word_root (h : Spelt s word) : word kRoot = [] := h.root

lemma nil_word (h : Spelt s word) : Words s word [] := ⟨0, h.pos, h.root⟩

lemma closed (h : Spelt s word) (w : Bytes) (c : UInt8) (hw : Words s word (w ++ [c])) :
    Words s word w := by
  obtain ⟨j, hj, hwj⟩ := hw
  have hne : j ≠ 0 := by
    rintro rfl
    rw [h.root] at hwj
    simp at hwj
  obtain ⟨i, hi, d, hd⟩ := h.parent j hj hne
  rw [hwj] at hd
  exact ⟨i, hi.trans hj, (List.append_inj' hd rfl).1.symm⟩

lemma eq_root (h : Spelt s word) (hi : i < s.size) (hw : word i = []) : i = 0 :=
  h.inj i hi 0 h.pos (hw.trans h.root.symm)

/-- `s'` has the nodes of `s`, and more. -/
structure Grown (s s' : Scratch) (word word' : ℕ → Bytes) : Prop where
  size : s.size ≤ s'.size
  word : ∀ i < s.size, word' i = word i
  outputs : s'.outputs = s.outputs

lemma Grown.refl : Grown s s word word := ⟨le_rfl, fun _ _ => rfl, rfl⟩

lemma Grown.trans {s'' : Scratch} {word'' : ℕ → Bytes} (h : Grown s s' word word')
    (h' : Grown s' s'' word' word'') : Grown s s'' word word'' :=
  ⟨h.size.trans h'.size, fun i hi => (h'.word i (hi.trans_le h.size)).trans (h.word i hi),
    h'.outputs.trans h.outputs⟩

/-- One byte further down there is a node with one byte more. -/
lemma descend (h : Spelt s word) (hnode : node < s.size) (c : UInt8) :
    ∃ word', Spelt (Scratch.descend (s, node) c).1 word' ∧
      Grown s (Scratch.descend (s, node) c).1 word word' ∧
      (Scratch.descend (s, node) c).2 < (Scratch.descend (s, node) c).1.size ∧
      word' (Scratch.descend (s, node) c).2 = word node ++ [c] := by
  unfold Scratch.descend
  dsimp only
  split
  · next child hchild =>
    obtain ⟨hlt, hword⟩ := (h.find_some hnode).mp hchild
    exact ⟨word, h, .refl, hlt, hword⟩
  · next hnone =>
    have hnew : ¬Words s word (word node ++ [c]) := (h.find_none hnode).mp hnone
    have hold : ∀ i < s.size, Function.update word s.size (word node ++ [c]) i = word i :=
      fun i hi => Function.update_of_ne hi.ne _ _
    have hself : Function.update word s.size (word node ++ [c]) s.size = word node ++ [c] :=
      Function.update_self ..
    refine ⟨Function.update word s.size (word node ++ [c]),
      ⟨Nat.succ_pos _, ?_, ?_, ?_, ?_, ?_, ?_⟩, ⟨Nat.le_succ _, hold, rfl⟩, Nat.lt_succ_self _, hself⟩
    · rw [hold 0 h.pos, h.root]
    · intro i hi j hj heq
      rcases Nat.lt_succ_iff_lt_or_eq.mp hi with hi | rfl <;>
        rcases Nat.lt_succ_iff_lt_or_eq.mp hj with hj | rfl
      · rw [hold i hi, hold j hj] at heq
        exact h.inj i hi j hj heq
      · rw [hold i hi, hself] at heq
        exact absurd ⟨i, hi, heq⟩ hnew
      · rw [hold j hj, hself] at heq
        exact absurd ⟨j, hj, heq.symm⟩ hnew
      · rfl
    · intro i
      dsimp only
      by_cases hin : i = node
      · subst hin
        rw [Function.update_self]
        exact sorted_insertChild (h.sorted i) fun n hn =>
          hnew ⟨n, (h.child i hnode c n).mp hn⟩
      · rw [Function.update_of_ne hin]
        exact h.sorted i
    · intro i hi d j
      dsimp only
      rcases Nat.lt_succ_iff_lt_or_eq.mp hi with hi | rfl
      · rw [hold i hi]
        have hmem : (d, j) ∈ Function.update s.children node
            (insertChild c s.size (s.children node)) i ↔
            (i = node ∧ d = c ∧ j = s.size) ∨ (d, j) ∈ s.children i := by
          by_cases hin : i = node
          · subst hin
            rw [Function.update_self, mem_insertChild]
            simp
          · rw [Function.update_of_ne hin]
            simp [hin]
        rw [hmem, h.child i hi]
        constructor
        · rintro (⟨rfl, rfl, rfl⟩ | ⟨hj, hword⟩)
          · exact ⟨Nat.lt_succ_self _, hself⟩
          · exact ⟨hj.trans (Nat.lt_succ_self _), by rw [hold j hj, hword]⟩
        · rintro ⟨hj, hword⟩
          rcases Nat.lt_succ_iff_lt_or_eq.mp hj with hj | rfl
          · rw [hold j hj] at hword
            exact .inr ⟨hj, hword⟩
          · rw [hself] at hword
            obtain ⟨hw, hc⟩ := List.append_inj' hword rfl
            exact .inl ⟨(h.inj node hnode i hi hw).symm, (List.singleton_inj.mp hc).symm, rfl⟩
      · -- the new node has no children, and no word continues its word
        have hchildren : Function.update s.children node
            (insertChild c s.size (s.children node)) s.size = s.children s.size :=
          Function.update_of_ne hnode.ne' _ _
        rw [hchildren, (h.fresh s.size le_rfl).1, hself]
        refine iff_of_false (by simp) ?_
        rintro ⟨hj, hword⟩
        rcases Nat.lt_succ_iff_lt_or_eq.mp hj with hj | rfl
        · rw [hold j hj] at hword
          exact hnew (h.closed _ d ⟨j, hj, hword⟩)
        · rw [hself] at hword
          simpa using congrArg List.length hword
    · intro j hj hne
      rcases Nat.lt_succ_iff_lt_or_eq.mp hj with hj | rfl
      · obtain ⟨i, hi, d, hd⟩ := h.parent j hj hne
        exact ⟨i, hi, d, by rw [hold j hj, hold i (hi.trans hj), hd]⟩
      · exact ⟨node, hnode, c, by rw [hself, hold node hnode]⟩
    · intro i hi
      dsimp only at hi ⊢
      rw [Function.update_of_ne (by omega)]
      exact h.fresh i (by omega)

/-- The bytes of a text lead to the node of the text. -/
lemma foldl_descend (h : Spelt s word) (hnode : node < s.size) (text : Bytes) :
    ∃ word', Spelt (text.foldl Scratch.descend (s, node)).1 word' ∧
      Grown s (text.foldl Scratch.descend (s, node)).1 word word' ∧
      (text.foldl Scratch.descend (s, node)).2 < (text.foldl Scratch.descend (s, node)).1.size ∧
      word' (text.foldl Scratch.descend (s, node)).2 = word node ++ text := by
  induction text generalizing s node word with
  | nil => exact ⟨word, h, .refl, hnode, (List.append_nil _).symm⟩
  | cons c text ih =>
    obtain ⟨word₁, hspelt, hgrown, hlt, hword⟩ := h.descend hnode c
    obtain ⟨word₂, hspelt', hgrown', hlt', hword'⟩ := ih hspelt hlt
    refine ⟨word₂, hspelt', hgrown.trans hgrown', hlt', ?_⟩
    rw [List.foldl_cons, hword', hword, List.append_assoc, List.singleton_append]

end Spelt

/-! ### Outputs -/

lemma indices_concat (kept : List Bytes) (t w : Bytes) :
    indices (kept ++ [t]) w = indices kept w ++ if t = w then [kept.length] else [] := by
  unfold indices
  rw [List.length_append, List.length_singleton, List.range_succ, List.filter_append]
  congr 1
  · refine List.filter_congr fun k hk => ?_
    have hlt : k < kept.length := List.mem_range.mp hk
    rw [List.getD_eq_getElem?_getD, List.getD_eq_getElem?_getD, List.getElem?_append_left hlt]
  · have hlast : (kept ++ [t]).getD kept.length [] = t := by simp
    rw [List.filter_singleton, hlast]
    by_cases h : t = w <;> simp [h]

lemma mem_indices {kept : List Bytes} {w : Bytes} {k : ℕ} :
    k ∈ indices kept w ↔ k < kept.length ∧ kept.getD k [] = w := by
  rw [indices, List.mem_filter, List.mem_range, decide_eq_true_eq]

lemma indices_of_not_mem {kept : List Bytes} {w : Bytes} (h : w ∉ kept) : indices kept w = [] := by
  refine List.eq_nil_iff_forall_not_mem.mpr fun k hk => h ?_
  obtain ⟨hlt, hget⟩ := mem_indices.mp hk
  rw [List.getD_eq_getElem _ _ hlt] at hget
  exact hget ▸ List.getElem_mem hlt

/-- The outputs of a node are the patterns with its word, and every pattern has a node. -/
structure Filled (s : Scratch) (word : ℕ → Bytes) (patterns : List Pattern)
    (kept : List Bytes) : Prop where
  spelt : Spelt s word
  outputs : ∀ i < s.size, s.outputs i = indices kept (word i)
  known : ∀ t ∈ kept, Words s word t
  nonempty : ∀ t ∈ kept, t ≠ []
  lengths : patterns.map (·.length) = kept.map List.length

/-- More nodes have no more outputs. -/
lemma Filled.grown {s s' : Scratch} {word word' : ℕ → Bytes} {patterns : List Pattern}
    {kept : List Bytes} (h : Filled s word patterns kept) (hspelt : Spelt s' word')
    (hgrown : Spelt.Grown s s' word word') : Filled s' word' patterns kept := by
  have hold : ∀ i < s.size, word' i = word i := hgrown.word
  refine ⟨hspelt, fun i hi => ?_, fun t ht => ?_, h.nonempty, h.lengths⟩
  · rw [hgrown.outputs]
    by_cases hlt : i < s.size
    · rw [h.outputs i hlt, hold i hlt]
    · rw [(h.spelt.fresh i (Nat.le_of_not_lt hlt)).2, indices_of_not_mem]
      intro hmem
      obtain ⟨j, hj, hword⟩ := h.known _ hmem
      have heq := hspelt.inj j (hj.trans_le hgrown.size) i hi ((hold j hj).trans hword)
      exact hlt (heq ▸ hj)
  · obtain ⟨i, hi, hword⟩ := h.known t ht
    exact ⟨i, hi.trans_le hgrown.size, (hold i hi).trans hword⟩

lemma filled_start : Filled {} (fun _ => []) [] [] where
  spelt := {
    pos := Nat.one_pos
    root := rfl
    inj := fun i hi j hj _ => by
      have : i < 1 := hi
      have : j < 1 := hj
      omega
    sorted := fun _ => List.Pairwise.nil
    child := by simp
    parent := fun j hj hne => absurd (Nat.lt_one_iff.mp hj) hne
    fresh := fun _ _ => ⟨rfl, rfl⟩ }
  outputs := fun _ _ => rfl
  known := by simp
  nonempty := by simp
  lengths := rfl

lemma Filled.insert {s : Scratch} {word : ℕ → Bytes} {patterns : List Pattern}
    {kept : List Bytes} (h : Filled s word patterns kept) (ref : PatternRef) :
    ∃ word', Filled (Scratch.insert (s, patterns) ref).1 word'
      (Scratch.insert (s, patterns) ref).2 (kept ++ keptTexts [ref]) := by
  unfold Scratch.insert
  dsimp only
  split_ifs with hempty hlong
  · refine ⟨word, ?_⟩
    simpa [keptTexts, keptRefs, hempty] using h
  · obtain ⟨word', hspelt, hgrown, -⟩ := h.spelt.foldl_descend h.spelt.pos ref.text
    refine ⟨word', ?_⟩
    have hkept : keptTexts [ref] = [] := by simp [keptTexts, keptRefs, hlong]
    rw [hkept, List.append_nil]
    exact h.grown hspelt hgrown
  · have hroot : kRoot < s.size := h.spelt.pos
    obtain ⟨word', hspelt, hgrown, hlt, hword⟩ := h.spelt.foldl_descend hroot ref.text
    rw [h.spelt.word_root, List.nil_append] at hword
    have hkept : keptTexts [ref] = [ref.text] := by
      simp [keptTexts, keptRefs, hempty, Nat.lt_of_not_le hlong]
    have hgrown' := h.grown hspelt hgrown
    have hcount : patterns.length = kept.length := by
      simpa using congrArg List.length h.lengths
    refine ⟨word', ⟨?_, ?_, ?_, ?_, ?_⟩⟩
    · refine ⟨hspelt.pos, hspelt.root, hspelt.inj, hspelt.sorted, hspelt.child, hspelt.parent, ?_⟩
      intro i hi
      refine ⟨(hspelt.fresh i hi).1, ?_⟩
      dsimp only at hi ⊢
      rw [Function.update_of_ne (hlt.trans_le hi).ne']
      exact (hspelt.fresh i hi).2
    · intro i hi
      rw [hkept, indices_concat]
      dsimp only
      by_cases hin : i = (ref.text.foldl Scratch.descend (s, kRoot)).2
      · subst hin
        rw [Function.update_self, hgrown'.outputs _ hlt, hcount]
        have heq : ref.text = word' (ref.text.foldl Scratch.descend (s, kRoot)).2 := hword.symm
        rw [if_pos heq]
      · rw [Function.update_of_ne hin, hgrown'.outputs i hi, if_neg, List.append_nil]
        intro heq
        exact hin (hspelt.inj i hi _ hlt (heq.symm.trans hword.symm))
    · rw [hkept]
      intro t ht
      rcases List.mem_append.mp ht with ht | ht
      · exact hgrown'.known t ht
      · rw [List.mem_singleton.mp ht]
        exact ⟨_, hlt, hword⟩
    · rw [hkept]
      intro t ht
      rcases List.mem_append.mp ht with ht | ht
      · exact h.nonempty t ht
      · rw [List.mem_singleton.mp ht]
        exact hempty
    · rw [hkept, List.map_append, List.map_append, h.lengths]
      simp only [List.map_cons, List.map_nil]
      rw [Nat.mod_eq_of_lt (Nat.lt_of_not_le hlong)]

/-- The trie of a list of patterns. -/
theorem filled_insert (refs : List PatternRef) :
    ∃ word, Filled (refs.foldl Scratch.insert ({}, [])).1 word
      (refs.foldl Scratch.insert ({}, [])).2 (keptTexts refs) := by
  have hfold : ∀ (refs : List PatternRef) (s : Scratch × List Pattern) (word : ℕ → Bytes)
      (kept : List Bytes), Filled s.1 word s.2 kept →
      ∃ word', Filled (refs.foldl Scratch.insert s).1 word' (refs.foldl Scratch.insert s).2
        (kept ++ keptTexts refs) := by
    intro refs
    induction refs with
    | nil =>
      intro s word kept h
      exact ⟨word, by simpa [keptTexts, keptRefs] using h⟩
    | cons ref refs ih =>
      intro s word kept h
      obtain ⟨word', h'⟩ := h.insert ref
      obtain ⟨word'', h''⟩ := ih _ word' _ h'
      refine ⟨word'', ?_⟩
      have hkept : keptTexts (ref :: refs) = keptTexts [ref] ++ keptTexts refs := by
        rw [keptTexts, keptRefs, ← List.singleton_append, List.filter_append, List.map_append]
        rfl
      rw [hkept, ← List.append_assoc]
      exact h''
  obtain ⟨word, h⟩ := hfold refs ({}, []) _ [] filled_start
  exact ⟨word, by simpa using h⟩

/-- A word has no more letters than the number of its node. -/
lemma Spelt.length_le {s : Scratch} {word : ℕ → Bytes} (h : Spelt s word) {j : ℕ}
    (hj : j < s.size) : (word j).length ≤ j := by
  induction j using Nat.strong_induction_on with
  | _ j ih =>
    by_cases hroot : j = 0
    · subst hroot
      simp [h.root]
    · obtain ⟨i, hi, c, hword⟩ := h.parent j hj hroot
      have hle := ih i hi (hi.trans hj)
      rw [hword, List.length_append, List.length_singleton]
      omega

lemma fail_descend (s : Scratch × ℕ) (c : UInt8) : (Scratch.descend s c).1.fail = s.1.fail := by
  unfold Scratch.descend
  split <;> rfl

/-- The patterns that are kept. -/
lemma patterns_insert (refs : List PatternRef) :
    (refs.foldl Scratch.insert ({}, [])).2 = keptPatterns refs := by
  have hstep : ∀ (s : Scratch × List Pattern) (ref : PatternRef),
      (Scratch.insert s ref).2 = s.2 ++ keptPatterns [ref] := by
    intro s ref
    unfold Scratch.insert
    dsimp only
    split_ifs with hempty hlong
    · simp [keptPatterns, keptRefs, hempty]
    · simp [keptPatterns, keptRefs, hlong]
    · have hlt := Nat.lt_of_not_le hlong
      simp [keptPatterns, keptRefs, hempty, hlt, Nat.mod_eq_of_lt hlt]
  have hfold : ∀ (refs : List PatternRef) (s : Scratch × List Pattern),
      (refs.foldl Scratch.insert s).2 = s.2 ++ keptPatterns refs := by
    intro refs
    induction refs with
    | nil => exact fun s => (List.append_nil _).symm
    | cons ref refs ih =>
      intro s
      have hkept : keptPatterns (ref :: refs) = keptPatterns [ref] ++ keptPatterns refs := by
        rw [keptPatterns, keptRefs, ← List.singleton_append, List.filter_append, List.map_append]
        rfl
      rw [List.foldl_cons, ih, hstep, hkept, List.append_assoc]
  exact (hfold refs _).trans (List.nil_append _)

/-- The trie is put together without failure links. -/
lemma fail_insert (refs : List PatternRef) :
    (refs.foldl Scratch.insert ({}, [])).1.fail = fun _ => kRoot := by
  have hword : ∀ (text : Bytes) (s : Scratch × ℕ),
      (text.foldl Scratch.descend s).1.fail = s.1.fail := by
    intro text
    induction text with
    | nil => exact fun s => rfl
    | cons c text ih => exact fun s => (ih _).trans (fail_descend s c)
  have hstep : ∀ (s : Scratch × List Pattern) (ref : PatternRef),
      (Scratch.insert s ref).1.fail = s.1.fail := by
    intro s ref
    unfold Scratch.insert
    dsimp only
    split_ifs
    · rfl
    · exact hword _ _
    · exact hword _ _
  have hfold : ∀ (refs : List PatternRef) (s : Scratch × List Pattern),
      (refs.foldl Scratch.insert s).1.fail = s.1.fail := by
    intro refs
    induction refs with
    | nil => exact fun s => rfl
    | cons ref refs ih => exact fun s => (ih _).trans (hstep s ref)
  exact hfold refs _

/-- The nodes are a tree, whose levels are the lengths of the words. -/
theorem Spelt.tree {s : Scratch} {word : ℕ → Bytes} (h : Spelt s word) :
    Breadth.Tree s.childNodes (fun i => (word i).length) s.size := by
  have hmem : ∀ n < s.size, ∀ m, m ∈ s.childNodes n ↔
      m < s.size ∧ ∃ c, word m = word n ++ [c] := by
    intro n hn m
    rw [Scratch.childNodes, List.mem_map]
    constructor
    · rintro ⟨⟨c, m'⟩, hentry, rfl⟩
      obtain ⟨hlt, hword⟩ := (h.child n hn c m').mp hentry
      exact ⟨hlt, c, hword⟩
    · rintro ⟨hlt, c, hword⟩
      exact ⟨(c, m), (h.child n hn c m).mpr ⟨hlt, hword⟩, rfl⟩
  refine ⟨h.pos, fun n hn m hm => ((hmem n hn m).mp hm).1, ?_, ?_, ?_, ?_, ?_⟩
  · rintro n hn m hm rfl
    obtain ⟨-, c, hword⟩ := (hmem n hn 0).mp hm
    rw [h.root] at hword
    simp at hword
  · intro n hn m hm
    obtain ⟨-, c, hword⟩ := (hmem n hn m).mp hm
    simp [hword]
  · intro n hn
    rw [Scratch.childNodes]
    refine List.Nodup.map_on ?_ ((h.sorted n).imp fun hlt heq => ?_)
    · rintro ⟨c, j⟩ hj ⟨d, j'⟩ hj' heq
      dsimp only at heq
      subst heq
      have hc := ((h.child n hn c j).mp hj).2
      have hd := ((h.child n hn d j).mp hj').2
      rw [hc] at hd
      rw [List.singleton_inj.mp (List.append_cancel_left hd)]
    · rw [heq] at hlt
      exact UInt8.lt_irrefl _ hlt
  · intro n hn n' hn' m hm hm'
    obtain ⟨-, c, hword⟩ := (hmem n hn m).mp hm
    obtain ⟨-, c', hword'⟩ := (hmem n' hn' m).mp hm'
    rw [hword] at hword'
    exact h.inj n hn n' hn' (List.append_inj' hword' rfl).1
  · intro m hm hne
    obtain ⟨n, hn, c, hword⟩ := h.parent m hm hne
    exact ⟨n, hn.trans hm, (hmem n (hn.trans hm) m).mpr ⟨hm, c, hword⟩⟩

end TextMatch

end ArgusBackend
