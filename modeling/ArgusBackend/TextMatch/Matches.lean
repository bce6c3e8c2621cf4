import ArgusBackend.TextMatch.Outputs

/-!
# The matches of the phrase automaton

After every byte the state is the longest suffix of the text that is a word of the trie, so the
matches that end there are its outputs.

* `advance_spec` : the state after one more byte;
* `match_spec` : the pass over the text is the plain search;
* `mem_naive`, `pairwise_naive` : what the plain search finds, and in which order;
* `finds_phrases` : the automaton of a list of patterns finds each where it stands alone.
-/

namespace ArgusBackend

namespace TextMatch

open Suffixes

variable {a : PhraseAutomaton} {s : Scratch} {word : ℕ → Bytes} {kept : List Bytes}
  {text w : Bytes} {f pos state : ℕ} {c : UInt8}

/-! ### The state -/

/-- The state at which the way along the suffixes ends. -/
lemma settle_spec (h : Built a s word kept) (fuel : ℕ) (hf : f < s.size)
    (hfuel : (word f).length < fuel) (hclimbs : Climbs (Words s word) w c (word f)) :
    ∃ g, a.settle c fuel f = some g ∧ g < s.size ∧ Climbs (Words s word) w c (word g) ∧
      (g = kRoot ∨ (a.transition g c).isSome) := by
  induction fuel generalizing f with
  | zero => exact absurd hfuel (Nat.not_lt_zero _)
  | succ fuel ih =>
    rw [PhraseAutomaton.settle]
    split_ifs with hroot hsome
    · exact ⟨kRoot, rfl, h.spelt.pos, hroot ▸ hclimbs, .inl rfl⟩
    · exact ⟨f, rfl, hf, hclimbs, .inr hsome⟩
    · have hlink := h.linked f hf hroot
      have hword : word f ≠ [] := fun hnil => hroot (h.spelt.eq_root hf hnil)
      have hshort := hlink.shorter hword
      rw [h.transition f hf, Option.not_isSome_iff_eq_none, h.spelt.find_none hf] at hsome
      exact ih hlink.lt (by omega) (hclimbs.border h.spelt.closed hsome hlink.longest)

/-- The state after one more byte. -/
lemma advance_spec (h : Built a s word kept) (pos : ℕ) (hstate : state < s.size)
    (hlongest : Longest (Words s word) w (word state)) (hpos : w.length ≤ pos) (c : UInt8) :
    ∃ state', a.advance (pos + 1) state c = some state' ∧ state' < s.size ∧
      Longest (Words s word) (w ++ [c]) (word state') := by
  have hlen := hlongest.suffix.length_le
  obtain ⟨g, hsettle, hg, hclimbs, hend⟩ := settle_spec h (pos + 1) hstate (by omega)
    (hlongest.climbs h.spelt.closed c)
  refine ⟨_, by rw [PhraseAutomaton.advance, hsettle]; rfl, ?_⟩
  dsimp only
  rw [h.transition g hg] at hend ⊢
  rcases hend with rfl | hsome
  · rw [h.spelt.word_root] at hclimbs
    exact root_spec h.spelt hclimbs
  · obtain ⟨child, hchild⟩ := Option.isSome_iff_exists.mp hsome
    obtain ⟨hlt, hword⟩ := (h.spelt.find_some hg).mp hchild
    rw [hchild, Option.getD_some, hword]
    exact ⟨hlt, hclimbs.next ⟨child, hlt, hword⟩⟩

/-! ### The items -/

lemma itemsAt_spec (h : Built a s word kept) (hstate : state < s.size)
    (hlongest : Longest (Words s word) (text.take (pos + 1)) (word state)) :
    a.itemsAt text pos state = naiveAt kept text pos := by
  have hfound : ∀ x, ((indices kept x).filterMap fun k =>
      PhraseAutomaton.accept text (pos + 1) x.length k) ≠ [] → Words s word x := by
    intro x hx
    refine h.known x fun hnil => hx ?_
    rw [hnil, List.filterMap_nil]
  rw [naiveAt, hlongest.flatMap_tails _ hfound, PhraseAutomaton.itemsAt]
  have hmap := (h.outs state hstate).map_range 0
  have hitems := congrArg (List.filterMap fun k => PhraseAutomaton.accept text (pos + 1)
    ((a.patterns.map (·.length)).getD k 0) k) hmap
  rw [List.filterMap_map] at hitems
  refine hitems.trans ?_
  rw [outs, List.filterMap_flatMap]
  refine List.flatMap_congr fun x _ => List.filterMap_congr fun k hk => ?_
  obtain ⟨hlt, hget⟩ := mem_indices.mp hk
  rw [h.lengths, List.getD_eq_getElem _ _ (by rwa [List.length_map]), List.getElem_map,
    ← List.getD_eq_getElem kept [] hlt, hget]

/-- The pass over the text is the plain search. -/
theorem match_spec (h : Built a s word kept) (text : Bytes) :
    a.match_ text = some (naive kept text) := by
  -- before every byte the state is the longest suffix of what was read
  have hpass : ∀ n ≤ text.length, ∃ state,
      (List.range n).foldlM (a.matchStep text) (kRoot, []) =
        some (state, (List.range n).flatMap (naiveAt kept text)) ∧ state < s.size ∧
      Longest (Words s word) (text.take n) (word state) := by
    intro n hn
    induction n with
    | zero =>
      refine ⟨kRoot, rfl, h.spelt.pos, ?_⟩
      rw [List.take_zero, h.spelt.word_root]
      exact ⟨List.nil_suffix, h.spelt.nil_word, fun u hu _ => hu⟩
    | succ n ih =>
      obtain ⟨state, hfold, hstate, hlongest⟩ := ih (by omega)
      have hlt : n < text.length := hn
      obtain ⟨state', hadvance, hstate', hlongest'⟩ := advance_spec h n hstate hlongest
        (by rw [List.length_take]; omega) (text.getD n 0)
      rw [List.getD_eq_getElem _ _ hlt, List.take_concat_get' _ _ hlt] at hlongest'
      refine ⟨state', ?_, hstate', hlongest'⟩
      have hstep : a.matchStep text (state, (List.range n).flatMap (naiveAt kept text)) n =
          some (state', (List.range n).flatMap (naiveAt kept text) ++ naiveAt kept text n) := by
        rw [PhraseAutomaton.matchStep, hadvance, ← itemsAt_spec h hstate' hlongest']
        rfl
      rw [List.range_succ, List.foldlM_append, hfold, List.flatMap_append, List.flatMap_singleton]
      change ([n].foldlM (a.matchStep text) _ : Option (ℕ × List Match)) = _
      rw [List.foldlM_cons, hstep]
      rfl
  obtain ⟨state, hfold, -⟩ := hpass text.length le_rfl
  rw [PhraseAutomaton.match_, hfold]
  rfl

/-! ### The plain search -/

lemma accept_eq_some {end_ length k : ℕ} {m : Match} :
    PhraseAutomaton.accept text end_ length k = some m ↔ m = ⟨k, end_ - length, end_⟩ ∧
      (0 < end_ - length → isWordChar (text.getD (end_ - length - 1) 0) = false) ∧
      (end_ < text.length → isWordChar (text.getD end_ 0) = false) ∧
      isSpanEdge (text.getD (end_ - length) 0) = true ∧
      isSpanEdge (text.getD (end_ - 1) 0) = true := by
  rw [PhraseAutomaton.accept]
  split_ifs with hbefore hafter hedges
  · refine iff_of_false (by simp) fun hm => ?_
    rw [hm.2.1 hbefore.1] at hbefore
    exact Bool.false_ne_true hbefore.2
  · refine iff_of_false (by simp) fun hm => ?_
    rw [hm.2.2.1 hafter.1] at hafter
    exact Bool.false_ne_true hafter.2
  · refine iff_of_false (by simp) fun hm => ?_
    rw [hm.2.2.2.1, hm.2.2.2.2] at hedges
    simp at hedges
  · have hbefore' : 0 < end_ - length → isWordChar (text.getD (end_ - length - 1) 0) = false :=
      fun hpos => Bool.eq_false_iff.mpr fun htrue => hbefore ⟨hpos, htrue⟩
    have hafter' : end_ < text.length → isWordChar (text.getD end_ 0) = false :=
      fun hlt => Bool.eq_false_iff.mpr fun htrue => hafter ⟨hlt, htrue⟩
    have hedges' : isSpanEdge (text.getD (end_ - length) 0) = true ∧
        isSpanEdge (text.getD (end_ - 1) 0) = true := by
      simpa using hedges
    constructor
    · intro hm
      exact ⟨(Option.some.inj hm).symm, hbefore', hafter', hedges'⟩
    · rintro ⟨rfl, -⟩
      rfl

lemma mem_naiveAt {m : Match} :
    m ∈ naiveAt kept text pos ↔ ∃ w, w <:+ text.take (pos + 1) ∧ ∃ k ∈ indices kept w,
      PhraseAutomaton.accept text (pos + 1) w.length k = some m := by
  rw [naiveAt, List.mem_flatMap]
  refine exists_congr fun w => and_congr (List.mem_tails _ _) ?_
  rw [List.mem_filterMap]

/-- A suffix of the first bytes of a text is where it begins. -/
lemma suffix_take_iff {n : ℕ} (hn : n ≤ text.length) :
    w <:+ text.take n ↔ w.length ≤ n ∧ (text.drop (n - w.length)).take w.length = w := by
  have hlen : (text.take n).length = n := by rw [List.length_take, Nat.min_eq_left hn]
  constructor
  · intro h
    have hle : w.length ≤ n := hlen ▸ h.length_le
    have heq := List.suffix_iff_eq_drop.mp h
    rw [hlen, List.drop_take, Nat.sub_sub_self hle] at heq
    exact ⟨hle, heq.symm⟩
  · rintro ⟨hle, heq⟩
    rw [List.suffix_iff_eq_drop, hlen, List.drop_take, Nat.sub_sub_self hle]
    exact heq.symm

/-- The plain search finds a pattern where it stands alone. -/
theorem mem_naive (hkept : ∀ t ∈ kept, t ≠ []) {m : Match} :
    m ∈ naive kept text ↔ Stands kept text m := by
  rw [naive, List.mem_flatMap]
  constructor
  · rintro ⟨pos, hpos, hm⟩
    have hlt : pos + 1 ≤ text.length := List.mem_range.mp hpos
    obtain ⟨w, hw, k, hk, haccept⟩ := mem_naiveAt.mp hm
    obtain ⟨rfl, hbefore, hafter, hedges⟩ := accept_eq_some.mp haccept
    obtain ⟨hle, hoccurs⟩ := (suffix_take_iff hlt).mp hw
    obtain ⟨hklt, hget⟩ := mem_indices.mp hk
    refine ⟨hklt, ?_, hlt, ?_, hbefore, hafter, hedges⟩ <;> dsimp only <;> rw [hget]
    · omega
    · exact hoccurs
  · intro hstands
    obtain ⟨k, begin, end_⟩ := m
    obtain ⟨hklt, hlen, hinside, hoccurs, hbefore, hafter, hedges⟩ := hstands
    dsimp only at hklt hlen hinside hoccurs hbefore hafter hedges
    have hpos : 0 < (kept.getD k []).length := by
      rw [List.getD_eq_getElem _ _ hklt]
      exact List.length_pos_of_ne_nil (hkept _ (List.getElem_mem hklt))
    -- a pattern has a byte, so its end is behind one
    obtain ⟨pos, rfl⟩ : ∃ pos, end_ = pos + 1 := ⟨end_ - 1, by omega⟩
    have hbegin : pos + 1 - (kept.getD k []).length = begin := by omega
    refine ⟨pos, List.mem_range.mpr hinside, mem_naiveAt.mpr ⟨kept.getD k [], ?_, k,
      mem_indices.mpr ⟨hklt, rfl⟩, accept_eq_some.mpr ?_⟩⟩
    · rw [suffix_take_iff hinside, hbegin]
      exact ⟨by omega, hoccurs⟩
    · rw [hbegin]
      exact ⟨rfl, hbefore, hafter, hedges⟩

/-- The items are in order, so that none is there twice. -/
theorem pairwise_naive (kept : List Bytes) (text : Bytes) :
    (naive kept text).Pairwise Precedes := by
  have hend : ∀ pos, ∀ m ∈ naiveAt kept text pos, m.end_ = pos + 1 := by
    intro pos m hm
    obtain ⟨w, -, k, -, haccept⟩ := mem_naiveAt.mp hm
    rw [(accept_eq_some.mp haccept).1]
  rw [naive, List.pairwise_flatMap]
  constructor
  · intro pos hpos
    have hlt : pos + 1 ≤ text.length := List.mem_range.mp hpos
    rw [naiveAt, List.pairwise_flatMap]
    constructor
    · intro w _
      rw [List.pairwise_filterMap]
      refine (List.pairwise_lt_range.filter _).imp fun {k k'} hkk m hm m' hm' => ?_
      rw [(accept_eq_some.mp hm).1, (accept_eq_some.mp hm').1]
      exact .inr ⟨rfl, .inr ⟨rfl, hkk⟩⟩
    · refine (pairwise_tails _).imp_of_mem fun {w w'} hw _ hlen m hm m' hm' => ?_
      obtain ⟨k, -, haccept⟩ := List.mem_filterMap.mp hm
      obtain ⟨k', -, haccept'⟩ := List.mem_filterMap.mp hm'
      have hle := ((suffix_take_iff hlt).mp ((List.mem_tails _ _).mp hw)).1
      rw [(accept_eq_some.mp haccept).1, (accept_eq_some.mp haccept').1]
      exact .inr ⟨rfl, .inl (by dsimp only; omega)⟩
  · refine List.pairwise_lt_range.imp fun {pos pos'} hlt m hm m' hm' => .inl ?_
    rw [hend pos m hm, hend pos' m' hm']
    omega

/-! ### The automaton -/

lemma nonempty_keptTexts {refs : List PatternRef} : ∀ t ∈ keptTexts refs, t ≠ [] := by
  intro t ht
  obtain ⟨ref, href, rfl⟩ := List.mem_map.mp ht
  have hkept := of_decide_eq_true (List.mem_filter.mp href).2
  exact hkept.1

/-- Without patterns there is nothing to find. -/
lemma match_empty (text : Bytes) : ({} : PhraseAutomaton).match_ text = some [] := by
  have hstep : ∀ (l : List ℕ), l.foldlM (({} : PhraseAutomaton).matchStep text) (kRoot, []) =
      some (kRoot, []) := by
    intro l
    induction l with
    | nil => rfl
    | cons pos l ih => exact ih
  rw [PhraseAutomaton.match_, hstep]
  rfl

/-- The automaton of a list of patterns has those that are kept, and its pass over a text ends
with every place where one of them stands alone, each once and in order. -/
theorem finds_phrases (refs : List PatternRef) (text : Bytes) (hlen : refs.length ≤ kMaxPatterns) :
    ∃ a items, build refs = some a ∧ a.patterns = keptPatterns refs ∧
      a.match_ text = some items ∧ (∀ m, m ∈ items ↔ Stands (keptTexts refs) text m) ∧
      items.Pairwise Precedes := by
  by_cases hrefs : refs = []
  · subst hrefs
    refine ⟨{}, [], rfl, rfl, match_empty text, fun m => ?_, List.Pairwise.nil⟩
    exact iff_of_false (by simp) fun hstands => absurd hstands.known (Nat.not_lt_zero _)
  · obtain ⟨a, s, word, hbuild, hpatterns, hbuilt⟩ := build_spec hrefs hlen
    exact ⟨a, _, hbuild, hpatterns, match_spec hbuilt text, fun m => mem_naive nonempty_keptTexts,
      pairwise_naive _ _⟩

/-- Equal patterns both count, and so does one inside of another. -/
theorem finds_phrases_no_way : ∃ a items,
    build [⟨.entity, 3, [0x6e, 0x6f]⟩, ⟨.predicate, 4, [0x6e, 0x6f, 0x20, 0x77]⟩,
      ⟨.kinship, 5, [0x6e, 0x6f]⟩] = some a ∧
    a.match_ [0x6e, 0x6f, 0x20, 0x77] = some items ∧
    ⟨0, 0, 2⟩ ∈ items ∧ ⟨1, 0, 4⟩ ∈ items ∧ ⟨2, 0, 2⟩ ∈ items := by
  obtain ⟨a, items, hbuild, -, hmatch, hmem, -⟩ := finds_phrases
    [⟨.entity, 3, [0x6e, 0x6f]⟩, ⟨.predicate, 4, [0x6e, 0x6f, 0x20, 0x77]⟩,
      ⟨.kinship, 5, [0x6e, 0x6f]⟩] [0x6e, 0x6f, 0x20, 0x77] (by decide)
  refine ⟨a, items, hbuild, hmatch, (hmem _).mpr ?_, (hmem _).mpr ?_, (hmem _).mpr ?_⟩ <;>
    exact ⟨by decide, by decide, by decide, by decide, by decide, by decide, by decide⟩

example : (build [⟨.entity, 3, [0x6e, 0x6f]⟩, ⟨.kinship, 5, [0x6f]⟩]).bind
    (·.match_ [0x6e, 0x6f, 0x20, 0x6f]) = some [⟨0, 0, 2⟩, ⟨1, 3, 4⟩] := by
  decide

end TextMatch

end ArgusBackend
