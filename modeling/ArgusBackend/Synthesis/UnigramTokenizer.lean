import ArgusBackend.Library.Trellis
import ArgusBackend.Library.LittleEndian
import Mathlib.Algebra.Order.Group.Int
import Mathlib.Data.List.Flatten
import Mathlib.Logic.Relation

/-!
# The unigram tokenizer

The tokenizer of the voice model cuts a text at its spaces and each word into pieces of a
vocabulary, such that the sum of the scores is the best.  A character that is no piece costs the
unknown score and is spelled byte by byte.

* `encodeWord_best` : the cut of a word is a best one of all its cuts;
* `encode_text` : with a token for each byte, the tokens of a text spell the text.

A score is a double there; here it is anything that is ordered and added.
-/

namespace ArgusBackend

namespace Synthesis

open Trellis (Edge Node relax table trace Chain total)

/-! ### The vocabulary -/

/-- The character that stands for a space. -/
def kMetaspace : Bytes := [0xE2, 0x96, 0x81]

/-- The length of a UTF-8 character by its first byte. -/
def codepointLength (lead : UInt8) : ℕ :=
  if lead < 0x80 then 1
  else if lead &&& 0xE0 = 0xC0 then 2
  else if lead &&& 0xF0 = 0xE0 then 3
  else if lead &&& 0xF8 = 0xF0 then 4
  else 1

/-- The value of a hexadecimal digit. -/
def hexValue (digit : UInt8) : Option ℕ :=
  if 0x30 ≤ digit ∧ digit ≤ 0x39 then some (digit.toNat - 0x30)
  else if 0x41 ≤ digit ∧ digit ≤ 0x46 then some (digit.toNat - 0x41 + 10)
  else none

/-- The byte that a piece such as `<0xE2>` stands for. -/
def byteToken (piece : Bytes) : Option ℕ :=
  if piece.length ≠ 6 ∨ ¬ [0x3C, 0x30, 0x78].isPrefixOf piece ∨ ¬ [0x3E].isSuffixOf piece then none
  else ((piece.drop 3).take 2).foldlM
    (fun value digit => (hexValue digit).map fun d => value * 16 + d) 0

/-- A piece of the vocabulary and its score. -/
structure Piece (S : Type) where
  id : ℕ
  score : S

/-- The file of the tokenizer. -/
structure Document (S : Type) where
  vocab : List (Bytes × S)
  unkId : ℤ
  special : List Bytes

/-- No piece is longer than `maxPieceBytes`, beyond which a word is not searched. -/
structure UnigramTokenizer (S : Type) where
  pieces : Bytes → Option (Piece S)
  byteIds : ℕ → Option ℕ
  maxPieceBytes : ℕ
  unknownId : ℤ
  unknownScore : S
  fits : ∀ text p, pieces text = some p → text.length ≤ maxPieceBytes

namespace UnigramTokenizer

variable {S : Type}

/-- An entry that is there stays. -/
def emplace (pieces : Bytes → Option (Piece S)) (text : Bytes) (p : Piece S) :
    Bytes → Option (Piece S) :=
  if (pieces text).isSome then pieces else Function.update pieces text (some p)

theorem emplace_some {pieces : Bytes → Option (Piece S)} {text text' : Bytes} {p p' : Piece S}
    (h : emplace pieces text p text' = some p') :
    pieces text' = some p' ∨ text' = text ∧ p' = p := by
  unfold emplace at h
  split_ifs at h
  · exact .inl h
  · by_cases heq : text' = text
    · subst heq
      rw [Function.update_self] at h
      exact .inr ⟨rfl, (Option.some.inj h).symm⟩
    · rw [Function.update_of_ne heq] at h
      exact .inl h

/-- One entry of the vocabulary with its number. -/
def add (special : List Bytes) (t : UnigramTokenizer S) (entry : (Bytes × S) × ℕ) :
    UnigramTokenizer S :=
  match byteToken entry.1.1 with
  | some byte => { t with byteIds := Function.update t.byteIds byte (some entry.2) }
  | none =>
    if special.contains entry.1.1 = false ∧ entry.1.1 ≠ [] then
      { t with
        maxPieceBytes := max t.maxPieceBytes entry.1.1.length
        pieces := emplace t.pieces entry.1.1 ⟨entry.2, entry.1.2⟩
        fits := fun text p h => by
          rcases emplace_some h with h | ⟨rfl, -⟩
          · exact (t.fits text p h).trans (le_max_left _ _)
          · exact le_max_right _ _ }
    else t

/-- `limit` is the greatest double and `penalty` is what the unknown score lies below the least
score, with its sign. -/
def load [LinearOrder S] [Add S] (limit penalty : S) (json : Document S) : UnigramTokenizer S :=
  json.vocab.zipIdx.foldl (add json.special)
    { pieces := fun _ => none
      byteIds := fun _ => none
      maxPieceBytes := 0
      unknownId := json.unkId
      unknownScore := json.vocab.foldl (fun minimum entry => min minimum entry.2) limit + penalty
      fits := fun _ _ h => by cases h }

/-! ### The words -/

/-- The length of the character at `i`, which the end of the word may cut. -/
def stepAt (word : Bytes) (i : ℕ) : ℕ :=
  min (codepointLength (word.getD i 0)) (word.length - i)

/-- The bytes from a place to another. -/
def slice (word : Bytes) (start stop : ℕ) : Bytes := (word.drop start).take (stop - start)

section Encode

variable [LinearOrder S] [Add S] [Zero S] (t : UnigramTokenizer S) (word : Bytes)

/-- The best cut up to each position, with the piece that ends there. -/
abbrev Table (S : Type) := ℕ → Option (Node S (Option ℕ))

/-- The pieces that start at `start` and end at `stop` or later, and whether one of them is a
single character. -/
def scan (start : ℕ) : ℕ → ℕ → Table S → Bool → Table S × Bool
  | 0, _, best, single => (best, single)
  | fuel + 1, stop, best, single =>
    if stop ≤ word.length ∧ stop - start ≤ t.maxPieceBytes then
      let (best, single) :=
        match t.pieces (slice word start stop) with
        | some p => (relax best ⟨start, stop, p.score, some p.id⟩,
            single || stop == start + stepAt word start)
        | none => (best, single)
      if stop = word.length then (best, single)
      else scan start fuel (stop + stepAt word stop) best single
    else (best, single)

/-- The best way to each place, from each place on. -/
def sweep : ℕ → ℕ → Table S → Table S
  | 0, _, best => best
  | fuel + 1, start, best =>
    if start < word.length then
      let stop := start + stepAt word start
      let best :=
        if (best start).isSome then
          let (best, single) := t.scan word start word.length stop best false
          if single then best else relax best ⟨start, stop, t.unknownScore, none⟩
        else best
      sweep fuel stop best
    else best

/-- The token of a byte, or the one for what is unknown. -/
def byteId (byte : UInt8) : ℤ :=
  match t.byteIds byte.toNat with
  | some id => id
  | none => t.unknownId

/-- The tokens of a path; a character without a piece is spelled. -/
def emit : ℕ → List (ℕ × Option ℕ) → List ℤ
  | _, [] => []
  | _, (stop, some id) :: path => id :: emit stop path
  | cursor, (stop, none) :: path => (slice word cursor stop).map t.byteId ++ emit stop path

-- Every end of a word is reached (`sweep_end`), so the path is never cut short.

/-- The tokens of the best cut of a word. -/
def encodeWord : List ℤ :=
  let best := t.sweep word word.length 0 (table ⟨0, 0, none⟩)
  t.emit word 0 (trace best word.length word.length).reverse

end Encode

/-! ### The texts -/

/-- A text with the metaspace for every space, and before it. -/
def normalize (text : Bytes) : Bytes :=
  kMetaspace ++ text.flatMap fun value => if value = 0x20 then kMetaspace else [value]

/-- The first metaspace of `view` at `start` or later. -/
def find (view : Bytes) (start : ℕ) : Option ℕ :=
  (List.range (view.length + 1)).find? fun i =>
    decide (start ≤ i) && kMetaspace.isPrefixOf (view.drop i)

/-- The words of a text, each with its metaspace. -/
def words (view : Bytes) : ℕ → ℕ → List Bytes
  | 0, _ => []
  | fuel + 1, start =>
    if start < view.length then
      let next := (find view (start + kMetaspace.length)).getD view.length
      slice view start next :: words view fuel next
    else []

/-- `encode` -/
def encode [LinearOrder S] [Add S] [Zero S] (t : UnigramTokenizer S) (text : Bytes) : List ℤ :=
  if text = [] then []
  else (words (normalize text) (normalize text).length 0).flatMap t.encodeWord

/-! ### The cuts of a word -/

section Cuts

open Relation

/-- From one character to the next. -/
def Next (word : Bytes) (i j : ℕ) : Prop := i < word.length ∧ j = i + stepAt word i

/-- A piece from character to character, or a character that is no piece. -/
structure Cut (t : UnigramTokenizer S) (word : Bytes) (e : Edge S (Option ℕ)) : Prop where
  source : ReflTransGen (Next word) 0 e.source
  target : TransGen (Next word) e.source e.target
  piece : match t.pieces (slice word e.source e.target) with
    | some p => e.score = p.score ∧ e.label = some p.id
    | none => Next word e.source e.target ∧ e.score = t.unknownScore ∧ e.label = none

variable {t : UnigramTokenizer S} {word : Bytes} {i j start stop fuel : ℕ}

theorem codepointLength_pos (lead : UInt8) : 0 < codepointLength lead := by
  unfold codepointLength
  split_ifs <;> omega

theorem Next.lt (h : Next word i j) : i < j ∧ j ≤ word.length := by
  obtain ⟨hi, rfl⟩ := h
  have := codepointLength_pos (word.getD i 0)
  unfold stepAt
  omega

theorem next_stepAt (h : i < word.length) : Next word i (i + stepAt word i) := ⟨h, rfl⟩

theorem le_of_reach (h : ReflTransGen (Next word) i j) : i ≤ j := by
  induction h with
  | refl => exact le_rfl
  | tail _ hnext ih => exact ih.trans hnext.lt.1.le

/-- The characters lie in a row. -/
theorem reach_iff_next (h : i < word.length) :
    TransGen (Next word) i j ↔ ReflTransGen (Next word) (i + stepAt word i) j := by
  rw [TransGen.head'_iff]
  constructor
  · rintro ⟨k, ⟨-, rfl⟩, hk⟩
    exact hk
  · exact fun hk => ⟨_, next_stepAt h, hk⟩

theorem Cut.lt {e : Edge S (Option ℕ)} (h : t.Cut word e) :
    e.source < e.target ∧ e.target ≤ word.length := by
  obtain ⟨k, hk, hnext⟩ := TransGen.tail'_iff.1 h.target
  exact ⟨(le_of_reach hk).trans_lt hnext.lt.1, hnext.lt.2⟩

theorem slice_length (hstop : stop ≤ word.length) :
    (slice word start stop).length = stop - start := by
  rw [slice, List.length_take, List.length_drop]
  omega

theorem slice_append (h : start ≤ i) (h' : i ≤ stop) :
    slice word start i ++ slice word i stop = slice word start stop := by
  unfold slice
  rw [show stop - start = (i - start) + (stop - i) by omega, List.take_add, List.drop_drop,
    show start + (i - start) = i by omega]

end Cuts

/-! ### The loops relax the cuts -/

section Loops

open Relation

variable [LinearOrder S] [Add S] (t : UnigramTokenizer S) (word : Bytes)

/-- The pieces the inner loop finds. -/
def spans (start : ℕ) : ℕ → ℕ → List (Edge S (Option ℕ))
  | 0, _ => []
  | fuel + 1, stop =>
    if stop ≤ word.length ∧ stop - start ≤ t.maxPieceBytes then
      ((t.pieces (slice word start stop)).map fun p =>
        ⟨start, stop, p.score, some p.id⟩).toList ++
        if stop = word.length then [] else spans start fuel (stop + stepAt word stop)
    else []

/-- What is relaxed at one character. -/
def cutsAt (start : ℕ) : List (Edge S (Option ℕ)) :=
  let stop := start + stepAt word start
  t.spans word start word.length stop ++
    if (t.pieces (slice word start stop)).isSome then [] else [⟨start, stop, t.unknownScore, none⟩]

/-- The pieces that a word can be cut into. -/
def cuts : ℕ → ℕ → List (Edge S (Option ℕ))
  | 0, _ => []
  | fuel + 1, start =>
    if start < word.length then
      t.cutsAt word start ++ cuts fuel (start + stepAt word start)
    else []

variable {t word} {start stop fuel : ℕ} {best : Table S} {single : Bool} {e : Edge S (Option ℕ)}

theorem scan_eq : t.scan word start fuel stop best single =
    ((t.spans word start fuel stop).foldl relax best,
      single || (t.spans word start fuel stop).any fun e =>
        e.target == start + stepAt word start) := by
  induction fuel generalizing stop best single with
  | zero => simp [scan, spans]
  | succ fuel ih =>
    rw [scan, spans]
    by_cases hin : stop ≤ word.length ∧ stop - start ≤ t.maxPieceBytes
    · rw [if_pos hin, if_pos hin]
      cases t.pieces (slice word start stop) <;> by_cases hend : stop = word.length <;>
        simp [hend, ih, Bool.or_assoc]
    · rw [if_neg hin, if_neg hin]
      simp

omit [LinearOrder S] [Add S] in
/-- A piece beyond the point where the loop stops would be too long. -/
theorem mem_spans (hfuel : word.length < stop + fuel) (hstart : start ≤ stop) :
    e ∈ t.spans word start fuel stop ↔ ∃ i p, ReflTransGen (Next word) stop i ∧ i ≤ word.length ∧
      t.pieces (slice word start i) = some p ∧ e = ⟨start, i, p.score, some p.id⟩ := by
  induction fuel generalizing stop with
  | zero =>
    refine ⟨fun h => absurd h List.not_mem_nil, ?_⟩
    rintro ⟨i, p, hreach, hi, -⟩
    have := le_of_reach hreach
    omega
  | succ fuel ih =>
    rw [spans]
    by_cases hin : stop ≤ word.length ∧ stop - start ≤ t.maxPieceBytes
    · rw [if_pos hin, List.mem_append]
      constructor
      · rintro (h | h)
        · obtain ⟨p, hp, rfl⟩ := Option.map_eq_some_iff.1 (Option.mem_toList.1 h)
          exact ⟨stop, p, .refl, hin.1, hp, rfl⟩
        · split_ifs at h with hend
          · exact absurd h List.not_mem_nil
          · have hnext := next_stepAt (hin.1.lt_of_ne hend)
            have hlt := hnext.lt.1
            obtain ⟨i, p, hreach, hi⟩ := (ih (by omega) (by omega)).1 h
            exact ⟨i, p, hreach.head hnext, hi⟩
      · rintro ⟨i, p, hreach, hi, hp, rfl⟩
        rcases hreach.cases_head with rfl | ⟨k, hnext, hreach⟩
        · exact .inl (by simp [hp])
        · have hlt := hnext.lt.1
          obtain ⟨hstop, rfl⟩ := hnext
          rw [if_neg hstop.ne]
          exact .inr ((ih (by omega) (by omega)).2 ⟨i, p, hreach, hi, hp, rfl⟩)
    · rw [if_neg hin]
      refine ⟨fun h => absurd h List.not_mem_nil, ?_⟩
      rintro ⟨i, p, hreach, hi, hp, -⟩
      have hle := le_of_reach hreach
      have hfits := t.fits _ p hp
      rw [slice_length hi] at hfits
      omega

omit [LinearOrder S] [Add S] in
theorem mem_cutsAt (hstart : ReflTransGen (Next word) 0 start) (hlt : start < word.length) :
    e ∈ t.cutsAt word start ↔ e.source = start ∧ t.Cut word e := by
  have hstep := (next_stepAt hlt).lt
  rw [cutsAt, List.mem_append, mem_spans (by omega) hstep.1.le]
  constructor
  · rintro (⟨i, p, hreach, -, hp, rfl⟩ | h)
    · exact ⟨rfl, hstart, (reach_iff_next hlt).2 hreach, by simp [hp]⟩
    · split_ifs at h with hsingle
      · exact absurd h List.not_mem_nil
      · obtain rfl := List.mem_singleton.1 h
        have hnone := Option.not_isSome_iff_eq_none.1 hsingle
        exact ⟨rfl, hstart, .single (next_stepAt hlt), by simp [hnone, next_stepAt hlt]⟩
  · rintro ⟨rfl, hcut⟩
    obtain ⟨source, target, score, label⟩ := e
    have hpiece := hcut.piece
    dsimp only at hpiece hcut hlt ⊢
    cases hp : t.pieces (slice word source target) with
    | some p =>
      rw [hp] at hpiece
      obtain ⟨rfl, rfl⟩ := hpiece
      exact .inl ⟨target, p, (reach_iff_next hlt).1 hcut.target, hcut.lt.2, hp, rfl⟩
    | none =>
      rw [hp] at hpiece
      obtain ⟨⟨-, rfl⟩, rfl, rfl⟩ := hpiece
      exact .inr (by simp [hp])

omit [LinearOrder S] [Add S] in
theorem mem_cuts (hfuel : word.length ≤ start + fuel) (hstart : ReflTransGen (Next word) 0 start) :
    e ∈ t.cuts word fuel start ↔ ReflTransGen (Next word) start e.source ∧ t.Cut word e := by
  induction fuel generalizing start with
  | zero =>
    refine ⟨fun h => absurd h List.not_mem_nil, ?_⟩
    rintro ⟨hreach, hcut⟩
    have := le_of_reach hreach
    have := hcut.lt
    omega
  | succ fuel ih =>
    rw [cuts]
    by_cases hlt : start < word.length
    · have hnext := next_stepAt hlt
      have hstep := hnext.lt.1
      rw [if_pos hlt, List.mem_append, mem_cutsAt hstart hlt, ih (by omega) (hstart.tail hnext)]
      constructor
      · rintro (⟨rfl, hcut⟩ | ⟨hreach, hcut⟩)
        · exact ⟨.refl, hcut⟩
        · exact ⟨hreach.head hnext, hcut⟩
      · rintro ⟨hreach, hcut⟩
        rcases hreach.cases_head with heq | ⟨k, ⟨-, rfl⟩, hreach⟩
        · exact .inl ⟨heq.symm, hcut⟩
        · exact .inr ⟨hreach, hcut⟩
    · rw [if_neg hlt]
      refine ⟨fun h => absurd h List.not_mem_nil, ?_⟩
      rintro ⟨hreach, hcut⟩
      have := le_of_reach hreach
      have := hcut.lt
      omega

omit [LinearOrder S] [Add S] in
theorem sorted_cuts (hfuel : word.length ≤ start + fuel)
    (hstart : ReflTransGen (Next word) 0 start) :
    (t.cuts word fuel start).Pairwise fun e e' => e.source ≤ e'.source := by
  induction fuel generalizing start with
  | zero => exact .nil
  | succ fuel ih =>
    rw [cuts]
    by_cases hlt : start < word.length
    · have hnext := next_stepAt hlt
      have hstep := hnext.lt.1
      rw [if_pos hlt, List.pairwise_append]
      refine ⟨List.pairwise_of_forall_mem_list fun e he e' he' => ?_,
        ih (by omega) (hstart.tail hnext), fun e he e' he' => ?_⟩
      · rw [((mem_cutsAt hstart hlt).1 he).1, ((mem_cutsAt hstart hlt).1 he').1]
      · rw [((mem_cutsAt hstart hlt).1 he).1]
        have := le_of_reach ((mem_cuts (by omega) (hstart.tail hnext)).1 he').1
        omega
    · rw [if_neg hlt]
      exact .nil

omit [LinearOrder S] [Add S] in
/-- A single character is found if it is a piece. -/
theorem any_spans (hlt : start < word.length) :
    ((t.spans word start word.length (start + stepAt word start)).any fun e =>
      e.target == start + stepAt word start) =
      (t.pieces (slice word start (start + stepAt word start))).isSome := by
  have hstep := (next_stepAt hlt).lt
  rw [Bool.eq_iff_iff, List.any_eq_true, Option.isSome_iff_exists]
  constructor
  · rintro ⟨e, he, heq⟩
    obtain ⟨i, p, -, -, hp, rfl⟩ := (mem_spans (by omega) hstep.1.le).1 he
    obtain rfl := eq_of_beq heq
    exact ⟨p, hp⟩
  · rintro ⟨p, hp⟩
    exact ⟨_, (mem_spans (by omega) hstep.1.le).2 ⟨_, p, .refl, hstep.2, hp, rfl⟩,
      beq_self_eq_true _⟩

theorem sweep_eq (hstart : ReflTransGen (Next word) 0 start) :
    t.sweep word fuel start best = (t.cuts word fuel start).foldl relax best := by
  induction fuel generalizing start best with
  | zero => rfl
  | succ fuel ih =>
    rw [sweep, cuts]
    by_cases hlt : start < word.length
    · rw [if_pos hlt, if_pos hlt, List.foldl_append, ih (hstart.tail (next_stepAt hlt))]
      congr 1
      by_cases hsome : (best start).isSome
      · rw [if_pos hsome, scan_eq, any_spans hlt, cutsAt, List.foldl_append]
        dsimp only
        rw [Bool.false_or]
        split_ifs <;> rfl
      · rw [if_neg hsome, Trellis.foldl_relax_none fun e he => ?_]
        rw [((mem_cutsAt hstart hlt).1 he).1]
        exact Option.not_isSome_iff_eq_none.1 hsome
    · rw [if_neg hlt, if_neg hlt]
      rfl

end Loops

/-! ### The best cut -/

section Best

open Relation

variable [LinearOrder S] [Add S] [Zero S] {t : UnigramTokenizer S} {word : Bytes} {i j : ℕ}
  {path : List (Edge S (Option ℕ))}

/-- The tokens of one step of a cut. -/
def tokens (t : UnigramTokenizer S) (word : Bytes) (e : Edge S (Option ℕ)) : List ℤ :=
  match e.label with
  | some id => [(id : ℤ)]
  | none => (slice word e.source e.target).map t.byteId

/-- The table when the word was swept. -/
def bestOf (t : UnigramTokenizer S) (word : Bytes) : Table S :=
  t.sweep word word.length 0 (table ⟨0, 0, none⟩)

omit [LinearOrder S] [Add S] [Zero S] in
theorem emit_chain (h : Chain i path j) :
    t.emit word i (path.map fun e => (e.target, e.label)) = path.flatMap (t.tokens word) := by
  induction path generalizing i with
  | nil => rfl
  | cons e path ih =>
    obtain ⟨rfl, hchain⟩ := h
    rw [List.map_cons, List.flatMap_cons, ← ih hchain, tokens]
    cases e.label <;> rfl

omit [LinearOrder S] [Add S] [Zero S] in
theorem mem_cuts_word {e : Edge S (Option ℕ)} :
    e ∈ t.cuts word word.length 0 ↔ t.Cut word e := by
  rw [mem_cuts (by omega) .refl]
  exact ⟨And.right, fun hcut => ⟨hcut.source, hcut⟩⟩

theorem bestOf_settled :
    Trellis.Settled (t.cuts word word.length 0) ⟨0, 0, none⟩ (t.bestOf word) := by
  rw [bestOf, sweep_eq .refl]
  exact Trellis.settled_foldl (sorted_cuts (by omega) .refl) fun e he => (mem_cuts_word.1 he).lt.1

omit [LinearOrder S] [Add S] [Zero S] in
theorem exists_cut (hreach : ReflTransGen (Next word) 0 i) (hnext : Next word i j) :
    ∃ e, t.Cut word e ∧ e.source = i ∧ e.target = j := by
  cases hp : t.pieces (slice word i j) with
  | some p => exact ⟨⟨i, j, p.score, some p.id⟩, ⟨hreach, .single hnext, by simp [hp]⟩, rfl, rfl⟩
  | none =>
    exact ⟨⟨i, j, t.unknownScore, none⟩, ⟨hreach, .single hnext, by simp [hp, hnext]⟩, rfl, rfl⟩

theorem bestOf_reach (hreach : ReflTransGen (Next word) 0 i) : ∃ n, t.bestOf word i = some n := by
  induction hreach with
  | refl => exact ⟨_, bestOf_settled.start⟩
  | tail hreach hnext ih =>
    obtain ⟨m, hm⟩ := ih
    obtain ⟨e, hcut, rfl, rfl⟩ := exists_cut (t := t) hreach hnext
    obtain ⟨n, hn, -⟩ := bestOf_settled.beaten e (mem_cuts_word.2 hcut) m hm
    exact ⟨n, hn⟩

theorem reach_end (hi : i ≤ word.length) : ReflTransGen (Next word) i word.length := by
  induction hrest : word.length - i using Nat.strongRecOn generalizing i with
  | ind rest ih =>
    rcases hi.eq_or_lt with rfl | hlt
    · exact .refl
    · have hnext := next_stepAt hlt
      have hstep := hnext.lt
      exact (ih _ (by omega) hstep.2 rfl).head hnext

variable (t word) in
/-- The tokens of a word come from a cut whose score is the one of the table. -/
theorem encodeWord_path : ∃ n path, t.bestOf word word.length = some n ∧
    (∀ e ∈ path, t.Cut word e) ∧ Chain 0 path word.length ∧ total 0 path = n.score ∧
    t.encodeWord word = path.flatMap (t.tokens word) := by
  obtain ⟨n, hn⟩ := bestOf_reach (t := t) (reach_end (Nat.zero_le word.length))
  obtain ⟨path, hpath, hchain, htotal, htrace⟩ := Trellis.trace_spec bestOf_settled
    (fun e he => (mem_cuts_word.1 he).lt.1) le_rfl hn
  refine ⟨n, path, hn, fun e he => mem_cuts_word.1 (hpath e he), hchain, htotal, ?_⟩
  rw [← emit_chain hchain, ← htrace]
  rfl

/-- A word is cut so that no other cut has a better score. -/
theorem encodeWord_best [AddRightMono S] (t : UnigramTokenizer S) (word : Bytes) :
    ∃ path, (∀ e ∈ path, t.Cut word e) ∧ Chain 0 path word.length ∧
      t.encodeWord word = path.flatMap (t.tokens word) ∧
      ∀ path', (∀ e ∈ path', t.Cut word e) → Chain 0 path' word.length →
        total 0 path' ≤ total 0 path := by
  obtain ⟨n, path, hn, hpath, hchain, htotal, htokens⟩ := encodeWord_path t word
  refine ⟨path, hpath, hchain, htokens, fun path' hpath' hchain' => ?_⟩
  obtain ⟨n', hn', hle⟩ := Trellis.le_of_chain bestOf_settled
    (fun e he => mem_cuts_word.2 (hpath' e he)) hchain' bestOf_settled.start
  obtain rfl := Option.some.inj (hn'.symm.trans hn)
  exact hle.trans htotal.ge

/-- The pieces of "▁ab": the longest one is not the first of the best cut. -/
def small : Document ℤ where
  vocab := [([0x3C, 0x30, 0x78, 0x45, 0x32, 0x3E], 0), ([0x3C, 0x30, 0x78, 0x39, 0x36, 0x3E], 0),
    ([0x3C, 0x30, 0x78, 0x38, 0x31, 0x3E], 0), ([0x3C, 0x30, 0x78, 0x36, 0x31, 0x3E], 0),
    ([0x3C, 0x30, 0x78, 0x36, 0x32, 0x3E], 0), ([0xE2, 0x96, 0x81], -2),
    ([0xE2, 0x96, 0x81, 0x61], -1), ([0x61, 0x62], -1), ([0x62], -5)]
  unkId := 9
  special := []

theorem encodeWord_best_ab :
    (load 0 (-10) small).encodeWord [0xE2, 0x96, 0x81, 0x61, 0x62] = [5, 7] ∧
    ∃ path, (∀ e ∈ path, (load 0 (-10) small).Cut [0xE2, 0x96, 0x81, 0x61, 0x62] e) ∧
      Chain 0 path 5 ∧ (load 0 (-10) small).encodeWord [0xE2, 0x96, 0x81, 0x61, 0x62] =
        path.flatMap ((load 0 (-10) small).tokens [0xE2, 0x96, 0x81, 0x61, 0x62]) ∧
      ∀ path', (∀ e ∈ path', (load 0 (-10) small).Cut [0xE2, 0x96, 0x81, 0x61, 0x62] e) →
        Chain 0 path' 5 → total 0 path' ≤ total 0 path :=
  ⟨by decide +kernel, encodeWord_best _ _⟩

end Best

/-! ### What the tokens spell -/

/-- The text of a token. -/
def textOf (vocab : List (Bytes × S)) : ℤ → Bytes
  | .ofNat id =>
    match vocab[id]? with
    | some (piece, _) => (byteToken piece).elim piece fun byte => [UInt8.ofNat byte]
    | none => []
  | .negSucc _ => []

/-- A tokenizer that numbers the vocabulary. -/
structure Loaded (vocab : List (Bytes × S)) (t : UnigramTokenizer S) : Prop where
  pieces : ∀ text p, t.pieces text = some p →
    byteToken text = none ∧ vocab[p.id]? = some (text, p.score)
  bytes : ∀ byte id, t.byteIds byte = some id →
    ∃ e, vocab[id]? = some e ∧ byteToken e.1 = some byte
  complete : ∀ e ∈ vocab, ∀ byte, byteToken e.1 = some byte → (t.byteIds byte).isSome

section Spell

variable {vocab : List (Bytes × S)} {special : List Bytes} {t : UnigramTokenizer S}
  {word view text : Bytes} {byte : UInt8} {p : Piece S} {i j fuel start : ℕ}
  {path : List (Edge S (Option ℕ))} {e : Edge S (Option ℕ)}

theorem getElem?_kept {entry entry' : Bytes × S} {id : ℕ} (he : vocab[id]? = some entry) :
    (vocab ++ [entry'])[id]? = some entry := by
  rw [List.getElem?_append_left (List.getElem?_eq_some_iff.1 he).1, he]

theorem Loaded.add_byte {entry : Bytes × S} {b : ℕ} (h : Loaded vocab t)
    (hbyte : byteToken entry.1 = some b) : Loaded (vocab ++ [entry])
      { t with byteIds := Function.update t.byteIds b (some vocab.length) } := by
  refine ⟨fun text p hp => (h.pieces text p hp).imp_right getElem?_kept, fun byte id hid => ?_,
    fun e he byte hbyte' => ?_⟩
  · dsimp only at hid
    by_cases hsame : byte = b
    · subst hsame
      rw [Function.update_self] at hid
      cases hid
      exact ⟨entry, by simp, hbyte⟩
    · rw [Function.update_of_ne hsame] at hid
      obtain ⟨e, he, hbyte'⟩ := h.bytes byte id hid
      exact ⟨e, getElem?_kept he, hbyte'⟩
  · by_cases hsame : byte = b
    · subst hsame
      simp
    · rcases List.mem_append.1 he with he | he
      · simpa [Function.update_of_ne hsame] using h.complete e he byte hbyte'
      · obtain rfl := List.mem_singleton.1 he
        exact absurd (Option.some.inj (hbyte'.symm.trans hbyte)) hsame

/-- The entry is at most a piece. -/
theorem Loaded.add_piece {t' : UnigramTokenizer S} {entry : Bytes × S} (h : Loaded vocab t)
    (hbyte : byteToken entry.1 = none) (hids : t'.byteIds = t.byteIds)
    (hpieces : ∀ text p, t'.pieces text = some p →
      t.pieces text = some p ∨ text = entry.1 ∧ p = ⟨vocab.length, entry.2⟩) :
    Loaded (vocab ++ [entry]) t' := by
  refine ⟨fun text p hp => ?_, fun byte id hid => ?_, fun e he byte hbyte' => ?_⟩
  · rcases hpieces text p hp with hp | ⟨rfl, rfl⟩
    · exact (h.pieces text p hp).imp_right getElem?_kept
    · exact ⟨hbyte, by simp⟩
  · obtain ⟨e, he, hbyte'⟩ := h.bytes byte id (hids ▸ hid)
    exact ⟨e, getElem?_kept he, hbyte'⟩
  · rw [hids]
    rcases List.mem_append.1 he with he | he
    · exact h.complete e he byte hbyte'
    · obtain rfl := List.mem_singleton.1 he
      rw [hbyte] at hbyte'
      cases hbyte'

theorem Loaded.add (h : Loaded vocab t) (entry : Bytes × S) :
    Loaded (vocab ++ [entry]) (t.add special (entry, vocab.length)) := by
  rw [UnigramTokenizer.add]
  dsimp only
  cases hbyte : byteToken entry.1 with
  | some b => exact h.add_byte hbyte
  | none =>
    dsimp only
    split_ifs
    · exact h.add_piece hbyte rfl fun text p hp => emplace_some hp
    · exact h.add_piece hbyte rfl fun text p hp => .inl hp

theorem Loaded.foldl (h : Loaded [] t) :
    Loaded vocab (vocab.zipIdx.foldl (UnigramTokenizer.add special) t) := by
  induction vocab using List.reverseRecOn with
  | nil => exact h
  | append_singleton vocab entry ih =>
    rw [List.zipIdx_append, List.foldl_append]
    simpa using ih.add entry

theorem loaded_load [LinearOrder S] [Add S] (limit penalty : S) (json : Document S) :
    Loaded json.vocab (load limit penalty json) := by
  refine Loaded.foldl ⟨fun text p hp => ?_, fun byte id hid => ?_, fun e he => ?_⟩
  · cases hp
  · cases hid
  · exact absurd he List.not_mem_nil

theorem textOf_piece (h : Loaded vocab t) (hp : t.pieces text = some p) :
    textOf vocab p.id = text := by
  obtain ⟨hbyte, hid⟩ := h.pieces text p hp
  simp [textOf, hid, hbyte]

theorem textOf_byteId (h : Loaded vocab t) (hbyte : (t.byteIds byte.toNat).isSome) :
    textOf vocab (t.byteId byte) = [byte] := by
  obtain ⟨id, hid⟩ := Option.isSome_iff_exists.1 hbyte
  obtain ⟨⟨piece, score⟩, he, htoken⟩ := h.bytes _ id hid
  simp [byteId, textOf, hid, he, htoken]

theorem slice_all : slice word 0 word.length = word := by simp [slice]

theorem mem_of_slice (h : byte ∈ slice word i j) : byte ∈ word :=
  List.mem_of_mem_drop (List.mem_of_mem_take h)

theorem cut_text (h : Loaded vocab t) (hbytes : ∀ byte ∈ word, (t.byteIds byte.toNat).isSome)
    (hcut : t.Cut word e) :
    (t.tokens word e).flatMap (textOf vocab) = slice word e.source e.target := by
  have hpiece := hcut.piece
  unfold tokens
  cases hp : t.pieces (slice word e.source e.target) with
  | some p =>
    rw [hp] at hpiece
    rw [hpiece.2]
    simp [textOf_piece h hp]
  | none =>
    rw [hp] at hpiece
    rw [hpiece.2.2]
    dsimp only
    rw [List.flatMap_map, List.flatMap_congr fun byte hbyte =>
      textOf_byteId h (hbytes byte (mem_of_slice hbyte))]
    exact List.flatMap_singleton' _

theorem chain_text (hcuts : ∀ e ∈ path, t.Cut word e) (hchain : Chain i path j) :
    i ≤ j ∧ (path.flatMap fun e => slice word e.source e.target) = slice word i j := by
  induction path generalizing i with
  | nil =>
    obtain rfl := hchain
    simp [slice]
  | cons e path ih =>
    obtain ⟨rfl, hchain⟩ := hchain
    have hlt := (hcuts e (List.mem_cons_self ..)).lt.1
    obtain ⟨hle, htext⟩ := ih (fun e' he' => hcuts e' (List.mem_cons_of_mem _ he')) hchain
    rw [List.flatMap_cons, htext, slice_append hlt.le hle]
    exact ⟨hlt.le.trans hle, rfl⟩

theorem encodeWord_text [LinearOrder S] [Add S] [Zero S] (h : Loaded vocab t)
    (hbytes : ∀ byte ∈ word, (t.byteIds byte.toNat).isSome) :
    (t.encodeWord word).flatMap (textOf vocab) = word := by
  obtain ⟨-, path, -, hcuts, hchain, -, htokens⟩ := encodeWord_path t word
  rw [htokens, List.flatMap_assoc, List.flatMap_congr fun e he => cut_text h hbytes (hcuts e he),
    (chain_text hcuts hchain).2, slice_all]

theorem find_ge (h : find view start = some i) : start ≤ i ∧ i ≤ view.length := by
  have hin := List.mem_of_find?_eq_some h
  have hi := List.find?_some h
  simp only [Bool.and_eq_true, decide_eq_true_eq] at hi
  exact ⟨hi.1, by simpa [Nat.lt_succ_iff] using hin⟩

theorem words_flatten (hfuel : view.length ≤ start + fuel) :
    (words view fuel start).flatten = view.drop start := by
  induction fuel generalizing start with
  | zero => rw [words, List.drop_eq_nil_of_le (by omega), List.flatten_nil]
  | succ fuel ih =>
    rw [words]
    by_cases hlt : start < view.length
    · rw [if_pos hlt]
      dsimp only
      have hnext : start < (find view (start + kMetaspace.length)).getD view.length := by
        cases hfind : find view (start + kMetaspace.length) with
        | none => exact hlt
        | some i =>
          have := (find_ge hfind).1
          have : 0 < kMetaspace.length := by decide
          rw [Option.getD_some]
          omega
      generalize (find view (start + kMetaspace.length)).getD view.length = next at hnext
      rw [List.flatten_cons, ih (by omega), slice]
      conv_rhs => rw [← List.take_append_drop (next - start) (view.drop start), List.drop_drop,
        Nat.add_sub_cancel' hnext.le]
    · rw [if_neg hlt, List.drop_eq_nil_of_le (by omega), List.flatten_nil]

/-- If each byte of a text has its token, the tokens spell the text. -/
theorem encode_text [LinearOrder S] [Add S] [Zero S] (limit penalty : S) (json : Document S)
    (text : Bytes)
    (h : ∀ byte ∈ normalize text, ∃ e ∈ json.vocab, byteToken e.1 = some byte.toNat) :
    ((load limit penalty json).encode text).flatMap (textOf json.vocab) =
      if text = [] then [] else normalize text := by
  have hloaded := loaded_load limit penalty json
  rw [encode]
  split_ifs
  · rfl
  · have hflatten := words_flatten (Nat.le_add_left (normalize text).length 0)
    rw [List.flatMap_assoc, List.flatMap_congr fun word hword => encodeWord_text hloaded ?_,
      List.flatMap_id', hflatten, List.drop_zero]
    intro byte hbyte
    have hmem : byte ∈ normalize text := by
      rw [← List.drop_zero (l := normalize text), ← hflatten]
      exact List.mem_flatten.2 ⟨word, hword, hbyte⟩
    obtain ⟨e, he, htoken⟩ := h byte hmem
    exact hloaded.complete e he _ htoken

theorem encode_text_ab_a : (load 0 (-10) small).encode [0x61, 0x62, 0x20, 0x61] = [5, 7, 6] ∧
    ((load 0 (-10) small).encode [0x61, 0x62, 0x20, 0x61]).flatMap (textOf small.vocab) =
      normalize [0x61, 0x62, 0x20, 0x61] :=
  ⟨by decide +kernel, encode_text 0 (-10) small _ (by decide +kernel)⟩

end Spell

end UnigramTokenizer

end Synthesis

end ArgusBackend
