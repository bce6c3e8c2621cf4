import ArgusBackend.Library.Sha2
import Mathlib.Data.List.GetD

/-!
# `Sha256`

A hash that takes its message in parts: the bytes after the last whole block wait in a buffer, and
the padding is fed like the message.

* `Sha256.update`, `Sha256.digest` : the class;
* `Fed` : what has been fed, and `Fed.update` and `Fed.digest` : what becomes of it.
-/

namespace ArgusBackend

namespace Text

open Sha2 (Words)

theorem empty_lt : 0 < 64 := by decide

/-- The object; `buffered_` is below the size of a block between two steps of `update`. -/
structure Sha256 where
  state : Words := Sha2.H0
  buffer : Bytes := List.replicate 64 0
  total : UInt64 := 0
  buffered : ℕ := 0
  buffered_lt : buffered < 64 := by first | exact empty_lt | decide

namespace Sha256

/-- The bytes of a block. -/
def kBlockSize : ℕ := 64

/-- A word is rotated to the right. -/
def rotr (value bits : UInt32) : UInt32 := (value >>> bits) ||| (value <<< (32 - bits))

/-- The constants of the rounds. -/
def k : List UInt32 :=
  [0x428a2f98, 0x71374491, 0xb5c0fbcf, 0xe9b5dba5, 0x3956c25b, 0x59f111f1, 0x923f82a4, 0xab1c5ed5,
   0xd807aa98, 0x12835b01, 0x243185be, 0x550c7dc3, 0x72be5d74, 0x80deb1fe, 0x9bdc06a7, 0xc19bf174,
   0xe49b69c1, 0xefbe4786, 0x0fc19dc6, 0x240ca1cc, 0x2de92c6f, 0x4a7484aa, 0x5cb0a9dc, 0x76f988da,
   0x983e5152, 0xa831c66d, 0xb00327c8, 0xbf597fc7, 0xc6e00bf3, 0xd5a79147, 0x06ca6351, 0x14292967,
   0x27b70a85, 0x2e1b2138, 0x4d2c6dfc, 0x53380d13, 0x650a7354, 0x766a0abb, 0x81c2c92e, 0x92722c85,
   0xa2bfe8a1, 0xa81a664b, 0xc24b8b70, 0xc76c51a3, 0xd192e819, 0xd6990624, 0xf40e3585, 0x106aa070,
   0x19a4c116, 0x1e376c08, 0x2748774c, 0x34b0bcb5, 0x391c0cb3, 0x4ed8aa4a, 0x5b9cca4f, 0x682e6ff3,
   0x748f82ee, 0x78a5636f, 0x84c87814, 0x8cc70208, 0x90befffa, 0xa4506ceb, 0xbef9a3f7, 0xc67178f2]

/-- `w[0..15]`, from the bytes of the block. -/
def firstWords (block : Bytes) : List UInt32 :=
  (List.range 16).map fun index =>
    ((block.getD (index * 4) 0).toUInt32 <<< 24) |||
    ((block.getD (index * 4 + 1) 0).toUInt32 <<< 16) |||
    ((block.getD (index * 4 + 2) 0).toUInt32 <<< 8) |||
    (block.getD (index * 4 + 3) 0).toUInt32

/-- `w[index]` of the second loop. -/
def nextWord (w : List UInt32) (index : ℕ) : UInt32 :=
  let s0 := rotr (w.getD (index - 15) 0) 7 ^^^ rotr (w.getD (index - 15) 0) 18 ^^^
    (w.getD (index - 15) 0 >>> 3)
  let s1 := rotr (w.getD (index - 2) 0) 17 ^^^ rotr (w.getD (index - 2) 0) 19 ^^^
    (w.getD (index - 2) 0 >>> 10)
  w.getD (index - 16) 0 + s0 + w.getD (index - 7) 0 + s1

/-- The array `w`, filled up to `16 + count`. -/
def schedule (block : Bytes) (count : ℕ) : List UInt32 :=
  (List.range count).foldl (fun w i => w ++ [nextWord w (16 + i)]) (firstWords block)

/-- A round of the loop. -/
def roundOf (k w : UInt32) (x : Words) : Words :=
  let s1 := rotr x.e 6 ^^^ rotr x.e 11 ^^^ rotr x.e 25
  let ch := (x.e &&& x.f) ^^^ (~~~x.e &&& x.g)
  let temp1 := x.h + s1 + ch + k + w
  let s0 := rotr x.a 2 ^^^ rotr x.a 13 ^^^ rotr x.a 22
  let maj := (x.a &&& x.b) ^^^ (x.a &&& x.c) ^^^ (x.b &&& x.c)
  let temp2 := s0 + maj
  { h := x.g, g := x.f, f := x.e, e := x.d + temp1, d := x.c, c := x.b, b := x.a, a := temp1 + temp2 }

/-- A block is taken into the state. -/
def transform (state : Words) (block : Bytes) : Words :=
  let w := schedule block 48
  let x := (List.range 64).foldl (fun x index => roundOf (k.getD index 0) (w.getD index 0) x) state
  { a := state.a + x.a, b := state.b + x.b, c := state.c + x.c, d := state.d + x.d,
    e := state.e + x.e, f := state.f + x.f, g := state.g + x.g, h := state.h + x.h }

/-- The bytes that a round of `update` takes. -/
def takes (s : Sha256) (bytes : Bytes) : ℕ := min bytes.length (kBlockSize - s.buffered)

theorem takes_pos {s : Sha256} {bytes : Bytes} (h : bytes ≠ []) : 0 < s.takes bytes := by
  have hlt := s.buffered_lt
  have hpos := List.length_pos_iff.2 h
  unfold takes kBlockSize
  omega

theorem takes_lt {s : Sha256} {bytes : Bytes} (h : s.buffered + s.takes bytes ≠ kBlockSize) :
    s.buffered + s.takes bytes < 64 := by
  have hlt := s.buffered_lt
  unfold takes kBlockSize at *
  omega

/-- One round of the loop of `update`. -/
def absorb (s : Sha256) (bytes : Bytes) : Sha256 :=
  let take := s.takes bytes
  let buffer := s.buffer.take s.buffered ++ bytes.take take ++ s.buffer.drop (s.buffered + take)
  if h : s.buffered + s.takes bytes = kBlockSize then
    { s with state := transform s.state buffer, buffer, buffered := 0, buffered_lt := by decide }
  else { s with buffer, buffered := s.buffered + s.takes bytes, buffered_lt := takes_lt h }

/-- The bytes are taken block by block. -/
def updateLoop (s : Sha256) (bytes : Bytes) : Sha256 :=
  if _h : bytes = [] then s else updateLoop (s.absorb bytes) (bytes.drop (s.takes bytes))
termination_by bytes.length
decreasing_by
  have hpos := takes_pos (s := s) _h
  have hlen := List.length_pos_iff.2 _h
  rw [List.length_drop]
  omega

/-- `update` -/
def update (s : Sha256) (data : Bytes) : Sha256 :=
  { s with total := s.total + UInt64.ofNat data.length }.updateLoop data

theorem buffered_update (s : Sha256) (byte : UInt8) :
    (s.update [byte]).buffered = (s.buffered + 1) % 64 := by
  have hlt := s.buffered_lt
  have htakes (total : UInt64) : { s with total }.takes [byte] = 1 := by
    unfold takes kBlockSize
    simp only [List.length_singleton]
    omega
  rw [update, updateLoop, dif_neg (by simp), htakes, updateLoop, dif_pos (by simp), absorb]
  simp only [htakes]
  split_ifs with h
  · simp only [kBlockSize] at h
    simp only
    omega
  · simp only [kBlockSize] at h
    simp only
    omega

/-- The zeros, one by one. -/
def padLoop (s : Sha256) : Sha256 :=
  if s.buffered ≠ kBlockSize - 8 then padLoop (s.update [0x00]) else s
termination_by (120 - s.buffered) % 64
decreasing_by
  have hlt := s.buffered_lt
  rw [buffered_update]
  simp only [kBlockSize] at *
  omega

/-- The length in bits, the high byte first. -/
def lengthBytes (bitLength : UInt64) : Bytes :=
  (List.range 8).map fun index => (bitLength >>> UInt64.ofNat (56 - 8 * index)).toUInt8

/-- The bytes of the digest. -/
def outBytes (state : Words) : Bytes :=
  [state.a, state.b, state.c, state.d, state.e, state.f, state.g, state.h].flatMap fun word : UInt32 =>
    [(word >>> 24).toUInt8, (word >>> 16).toUInt8, (word >>> 8).toUInt8, word.toUInt8]

/-- The digest, and the object after it. -/
def digest (s : Sha256) : Bytes × Sha256 :=
  let bitLength := s.total * 8
  let s := (s.update [0x80]).padLoop
  let s := s.update (lengthBytes bitLength)
  (outBytes s.state, s)

/-! ### The standard's words -/

theorem rotr_eq (x : UInt32) {n : ℕ} (hpos : 0 < n) (hn : n < 32) :
    rotr x (UInt32.ofNat n) = Sha2.rotr n x := by
  apply UInt32.toBitVec_inj.1
  apply BitVec.eq_of_toNat_eq
  have hsub : (4294967296 - n % 4294967296) % 32 = 32 - n := by omega
  simp [rotr, Sha2.rotr, BitVec.rotateRight, BitVec.rotateRightAux, hsub, Nat.mod_eq_of_lt hn]

theorem shr_eq (x : UInt32) {n : ℕ} (hn : n < 32) : x >>> UInt32.ofNat n = Sha2.shr n x := by
  apply UInt32.toBitVec_inj.1
  apply BitVec.eq_of_toNat_eq
  simp [Sha2.shr, Nat.mod_eq_of_lt hn]

theorem roundOf_eq (k w : UInt32) (x : Words) : roundOf k w x = Sha2.round k w x := by
  have h2 (x : UInt32) : rotr x 2 = Sha2.rotr 2 x := rotr_eq x (by decide) (by decide)
  have h6 (x : UInt32) : rotr x 6 = Sha2.rotr 6 x := rotr_eq x (by decide) (by decide)
  have h11 (x : UInt32) : rotr x 11 = Sha2.rotr 11 x := rotr_eq x (by decide) (by decide)
  have h13 (x : UInt32) : rotr x 13 = Sha2.rotr 13 x := rotr_eq x (by decide) (by decide)
  have h22 (x : UInt32) : rotr x 22 = Sha2.rotr 22 x := rotr_eq x (by decide) (by decide)
  have h25 (x : UInt32) : rotr x 25 = Sha2.rotr 25 x := rotr_eq x (by decide) (by decide)
  simp only [roundOf, h2, h6, h11, h13, h22, h25]
  rfl

theorem nextWord_eq (w : List UInt32) (index : ℕ) : nextWord w index =
    w.getD (index - 16) 0 + Sha2.smallSigma0 (w.getD (index - 15) 0) + w.getD (index - 7) 0 +
      Sha2.smallSigma1 (w.getD (index - 2) 0) := by
  have h7 (x : UInt32) : rotr x 7 = Sha2.rotr 7 x := rotr_eq x (by decide) (by decide)
  have h18 (x : UInt32) : rotr x 18 = Sha2.rotr 18 x := rotr_eq x (by decide) (by decide)
  have h17 (x : UInt32) : rotr x 17 = Sha2.rotr 17 x := rotr_eq x (by decide) (by decide)
  have h19 (x : UInt32) : rotr x 19 = Sha2.rotr 19 x := rotr_eq x (by decide) (by decide)
  have h3 (x : UInt32) : x >>> 3 = Sha2.shr 3 x := shr_eq x (by decide)
  have h10 (x : UInt32) : x >>> 10 = Sha2.shr 10 x := shr_eq x (by decide)
  simp only [nextWord, h7, h18, h17, h19, h3, h10]
  rfl

theorem wordOf_eq (a b c d : UInt8) :
    a.toUInt32 <<< 24 ||| b.toUInt32 <<< 16 ||| c.toUInt32 <<< 8 ||| d.toUInt32 =
      UInt32.ofNat (Sha2.beNat [a, b, c, d]) := by
  have ha := a.toNat_lt
  have hb := b.toNat_lt
  have hc := c.toNat_lt
  have hd := d.toNat_lt
  have hor {x y : ℕ} (hy : y < 256) : x <<< 8 ||| y = 256 * x + y := by
    rw [Nat.or_comm, or_shiftLeft_eq_add hy]
    omega
  apply UInt32.toNat_inj.1
  simp only [UInt32.toNat_or, UInt32.toNat_shiftLeft, UInt8.toNat_toUInt32, UInt32.toNat_ofNat',
    UInt32.reduceToNat, Nat.reduceMod]
  rw [Nat.mod_eq_of_lt, Nat.mod_eq_of_lt, Nat.mod_eq_of_lt]
  · have hfirst : a.toNat <<< 24 ||| b.toNat <<< 16 = (256 * a.toNat + b.toNat) <<< 16 := by
      rw [← hor hb, Nat.shiftLeft_or_distrib, ← Nat.shiftLeft_add]
    have hsecond : (256 * a.toNat + b.toNat) <<< 16 ||| c.toNat <<< 8 =
        (256 * (256 * a.toNat + b.toNat) + c.toNat) <<< 8 := by
      rw [← hor hc, Nat.shiftLeft_or_distrib, ← Nat.shiftLeft_add]
    rw [hfirst, hsecond, hor hd]
    simp only [Sha2.beNat, List.reverse_cons, List.reverse_nil, List.nil_append, List.cons_append,
      leNat]
    omega
  all_goals rw [Nat.shiftLeft_eq]; omega

theorem firstWords_eq {block : Bytes} (hblock : block.length = 64) :
    firstWords block = (List.range 16).map (Sha2.word block) := by
  refine List.map_congr_left fun t ht => ?_
  rw [List.mem_range] at ht
  have htake : (block.drop (4 * t)).take 4 = [block.getD (t * 4) 0, block.getD (t * 4 + 1) 0,
      block.getD (t * 4 + 2) 0, block.getD (t * 4 + 3) 0] := by
    rw [Nat.mul_comm t 4]
    generalize hi : 4 * t = i
    rw [List.drop_eq_getElem_cons (by omega), List.drop_eq_getElem_cons (by omega),
      List.drop_eq_getElem_cons (by omega), List.drop_eq_getElem_cons (by omega)]
    simp only [List.take_succ_cons, List.take_zero]
    rw [List.getD_eq_getElem _ _ (by omega), List.getD_eq_getElem _ _ (by omega),
      List.getD_eq_getElem _ _ (by omega), List.getD_eq_getElem _ _ (by omega)]
  rw [wordOf_eq, Sha2.word, htake]

/-- The array holds the words of the standard. -/
theorem schedule_eq {block : Bytes} (hblock : block.length = 64) (count : ℕ) :
    schedule block count = (List.range (16 + count)).map (Sha2.W block) := by
  induction count with
  | zero =>
    rw [schedule, List.range_zero, List.foldl_nil, firstWords_eq hblock]
    refine List.map_congr_left fun t ht => ?_
    rw [Sha2.W, if_pos (List.mem_range.1 ht)]
  | succ count ih =>
    have hget {t : ℕ} (ht : t < 16 + count) :
        ((List.range (16 + count)).map (Sha2.W block)).getD t 0 = Sha2.W block t := by
      simp [ht]
    rw [schedule, List.range_succ, List.foldl_append, ← schedule, ih, List.foldl_cons,
      List.foldl_nil, nextWord_eq, hget (by omega), hget (by omega), hget (by omega),
      hget (by omega), ← Nat.add_assoc, List.range_succ, List.map_append, List.map_singleton]
    congr 2
    conv_rhs => rw [Sha2.W, if_neg (by omega)]
    ac_rfl

theorem transform_eq (state : Words) {block : Bytes} (hblock : block.length = 64) :
    transform state block = Sha2.compress state block := by
  have hrounds : (List.range 64).foldl
      (fun x index => roundOf (k.getD index 0) ((schedule block 48).getD index 0) x) state =
      (List.range 64).foldl (fun x t => Sha2.round (Sha2.K.getD t 0) (Sha2.W block t) x) state := by
    refine List.foldl_ext _ _ _ fun x t ht => ?_
    rw [List.mem_range] at ht
    rw [roundOf_eq, schedule_eq hblock]
    congr 1
    simp [ht]
  simp only [transform, hrounds]
  rfl

theorem lengthBytes_eq (bitLength : UInt64) :
    lengthBytes bitLength = Sha2.beBytes 8 bitLength.toNat := by
  have hbyte {i : ℕ} (hi : i < 8) : (bitLength >>> UInt64.ofNat (56 - 8 * i)).toUInt8 =
      UInt8.ofNat (bitLength.toNat / 256 ^ (7 - i)) := by
    apply UInt8.toNat_inj.1
    have hpow : 256 ^ (7 - i) = 2 ^ (56 - 8 * i) := by
      rw [show 56 - 8 * i = 8 * (7 - i) by omega, Nat.pow_mul]
    simp [Nat.mod_eq_of_lt (show 56 - 8 * i < 64 by omega), Nat.shiftRight_eq_div_pow, hpow]
  have hmap : lengthBytes bitLength =
      (List.range 8).map fun i => UInt8.ofNat (bitLength.toNat / 256 ^ (7 - i)) :=
    List.map_congr_left fun i hi => hbyte (List.mem_range.1 hi)
  rw [hmap, Sha2.beBytes, leBytes_eq_map]
  rfl

theorem outBytes_eq (state : Words) : outBytes state = state.bytes := by
  have hbytes (word : UInt32) : [(word >>> 24).toUInt8, (word >>> 16).toUInt8,
      (word >>> 8).toUInt8, word.toUInt8] = Sha2.beBytes 4 word.toNat := by
    have hbyte {s : UInt32} {j : ℕ} (hs : s.toNat = 8 * j) (hj : j < 4) :
        (word >>> s).toUInt8 = UInt8.ofNat (word.toNat / 256 ^ j) := by
      apply UInt8.toNat_inj.1
      have hpow : 256 ^ j = 2 ^ (8 * j) := by rw [Nat.pow_mul]
      simp [hs, Nat.mod_eq_of_lt (show 8 * j < 32 by omega), Nat.shiftRight_eq_div_pow, hpow]
    have hlow : word.toUInt8 = UInt8.ofNat (word.toNat / 256 ^ 0) := by
      apply UInt8.toNat_inj.1
      simp
    rw [hbyte (j := 3) rfl (by decide), hbyte (j := 2) rfl (by decide),
      hbyte (j := 1) rfl (by decide), hlow, Sha2.beBytes, leBytes_eq_map]
    rfl
  simp only [outBytes, Words.bytes, hbytes]

/-! ### Feeding -/

section Feeding

variable {s : Sha256} {m bytes : Bytes}

/-- A message was fed: its blocks are hashed, and the buffer holds what is after them. -/
structure Fed (s : Sha256) (m : Bytes) : Prop where
  length : s.buffer.length = 64
  total : s.total = UInt64.ofNat m.length
  blocks : ∃ blocks, m = blocks ++ s.buffer.take s.buffered ∧ 64 ∣ blocks.length ∧
    s.state = Sha2.chain Sha2.H0 blocks

theorem fed_new : Fed {} [] where
  length := by simp
  total := rfl
  blocks := ⟨[], rfl, ⟨0, rfl⟩, (Sha2.chain_of_lt (by simp)).symm⟩

variable (bytes) in
/-- A round of the loop, but for `total_`. -/
theorem absorb_spec {blocks : Bytes} (hlength : s.buffer.length = 64) (hblocks : 64 ∣ blocks.length)
    (hstate : s.state = Sha2.chain Sha2.H0 blocks) :
    (s.absorb bytes).buffer.length = 64 ∧ (s.absorb bytes).total = s.total ∧
    ∃ blocks', blocks ++ s.buffer.take s.buffered ++ bytes.take (s.takes bytes) =
        blocks' ++ (s.absorb bytes).buffer.take (s.absorb bytes).buffered ∧
      64 ∣ blocks'.length ∧ (s.absorb bytes).state = Sha2.chain Sha2.H0 blocks' := by
  have hlt := s.buffered_lt
  have htakes : s.takes bytes ≤ bytes.length ∧ s.takes bytes ≤ 64 - s.buffered := by
    unfold takes kBlockSize
    omega
  have hfilled : (s.buffer.take s.buffered ++ bytes.take (s.takes bytes)).length =
      s.buffered + s.takes bytes := by
    rw [List.length_append, List.length_take, List.length_take]
    omega
  have hbuffer : (s.buffer.take s.buffered ++ bytes.take (s.takes bytes) ++
      s.buffer.drop (s.buffered + s.takes bytes)).length = 64 := by
    rw [List.length_append, hfilled, List.length_drop]
    omega
  unfold absorb
  split_ifs with hfull
  · -- the block is full
    rw [kBlockSize] at hfull
    have hdrop : s.buffer.drop (s.buffered + s.takes bytes) = [] :=
      List.drop_eq_nil_of_le (by omega)
    refine ⟨hbuffer, rfl, blocks ++ (s.buffer.take s.buffered ++ bytes.take (s.takes bytes)),
      by simp, ?_, ?_⟩
    · rw [List.length_append, hfilled]
      omega
    · have hlast := Sha2.chain_of_length (H := Sha2.chain Sha2.H0 blocks) (hfilled.trans hfull)
      simp only
      rw [transform_eq _ hbuffer, hstate, Sha2.chain_append hblocks, hlast, hdrop, List.append_nil]
  · refine ⟨hbuffer, rfl, blocks, ?_, hblocks, hstate⟩
    simp only
    rw [List.append_assoc, List.take_left' hfilled]

theorem updateLoop_spec (s : Sha256) (bytes : Bytes) {blocks : Bytes}
    (hlength : s.buffer.length = 64)
    (hblocks : 64 ∣ blocks.length) (hstate : s.state = Sha2.chain Sha2.H0 blocks) :
    (s.updateLoop bytes).buffer.length = 64 ∧ (s.updateLoop bytes).total = s.total ∧
    ∃ blocks', blocks ++ s.buffer.take s.buffered ++ bytes =
        blocks' ++ (s.updateLoop bytes).buffer.take (s.updateLoop bytes).buffered ∧
      64 ∣ blocks'.length ∧ (s.updateLoop bytes).state = Sha2.chain Sha2.H0 blocks' := by
  induction s, bytes using updateLoop.induct generalizing blocks with
  | case1 s =>
    rw [updateLoop, dif_pos rfl, List.append_nil]
    exact ⟨hlength, rfl, blocks, rfl, hblocks, hstate⟩
  | case2 s bytes hne ih =>
    obtain ⟨hlength', htotal', blocks', hsplit, hblocks', hstate'⟩ :=
      absorb_spec bytes hlength hblocks hstate
    obtain ⟨hlength'', htotal'', blocks'', hsplit', hrest⟩ := ih hlength' hblocks' hstate'
    rw [updateLoop, dif_neg hne]
    refine ⟨hlength'', htotal''.trans htotal', blocks'', ?_, hrest⟩
    rw [← hsplit', ← hsplit, List.append_assoc _ (bytes.take _), List.take_append_drop]

theorem Fed.update (h : Fed s m) (data : Bytes) : Fed (s.update data) (m ++ data) := by
  have htotal : s.total + UInt64.ofNat data.length = UInt64.ofNat (m ++ data).length := by
    rw [h.total, List.length_append, UInt64.ofNat_add]
  obtain ⟨blocks, hm, hblocks, hstate⟩ := h.blocks
  obtain ⟨hlength, htotal', hrest⟩ := updateLoop_spec
    { s with total := s.total + UInt64.ofNat data.length } data h.length hblocks hstate
  refine ⟨hlength, htotal'.trans htotal, ?_⟩
  rw [hm]
  exact hrest

theorem Fed.updates (h : Fed s m) (parts : List Bytes) :
    Fed (parts.foldl Sha256.update s) (m ++ parts.flatten) := by
  induction parts generalizing s m with
  | nil => simpa using h
  | cons data parts ih =>
    rw [List.foldl_cons, List.flatten_cons, ← List.append_assoc]
    exact ih (h.update data)

theorem Fed.buffered_eq (h : Fed s m) : s.buffered = m.length % 64 := by
  obtain ⟨blocks, rfl, hblocks, -⟩ := h.blocks
  have hlt := s.buffered_lt
  rw [List.length_append, List.length_take, h.length]
  omega

/-- The zeros end where the length fits into the block. -/
theorem Fed.padLoop (h : Fed s m) :
    Fed s.padLoop (m ++ List.replicate ((120 - s.buffered) % 64) 0) := by
  induction s using padLoop.induct generalizing m with
  | case1 s hne ih =>
    have hlt := s.buffered_lt
    have hnext := ih (h.update [0x00])
    rw [buffered_update, List.append_assoc, List.singleton_append] at hnext
    rw [kBlockSize] at hne
    rw [Sha256.padLoop, if_pos (by rwa [kBlockSize]),
      show (120 - s.buffered) % 64 = (120 - (s.buffered + 1) % 64) % 64 + 1 by omega,
      List.replicate_succ]
    exact hnext
  | case2 s heq =>
    rw [kBlockSize, not_not] at heq
    rw [Sha256.padLoop, if_neg (by rw [kBlockSize, not_not]; exact heq), heq]
    simpa using h

theorem lengthBytes_total (h : s.total = UInt64.ofNat m.length) :
    lengthBytes (s.total * 8) = Sha2.beBytes 8 (8 * m.length) := by
  have hmod : (s.total * 8).toNat = 8 * m.length % 256 ^ 8 := by
    rw [h, UInt64.toNat_mul, UInt64.toNat_ofNat']
    simp only [UInt64.reduceToNat]
    omega
  rw [lengthBytes_eq, hmod, Sha2.beBytes, Sha2.beBytes, leBytes_mod]

/-- The digest is that of what was fed. -/
theorem Fed.digest (h : Fed s m) : s.digest.1 = Sha2.sha256 m := by
  have hzeros : (120 - (s.update [0x80]).buffered) % 64 = Sha2.zeros m.length := by
    rw [buffered_update, h.buffered_eq, Sha2.zeros]
    omega
  have hpad := ((h.update [0x80]).padLoop).update (lengthBytes (s.total * 8))
  rw [hzeros, lengthBytes_total h.total, List.append_assoc m, List.singleton_append,
    ← Sha2.pad] at hpad
  have hbuffered := hpad.buffered_eq
  rw [Nat.mod_eq_zero_of_dvd (Sha2.pad_spec m)] at hbuffered
  obtain ⟨blocks, hblocks, -, hstate⟩ := hpad.blocks
  rw [hbuffered, List.take_zero, List.append_nil] at hblocks
  rw [Sha256.digest, lengthBytes_total h.total]
  simp only
  rw [outBytes_eq, hstate, Sha2.sha256, hblocks]

end Feeding

end Sha256

end Text

end ArgusBackend
