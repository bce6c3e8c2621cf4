import ArgusBackend.Library.LittleEndian

/-!
# SHA-256, HMAC and PBKDF2

The standard functions, by their recursions: a padded message is hashed block by block, and the
words of the message schedule are numbered from zero without end, of which a block uses 64.

* `Sha2.sha256` : the digest of FIPS 180-4; `pad_spec` says what is put after a message;
* `Sha2.hmac`, `Sha2.pbkdf2` : RFC 2104 and RFC 8018, over any hash function;
* `Sha2.chain_append` : a message that goes on is hashed on from where its blocks end.
-/

namespace ArgusBackend

namespace Sha2

/-! ### Words -/

/-- `ROTR` -/
def rotr (n : ℕ) (x : UInt32) : UInt32 := ⟨x.toBitVec.rotateRight n⟩

/-- `SHR` -/
def shr (n : ℕ) (x : UInt32) : UInt32 := ⟨x.toBitVec >>> n⟩

/-- The function Ch. -/
def Ch (x y z : UInt32) : UInt32 := (x &&& y) ^^^ (~~~x &&& z)

/-- The function Maj. -/
def Maj (x y z : UInt32) : UInt32 := (x &&& y) ^^^ (x &&& z) ^^^ (y &&& z)

/-- The function Σ0. -/
def bigSigma0 (x : UInt32) : UInt32 := rotr 2 x ^^^ rotr 13 x ^^^ rotr 22 x

/-- The function Σ1. -/
def bigSigma1 (x : UInt32) : UInt32 := rotr 6 x ^^^ rotr 11 x ^^^ rotr 25 x

/-- The function σ0. -/
def smallSigma0 (x : UInt32) : UInt32 := rotr 7 x ^^^ rotr 18 x ^^^ shr 3 x

/-- The function σ1. -/
def smallSigma1 (x : UInt32) : UInt32 := rotr 17 x ^^^ rotr 19 x ^^^ shr 10 x

/-- The first 32 bits of the fractional parts of the cube roots of the first 64 primes. -/
def K : List UInt32 :=
  [0x428a2f98, 0x71374491, 0xb5c0fbcf, 0xe9b5dba5, 0x3956c25b, 0x59f111f1, 0x923f82a4, 0xab1c5ed5,
   0xd807aa98, 0x12835b01, 0x243185be, 0x550c7dc3, 0x72be5d74, 0x80deb1fe, 0x9bdc06a7, 0xc19bf174,
   0xe49b69c1, 0xefbe4786, 0x0fc19dc6, 0x240ca1cc, 0x2de92c6f, 0x4a7484aa, 0x5cb0a9dc, 0x76f988da,
   0x983e5152, 0xa831c66d, 0xb00327c8, 0xbf597fc7, 0xc6e00bf3, 0xd5a79147, 0x06ca6351, 0x14292967,
   0x27b70a85, 0x2e1b2138, 0x4d2c6dfc, 0x53380d13, 0x650a7354, 0x766a0abb, 0x81c2c92e, 0x92722c85,
   0xa2bfe8a1, 0xa81a664b, 0xc24b8b70, 0xc76c51a3, 0xd192e819, 0xd6990624, 0xf40e3585, 0x106aa070,
   0x19a4c116, 0x1e376c08, 0x2748774c, 0x34b0bcb5, 0x391c0cb3, 0x4ed8aa4a, 0x5b9cca4f, 0x682e6ff3,
   0x748f82ee, 0x78a5636f, 0x84c87814, 0x8cc70208, 0x90befffa, 0xa4506ceb, 0xbef9a3f7, 0xc67178f2]

/-- A hash value, or the eight working variables. -/
structure Words where
  a : UInt32
  b : UInt32
  c : UInt32
  d : UInt32
  e : UInt32
  f : UInt32
  g : UInt32
  h : UInt32
  deriving DecidableEq, Repr

/-- The first 32 bits of the fractional parts of the square roots of the first eight primes. -/
def H0 : Words :=
  ⟨0x6a09e667, 0xbb67ae85, 0x3c6ef372, 0xa54ff53a, 0x510e527f, 0x9b05688c, 0x1f83d9ab, 0x5be0cd19⟩

/-- The words are added one by one. -/
def Words.add (x y : Words) : Words :=
  ⟨x.a + y.a, x.b + y.b, x.c + y.c, x.d + y.d, x.e + y.e, x.f + y.f, x.g + y.g, x.h + y.h⟩

/-- The number that big-endian bytes hold. -/
def beNat (bytes : Bytes) : ℕ := leNat bytes.reverse

/-- The low `k` bytes of `n`, highest first. -/
def beBytes (k n : ℕ) : Bytes := (leBytes k n).reverse

/-- The bytes of the words, the high ones first. -/
def Words.bytes (x : Words) : Bytes :=
  [x.a, x.b, x.c, x.d, x.e, x.f, x.g, x.h].flatMap fun word => beBytes 4 word.toNat

/-! ### The digest -/

/-- The words of a block. -/
def word (block : Bytes) (t : ℕ) : UInt32 := UInt32.ofNat (beNat ((block.drop (4 * t)).take 4))

/-- The message schedule. -/
def W (block : Bytes) (t : ℕ) : UInt32 :=
  if t < 16 then word block t
  else smallSigma1 (W block (t - 2)) + W block (t - 7) + smallSigma0 (W block (t - 15)) +
    W block (t - 16)

/-- One round of the compression. -/
def round (k w : UInt32) (x : Words) : Words :=
  let T1 := x.h + bigSigma1 x.e + Ch x.e x.f x.g + k + w
  let T2 := bigSigma0 x.a + Maj x.a x.b x.c
  ⟨T1 + T2, x.a, x.b, x.c, x.d + T1, x.e, x.f, x.g⟩

/-- The compression of a block. -/
def compress (H : Words) (block : Bytes) : Words :=
  H.add ((List.range 64).foldl (fun x t => round (K.getD t 0) (W block t) x) H)

/-- The whole blocks of a message, one after the other. -/
def chain (H : Words) (message : Bytes) : Words :=
  if message.length < 64 then H else chain (compress H (message.take 64)) (message.drop 64)
termination_by message.length
decreasing_by rw [List.length_drop]; omega

/-- The zeros between the byte `0x80` and the length. -/
def zeros (n : ℕ) : ℕ := (119 - n % 64) % 64

/-- A message with `0x80`, zeros and its length in bits, which takes eight bytes. -/
def pad (message : Bytes) : Bytes :=
  message ++ 0x80 :: List.replicate (zeros message.length) 0 ++ beBytes 8 (8 * message.length)

/-- The digest of a message. -/
def sha256 (message : Bytes) : Bytes := (chain H0 (pad message)).bytes

/-! ### Keyed hashing -/

section Keyed

variable (hash : Bytes → Bytes) (blockBytes : ℕ)

/-- A key of one block: a longer one is hashed, and zeros are put after it. -/
def blockKey (key : Bytes) : Bytes :=
  let key := if blockBytes < key.length then hash key else key
  key ++ List.replicate (blockBytes - key.length) 0

/-- The HMAC of a message. -/
def hmac (key message : Bytes) : Bytes :=
  hash ((blockKey hash blockBytes key).map (· ^^^ 0x5c) ++
    hash ((blockKey hash blockBytes key).map (· ^^^ 0x36) ++ message))

/-- `U_j` of the first block, from `j = 1` on. -/
def pbkdf2U (prf : Bytes → Bytes → Bytes) (password salt : Bytes) : ℕ → Bytes
  | 0 => prf password (salt ++ beBytes 4 1)
  | j + 1 => prf password (pbkdf2U prf password salt j)

/-- The first block of PBKDF2 with `c + 1` iterations. -/
def pbkdf2 (prf : Bytes → Bytes → Bytes) (password salt : Bytes) : ℕ → Bytes
  | 0 => pbkdf2U prf password salt 0
  | c + 1 => List.zipWith (· ^^^ ·) (pbkdf2 prf password salt c) (pbkdf2U prf password salt (c + 1))

end Keyed

/-! ### Blocks -/

variable {H : Words} {message blocks tail : Bytes}

theorem chain_of_lt (h : message.length < 64) : chain H message = H := by
  rw [chain, if_pos h]

theorem chain_of_length (h : message.length = 64) : chain H message = compress H message := by
  rw [chain, if_neg (by omega), List.take_of_length_le (by omega), chain_of_lt]
  rw [List.length_drop]
  omega

/-- A message that goes on is hashed on from where its blocks end. -/
theorem chain_append (hblocks : 64 ∣ blocks.length) :
    chain H (blocks ++ tail) = chain (chain H blocks) tail := by
  obtain ⟨n, hn⟩ := hblocks
  induction n generalizing H blocks with
  | zero =>
    obtain rfl := List.length_eq_zero_iff.1 hn
    rw [List.nil_append, chain_of_lt (by simp : ([] : Bytes).length < 64)]
  | succ n ih =>
    have hfirst : chain H blocks = chain (compress H (blocks.take 64)) (blocks.drop 64) := by
      rw [chain, if_neg (by omega)]
    rw [chain, if_neg (by rw [List.length_append]; omega), List.take_append_of_le_length (by omega),
      List.drop_append_of_le_length (by omega), ih (by rw [List.length_drop]; omega), hfirst]

/-- The fewest zeros with which the length ends a block. -/
theorem zeros_spec (n k : ℕ) (hk : (n + 1 + k + 8) % 64 = 0) : zeros n ≤ k := by
  unfold zeros
  omega

theorem pad_spec (message : Bytes) : 64 ∣ (pad message).length := by
  simp only [pad, beBytes, zeros, List.length_append, List.length_cons, List.length_replicate,
    List.length_reverse, length_leBytes]
  omega

end Sha2

end ArgusBackend
