import ArgusBackend.Text.Sha256

/-!
# Keyed hashes of secret phrases

* `Hmac`, `pbkdf2Sha256` : the code over `Sha256`;
* `standard_functions` : they are the functions of the standards, however a message is fed.
-/

namespace ArgusBackend

namespace Text

namespace SecretPhrase

/-- The bytes of a block of the hash. -/
def kBlockBytes : ℕ := 64

/-- What the key is mixed with inside. -/
def kInnerPad : UInt8 := 0x36

/-- What the key is mixed with outside. -/
def kOuterPad : UInt8 := 0x5c

/-- Two hashes that have been fed the padded key. -/
structure Hmac where
  inner : Sha256
  outer : Sha256

namespace Hmac

/-- `std::ranges::copy` to the front of a block of zeros. -/
def blockOf (bytes : Bytes) : Bytes := bytes ++ List.replicate (kBlockBytes - bytes.length) 0

/-- The constructor. -/
def new (key : Bytes) : Hmac :=
  let block :=
    if kBlockBytes < key.length then blockOf (({} : Sha256).update key).digest.1 else blockOf key
  { inner := ({} : Sha256).update (block.map (· ^^^ kInnerPad))
    outer := ({} : Sha256).update (block.map (· ^^^ kOuterPad)) }

/-- The digest, and the object after it: `sign` works on copies. -/
def sign (hmac : Hmac) (message : Bytes) : Bytes × Hmac :=
  let inner := hmac.inner.update message
  let innerDigest := inner.digest.1
  let outer := hmac.outer.update innerDigest
  (outer.digest.1, hmac)

/-- Messages that are signed one after the other. -/
def signs (hmac : Hmac) : List Bytes → List Bytes
  | [] => []
  | message :: messages => (hmac.sign message).1 :: (hmac.sign message).2.signs messages

end Hmac

/-- The loop over the rounds, from `round` on: `block`, and `result` so far. -/
def rounds (hmac : Hmac) (block result : Bytes) : ℕ → Bytes
  | 0 => result
  | count + 1 =>
    let block := (hmac.sign block).1
    rounds hmac block (List.zipWith (· ^^^ ·) result block) count

/-- `pbkdf2Sha256`, of one block. -/
def pbkdf2Sha256 (password salt : Bytes) (iterations : ℤ) : Bytes :=
  let hmac := Hmac.new password
  let first := salt ++ [0x00, 0x00, 0x00, 0x01]
  let block := (hmac.sign first).1
  rounds hmac block block (iterations - 1).toNat

/-! ### The standards -/

/-- HMAC-SHA-256. -/
def hmacSha256 : Bytes → Bytes → Bytes := Sha2.hmac Sha2.sha256 64

theorem digest_update (message : Bytes) :
    (({} : Sha256).update message).digest.1 = Sha2.sha256 message := by
  have h := (Sha256.fed_new.update message).digest
  rwa [List.nil_append] at h

theorem sign_eq (key message : Bytes) : ((Hmac.new key).sign message).1 = hmacSha256 key message := by
  have hblock : (if kBlockBytes < key.length then
      Hmac.blockOf (({} : Sha256).update key).digest.1 else Hmac.blockOf key) =
        Sha2.blockKey Sha2.sha256 64 key := by
    rw [digest_update, Sha2.blockKey, kBlockBytes]
    split_ifs <;> rfl
  have hinner := ((Sha256.fed_new.update
    ((Sha2.blockKey Sha2.sha256 64 key).map (· ^^^ kInnerPad))).update message).digest
  have houter (digest : Bytes) := ((Sha256.fed_new.update
    ((Sha2.blockKey Sha2.sha256 64 key).map (· ^^^ kOuterPad))).update digest).digest
  simp only [List.nil_append] at hinner houter
  simp only [Hmac.sign, Hmac.new, hblock, hinner, houter]
  rfl

theorem signs_eq (key : Bytes) (messages : List Bytes) :
    (Hmac.new key).signs messages = messages.map (hmacSha256 key) := by
  induction messages with
  | nil => rfl
  | cons message messages ih =>
    rw [Hmac.signs, sign_eq, List.map_cons]
    exact congrArg _ ih

theorem rounds_eq (password salt : Bytes) (j count : ℕ) :
    rounds (Hmac.new password) (Sha2.pbkdf2U hmacSha256 password salt j)
      (Sha2.pbkdf2 hmacSha256 password salt j) count =
        Sha2.pbkdf2 hmacSha256 password salt (j + count) := by
  induction count generalizing j with
  | zero => rfl
  | succ count ih =>
    rw [rounds, sign_eq, Nat.add_comm count 1, ← Nat.add_assoc]
    exact ih (j + 1)

/-- However a message is fed, the digest is that of SHA-256; a sequence of signatures are HMACs; and
the key is the first block of PBKDF2. -/
theorem standard_functions :
    (∀ parts : List Bytes,
      (parts.foldl Sha256.update {}).digest.1 = Sha2.sha256 parts.flatten) ∧
    (∀ (key : Bytes) (messages : List Bytes),
      (Hmac.new key).signs messages = messages.map (hmacSha256 key)) ∧
    ∀ (password salt : Bytes) (c : ℕ),
      pbkdf2Sha256 password salt (c + 1) = Sha2.pbkdf2 hmacSha256 password salt c := by
  refine ⟨fun parts => ?_, signs_eq, fun password salt c => ?_⟩
  · have h := (Sha256.fed_new.updates parts).digest
    rwa [List.nil_append] at h
  · have hfirst : [0x00, 0x00, 0x00, 0x01] = Sha2.beBytes 4 1 := rfl
    have hcount : ((c : ℤ) + 1 - 1).toNat = c := by omega
    have h := rounds_eq password salt 0 c
    rw [Nat.zero_add] at h
    rw [pbkdf2Sha256, sign_eq, hcount, hfirst]
    exact h

end SecretPhrase

end Text

end ArgusBackend
