import ArgusBackend.Library.LittleEndian

/-!
# The payload of a sealed push

* `sealedPayload`, `parseSealedPayload` : the two sides of the code;
* `parseFields_payload`, `payload_parseFields` : the fields that are read are those that were
  written, whatever follows, and nothing else is read as them;
* `payload_exact` : the two sides are inverse, and no payload starts another one.
-/

namespace ArgusBackend

namespace Push

/-- The bytes of a delivery id. -/
def kDeliveryIdSize : ℕ := 16

/-- The bytes of an encapsulated key. -/
def kEncSize : ℕ := 32

/-- The shortest ciphertext. -/
def kMinCiphertextSize : ℕ := 16

/-- The longest ciphertext. -/
def kMaxCiphertextSize : ℕ := 2048

/-- The longest collapse id. -/
def kMaxCollapseIdSize : ℕ := 64

/-- The longest token. -/
def kMaxTokenSize : ℕ := 512

/-- Who delivers a push. -/
inductive PushProvider where
  | fcm | apns | apnsVoip
  deriving DecidableEq, Repr

/-- What a push is for. -/
inductive PushKind where
  | alert | call
  deriving DecidableEq, Repr

/-- How urgent a push is. -/
inductive PushPriority where
  | normal | high
  deriving DecidableEq, Repr

/-- The byte of a provider. -/
def PushProvider.code : PushProvider → UInt8
  | .fcm => 1
  | .apns => 2
  | .apnsVoip => 3

/-- The byte of a kind. -/
def PushKind.code : PushKind → UInt8
  | .alert => 1
  | .call => 2

/-- The byte of a priority. -/
def PushPriority.code : PushPriority → UInt8
  | .normal => 0
  | .high => 1

/-- `static_cast<PushProvider>`, of a byte in range. -/
def PushProvider.ofCode (code : UInt8) : PushProvider :=
  if code = 1 then .fcm else if code = 2 then .apns else .apnsVoip

/-- The kind of a byte that was checked. -/
def PushKind.ofCode (code : UInt8) : PushKind := if code = 1 then .alert else .call

/-- The priority of a byte that was checked. -/
def PushPriority.ofCode (code : UInt8) : PushPriority := if code = 0 then .normal else .high

/-- A provider delivers a kind. -/
def combinationAllowed (provider : PushProvider) (kind : PushKind) : Bool :=
  match provider with
  | .apns => kind = .alert
  | .apnsVoip => kind = .call
  | .fcm => true

/-- What is known of a push outside its ciphertext, and the ciphertext. -/
structure PushSealedEnvelope where
  deliveryId : Bytes := []
  provider : PushProvider := .fcm
  kind : PushKind := .alert
  priority : PushPriority := .normal
  ttlSeconds : UInt32 := 0
  collapseId : Bytes := []
  token : Bytes := []
  enc : Bytes := []
  ciphertext : Bytes := []
  deriving DecidableEq, Repr

/-! ### Writing -/

/-- Two bytes, the low one first. -/
def appendU16 (out : Bytes) (value : ℕ) : Bytes :=
  out ++ [UInt8.ofNat (value &&& 0xff), UInt8.ofNat ((value >>> 8) &&& 0xff)]

/-- Four bytes, the low one first. -/
def appendU32 (out : Bytes) (value : UInt32) : Bytes :=
  out ++ [0, 8, 16, 24].map fun shift => UInt8.ofNat ((value.toNat >>> shift) &&& 0xff)

namespace PushSealedEnvelope

/-- The envelope can be written. -/
def wellFormed (envelope : PushSealedEnvelope) : Bool :=
  envelope.deliveryId.length = kDeliveryIdSize &&
    envelope.collapseId.length ≤ kMaxCollapseIdSize &&
    envelope.token ≠ [] && envelope.token.length ≤ kMaxTokenSize &&
    envelope.enc.length = kEncSize &&
    envelope.ciphertext.length ≥ kMinCiphertextSize &&
    envelope.ciphertext.length ≤ kMaxCiphertextSize &&
    combinationAllowed envelope.provider envelope.kind

/-- The fields of fixed length. -/
def envelopePrefix (envelope : PushSealedEnvelope) : Bytes :=
  let out := envelope.deliveryId
  let out := out ++ [envelope.provider.code]
  let out := out ++ [envelope.kind.code]
  let out := out ++ [envelope.priority.code]
  let out := appendU32 out envelope.ttlSeconds
  let out := out ++ [UInt8.ofNat envelope.collapseId.length]
  let out := out ++ envelope.collapseId
  let out := appendU16 out envelope.token.length
  out ++ envelope.token

/-- What `sealedPayload` writes. -/
def payload (envelope : PushSealedEnvelope) : Bytes :=
  let out := envelope.envelopePrefix
  let out := appendU16 out envelope.enc.length
  let out := out ++ envelope.enc
  let out := appendU16 out envelope.ciphertext.length
  out ++ envelope.ciphertext

/-- The payload of an envelope that can be written. -/
def sealedPayload (envelope : PushSealedEnvelope) : Option Bytes :=
  if envelope.wellFormed then some envelope.payload else none

end PushSealedEnvelope

/-! ### Reading -/

/-- The cursor is what it has not read yet. -/
def take (count : ℕ) (bytes : Bytes) : Option (Bytes × Bytes) :=
  if bytes.length < count then none else some (bytes.take count, bytes.drop count)

/-- The next byte. -/
def byte : Bytes → Option (UInt8 × Bytes)
  | [] => none
  | b :: rest => some (b, rest)

/-- The next two bytes, the low one first. -/
def u16 (bytes : Bytes) : Option (ℕ × Bytes) :=
  (byte bytes).bind fun (low, bytes) =>
    (byte bytes).map fun (high, bytes) => (low.toNat ||| (high.toNat <<< 8), bytes)

/-- The loop of `u32` over the shifts. -/
def u32From : List ℕ → ℕ → Bytes → Option (ℕ × Bytes)
  | [], out, bytes => some (out, bytes)
  | shift :: shifts, out, bytes =>
    (byte bytes).bind fun (next, bytes) => u32From shifts (out ||| (next.toNat <<< shift)) bytes

/-- The next four bytes, the low one first. -/
def u32 (bytes : Bytes) : Option (UInt32 × Bytes) :=
  (u32From [0, 8, 16, 24] 0 bytes).map fun (out, bytes) => (UInt32.ofNat out, bytes)

/-- The fields that `parseSealedPayload` reads, and what is left behind them. -/
def parseFields (payload : Bytes) : Option (PushSealedEnvelope × Bytes) := do
  let (deliveryId, rest) ← take kDeliveryIdSize payload
  let (provider, rest) ← byte rest
  let (kind, rest) ← byte rest
  let (priority, rest) ← byte rest
  let (ttl, rest) ← u32 rest
  let (collapseLength, rest) ← byte rest
  if provider < 1 ∨ provider > 3 ∨ kind < 1 ∨ kind > 2 ∨ priority > 1 ∨
    collapseLength.toNat > kMaxCollapseIdSize then none
  else
    let (collapseId, rest) ← take collapseLength.toNat rest
    let (tokenLength, rest) ← u16 rest
    if tokenLength = 0 ∨ tokenLength > kMaxTokenSize then none
    else
      let (token, rest) ← take tokenLength rest
      let (encLength, rest) ← u16 rest
      if encLength ≠ kEncSize then none
      else
        let (enc, rest) ← take encLength rest
        let (ciphertextLength, rest) ← u16 rest
        if ciphertextLength < kMinCiphertextSize ∨ ciphertextLength > kMaxCiphertextSize then none
        else
          let (ciphertext, rest) ← take ciphertextLength rest
          some ({ deliveryId, provider := .ofCode provider, kind := .ofCode kind,
                  priority := .ofCode priority, ttlSeconds := ttl, collapseId, token, enc,
                  ciphertext }, rest)

/-- Whether the payload is accepted, and the output after the call. -/
def parseSealedPayload (payload : Bytes) (out : PushSealedEnvelope) : Bool × PushSealedEnvelope :=
  match parseFields payload with
  | some (parsed, []) => if parsed.wellFormed then (true, parsed) else (false, out)
  | _ => (false, out)

/-! ### Fields -/

section Fields

variable {bytes rest : Bytes}

lemma appendU16_eq (out : Bytes) (value : ℕ) : appendU16 out value = out ++ leBytes 2 value := by
  have hlow := byte_of_shiftRight value 0
  rw [Nat.shiftRight_zero, pow_zero, Nat.div_one] at hlow
  rw [appendU16, byte_of_shiftRight, hlow]
  rfl

lemma appendU32_eq (out : Bytes) (value : UInt32) :
    appendU32 out value = out ++ leBytes 4 value.toNat := by
  rw [appendU32, leBytes_eq_map, show [0, 8, 16, 24] = (List.range 4).map (8 * ·) from rfl,
    List.map_map]
  congr 1
  refine List.map_congr_left fun j _ => ?_
  rw [Function.comp_apply, byte_of_shiftRight, pow_mul]
  rfl

lemma take_eq_some {count : ℕ} {x : Bytes} :
    take count bytes = some (x, rest) ↔ x.length = count ∧ bytes = x ++ rest := by
  unfold take
  split_ifs with hshort
  · refine iff_of_false (by simp) ?_
    rintro ⟨rfl, rfl⟩
    rw [List.length_append] at hshort
    omega
  · rw [Option.some.injEq, Prod.mk.injEq]
    constructor
    · rintro ⟨rfl, rfl⟩
      exact ⟨by rw [List.length_take]; omega, (List.take_append_drop _ _).symm⟩
    · rintro ⟨rfl, rfl⟩
      exact ⟨List.take_left, List.drop_left⟩

lemma byte_eq_some {b : UInt8} : byte bytes = some (b, rest) ↔ bytes = b :: rest := by
  cases bytes <;> simp [byte]

lemma u16_eq_some {n : ℕ} :
    u16 bytes = some (n, rest) ↔ n < 65536 ∧ bytes = leBytes 2 n ++ rest := by
  have hvalue (low high : UInt8) : low.toNat ||| (high.toNat <<< 8) = leNat [low, high] := by
    rw [or_shiftLeft_eq_add low.toNat_lt, leNat, leNat, leNat]
    omega
  constructor
  · intro h
    obtain ⟨⟨low, bytes'⟩, hlow, h⟩ := Option.bind_eq_some_iff.mp h
    obtain ⟨⟨high, rest'⟩, hhigh, h⟩ := Option.map_eq_some_iff.mp h
    rw [byte_eq_some] at hlow hhigh
    obtain ⟨rfl, rfl⟩ := Prod.mk.inj h
    have hback : leBytes 2 (leNat [low, high]) = [low, high] := leBytes_of_length rfl
    have hpow : 256 ^ [low, high].length = 65536 := by norm_num
    rw [hlow, hhigh, hvalue, hback]
    exact ⟨hpow ▸ leNat_lt [low, high], rfl⟩
  · rintro ⟨hn, rfl⟩
    have hback : leNat (leBytes 2 n) = n := by
      rw [leNat_leBytes]
      exact Nat.mod_eq_of_lt hn
    have hread : u16 (leBytes 2 n ++ rest) = some (leNat (leBytes 2 n), rest) := by
      rw [leBytes, leBytes, leBytes, ← hvalue]
      rfl
    rw [hread, hback]

lemma u32_eq_some {v : UInt32} :
    u32 bytes = some (v, rest) ↔ bytes = leBytes 4 v.toNat ++ rest := by
  have hvalue (a b c d : UInt8) : 0 ||| (a.toNat <<< 0) ||| (b.toNat <<< 8) |||
      (c.toNat <<< 16) ||| (d.toNat <<< 24) = leNat [a, b, c, d] := by
    have ha := a.toNat_lt
    have hb := b.toNat_lt
    have hc := c.toNat_lt
    rw [Nat.zero_or, Nat.shiftLeft_zero, or_shiftLeft_eq_add ha,
      or_shiftLeft_eq_add (i := 16) (by omega), or_shiftLeft_eq_add (i := 24) (by omega)]
    simp only [leNat]
    omega
  constructor
  · intro h
    obtain ⟨⟨out, rest'⟩, hread, h⟩ := Option.map_eq_some_iff.mp h
    obtain ⟨⟨a, bytes₁⟩, h₁, hread⟩ := Option.bind_eq_some_iff.mp hread
    obtain ⟨⟨b, bytes₂⟩, h₂, hread⟩ := Option.bind_eq_some_iff.mp hread
    obtain ⟨⟨c, bytes₃⟩, h₃, hread⟩ := Option.bind_eq_some_iff.mp hread
    obtain ⟨⟨d, bytes₄⟩, h₄, hread⟩ := Option.bind_eq_some_iff.mp hread
    rw [byte_eq_some] at h₁ h₂ h₃ h₄
    dsimp only at h₂ h₃ h₄ hread
    rw [hvalue] at hread
    obtain ⟨rfl, rfl⟩ := Prod.mk.inj (Option.some.inj hread)
    obtain ⟨rfl, rfl⟩ := Prod.mk.inj h
    have hpow : 256 ^ [a, b, c, d].length = UInt32.size := by norm_num [UInt32.size]
    have hsmall : leNat [a, b, c, d] < UInt32.size := hpow ▸ leNat_lt [a, b, c, d]
    have hback : leBytes 4 (leNat [a, b, c, d]) = [a, b, c, d] := leBytes_of_length rfl
    rw [h₁, h₂, h₃, h₄, UInt32.toNat_ofNat_of_lt' hsmall, hback]
    rfl
  · rintro rfl
    have hback : leNat (leBytes 4 v.toNat) = v.toNat := by
      rw [leNat_leBytes]
      exact Nat.mod_eq_of_lt v.toNat_lt
    have hread : u32 (leBytes 4 v.toNat ++ rest) =
        some (UInt32.ofNat (leNat (leBytes 4 v.toNat)), rest) := by
      rw [leBytes, leBytes, leBytes, leBytes, leBytes, ← hvalue]
      rfl
    rw [hread, hback, UInt32.ofNat_toNat]

end Fields

/-! ### Codes -/

lemma PushProvider.ofCode_code (provider : PushProvider) : .ofCode provider.code = provider := by
  cases provider <;> rfl

lemma PushKind.ofCode_code (kind : PushKind) : .ofCode kind.code = kind := by
  cases kind <;> rfl

lemma PushPriority.ofCode_code (priority : PushPriority) : .ofCode priority.code = priority := by
  cases priority <;> rfl

/-! ### Both sides -/

namespace PushSealedEnvelope

variable {e : PushSealedEnvelope} {payload rest : Bytes}

/-- The sizes of the fields. -/
structure Sized (e : PushSealedEnvelope) : Prop where
  deliveryId : e.deliveryId.length = kDeliveryIdSize
  collapseId : e.collapseId.length ≤ kMaxCollapseIdSize
  token : 0 < e.token.length ∧ e.token.length ≤ kMaxTokenSize
  enc : e.enc.length = kEncSize
  ciphertext : kMinCiphertextSize ≤ e.ciphertext.length ∧
    e.ciphertext.length ≤ kMaxCiphertextSize

lemma wellFormed_iff :
    e.wellFormed = true ↔ e.Sized ∧ combinationAllowed e.provider e.kind = true := by
  have htoken : e.token ≠ [] ↔ 0 < e.token.length := List.length_pos_iff.symm
  simp only [wellFormed, Bool.and_eq_true, decide_eq_true_eq, htoken]
  constructor
  · rintro ⟨⟨⟨⟨⟨⟨⟨h₁, h₂⟩, h₃⟩, h₄⟩, h₅⟩, h₆⟩, h₇⟩, h₈⟩
    exact ⟨⟨h₁, h₂, ⟨h₃, h₄⟩, h₅, h₆, h₇⟩, h₈⟩
  · rintro ⟨⟨h₁, h₂, ⟨h₃, h₄⟩, h₅, h₆, h₇⟩, h₈⟩
    exact ⟨⟨⟨⟨⟨⟨⟨h₁, h₂⟩, h₃⟩, h₄⟩, h₅⟩, h₆⟩, h₇⟩, h₈⟩

lemma payload_eq (e : PushSealedEnvelope) (rest : Bytes) : e.payload ++ rest =
    e.deliveryId ++ (e.provider.code :: e.kind.code :: e.priority.code ::
      (leBytes 4 e.ttlSeconds.toNat ++ (UInt8.ofNat e.collapseId.length :: (e.collapseId ++
        (leBytes 2 e.token.length ++ (e.token ++ (leBytes 2 e.enc.length ++ (e.enc ++
          (leBytes 2 e.ciphertext.length ++ (e.ciphertext ++ rest))))))))) ) := by
  simp only [PushSealedEnvelope.payload, envelopePrefix, appendU16_eq, appendU32_eq,
    List.append_assoc, List.cons_append, List.nil_append]

/-- The fields that were written are read back, whatever follows them. -/
theorem parseFields_payload (h : e.Sized) (rest : Bytes) :
    parseFields (e.payload ++ rest) = some (e, rest) := by
  obtain ⟨hid, hcollapse, ⟨hpos, htoken⟩, henc, hmin, hmax⟩ := h
  have hlength : (UInt8.ofNat e.collapseId.length).toNat = e.collapseId.length := by
    rw [UInt8.toNat_ofNat']
    exact Nat.mod_eq_of_lt (hcollapse.trans_lt (by decide))
  -- No check of the reader refuses what is of the sizes.
  have hcodes : ¬(e.provider.code < 1 ∨ e.provider.code > 3 ∨ e.kind.code < 1 ∨
      e.kind.code > 2 ∨ e.priority.code > 1 ∨ e.collapseId.length > kMaxCollapseIdSize) := by
    have hle : ¬e.collapseId.length > kMaxCollapseIdSize := Nat.not_lt.mpr hcollapse
    cases e.provider <;> cases e.kind <;> cases e.priority <;> simp [hle, PushProvider.code,
      PushKind.code, PushPriority.code]
  have h₁ : ¬(e.token.length = 0 ∨ e.token.length > kMaxTokenSize) := by omega
  have h₂ : ¬e.enc.length ≠ kEncSize := not_not.mpr henc
  have h₃ : ¬(e.ciphertext.length < kMinCiphertextSize ∨
      e.ciphertext.length > kMaxCiphertextSize) := by omega
  have hsmall₁ : e.token.length < 65536 := htoken.trans_lt (by decide)
  have hsmall₂ : e.enc.length < 65536 := henc.trans_lt (by decide)
  have hsmall₃ : e.ciphertext.length < 65536 := hmax.trans_lt (by decide)
  have htake (x r : Bytes) : take x.length (x ++ r) = some (x, r) := take_eq_some.mpr ⟨rfl, rfl⟩
  have hbyte (b : UInt8) (r : Bytes) : byte (b :: r) = some (b, r) := rfl
  have hu16 {n : ℕ} (hn : n < 65536) (r : Bytes) : u16 (leBytes 2 n ++ r) = some (n, r) :=
    u16_eq_some.mpr ⟨hn, rfl⟩
  have hu32 (v : UInt32) (r : Bytes) : u32 (leBytes 4 v.toNat ++ r) = some (v, r) :=
    u32_eq_some.mpr rfl
  rw [payload_eq, parseFields, ← hid]
  dsimp only [Option.bind_eq_bind]
  rw [htake, Option.bind_some, hbyte, Option.bind_some, hbyte, Option.bind_some, hbyte,
    Option.bind_some, hu32, Option.bind_some, hbyte, Option.bind_some]
  dsimp only
  rw [hlength, if_neg hcodes, htake, Option.bind_some, hu16 hsmall₁, Option.bind_some]
  dsimp only
  rw [if_neg h₁, htake, Option.bind_some, hu16 hsmall₂, Option.bind_some]
  dsimp only
  rw [if_neg h₂, htake, Option.bind_some, hu16 hsmall₃, Option.bind_some]
  dsimp only
  rw [if_neg h₃, htake, Option.bind_some]
  dsimp only
  rw [PushProvider.ofCode_code, PushKind.ofCode_code, PushPriority.ofCode_code]

lemma provider_code : ∀ n < 256, ¬UInt8.ofNat n < 1 → ¬UInt8.ofNat n > 3 →
    (PushProvider.ofCode (UInt8.ofNat n)).code = UInt8.ofNat n := by
  decide +kernel

lemma kind_code : ∀ n < 256, ¬UInt8.ofNat n < 1 → ¬UInt8.ofNat n > 2 →
    (PushKind.ofCode (UInt8.ofNat n)).code = UInt8.ofNat n := by
  decide +kernel

lemma priority_code : ∀ n < 256, ¬UInt8.ofNat n > 1 →
    (PushPriority.ofCode (UInt8.ofNat n)).code = UInt8.ofNat n := by
  decide +kernel

/-- What is read as fields is what is written for them. -/
theorem payload_parseFields (h : parseFields payload = some (e, rest)) :
    e.Sized ∧ payload = e.payload ++ rest := by
  unfold parseFields at h
  dsimp only [Option.bind_eq_bind] at h
  obtain ⟨⟨deliveryId, r₁⟩, h₁, h⟩ := Option.bind_eq_some_iff.mp h
  obtain ⟨⟨provider, r₂⟩, h₂, h⟩ := Option.bind_eq_some_iff.mp h
  obtain ⟨⟨kind, r₃⟩, h₃, h⟩ := Option.bind_eq_some_iff.mp h
  obtain ⟨⟨priority, r₄⟩, h₄, h⟩ := Option.bind_eq_some_iff.mp h
  obtain ⟨⟨ttl, r₅⟩, h₅, h⟩ := Option.bind_eq_some_iff.mp h
  obtain ⟨⟨collapseLength, r₆⟩, h₆, h⟩ := Option.bind_eq_some_iff.mp h
  dsimp only at h₂ h₃ h₄ h₅ h₆ h
  split_ifs at h with hcodes
  obtain ⟨⟨collapseId, r₇⟩, h₇, h⟩ := Option.bind_eq_some_iff.mp h
  obtain ⟨⟨tokenLength, r₈⟩, h₈, h⟩ := Option.bind_eq_some_iff.mp h
  dsimp only at h₇ h₈ h
  split_ifs at h with htoken
  obtain ⟨⟨token, r₉⟩, h₉, h⟩ := Option.bind_eq_some_iff.mp h
  obtain ⟨⟨encLength, r₁₀⟩, h₁₀, h⟩ := Option.bind_eq_some_iff.mp h
  dsimp only at h₉ h₁₀ h
  split_ifs at h with henc
  obtain ⟨⟨enc, r₁₁⟩, h₁₁, h⟩ := Option.bind_eq_some_iff.mp h
  obtain ⟨⟨ciphertextLength, r₁₂⟩, h₁₂, h⟩ := Option.bind_eq_some_iff.mp h
  dsimp only at h₁₁ h₁₂ h
  split_ifs at h with hciphertext
  obtain ⟨⟨ciphertext, r₁₃⟩, h₁₃, h⟩ := Option.bind_eq_some_iff.mp h
  obtain ⟨rfl, rfl⟩ := Prod.mk.inj (Option.some.inj h)
  -- Each reader gives back the text that was in front of it.
  rw [take_eq_some] at h₁ h₇ h₉ h₁₁ h₁₃
  rw [byte_eq_some] at h₂ h₃ h₄ h₆
  rw [u16_eq_some] at h₈ h₁₀ h₁₂
  rw [u32_eq_some] at h₅
  obtain ⟨hid, rfl⟩ := h₁
  obtain ⟨hcollapse, rfl⟩ := h₇
  obtain ⟨hsmall₁, rfl⟩ := h₈
  obtain ⟨rfl, rfl⟩ := h₉
  obtain ⟨hsmall₂, rfl⟩ := h₁₀
  obtain ⟨rfl, rfl⟩ := h₁₁
  obtain ⟨hsmall₃, rfl⟩ := h₁₂
  obtain ⟨rfl, rfl⟩ := h₁₃
  subst h₂ h₃ h₄ h₅ h₆
  simp only [not_or] at hcodes htoken hciphertext
  obtain ⟨hp₁, hp₂, hk₁, hk₂, hpr, hc⟩ := hcodes
  have hlength : UInt8.ofNat collapseId.length = collapseLength := by
    rw [hcollapse, UInt8.ofNat_toNat]
  refine ⟨⟨hid, ?_, ⟨?_, ?_⟩, not_not.mp henc, ?_, ?_⟩, ?_⟩
  · dsimp only
    omega
  · dsimp only
    omega
  · dsimp only
    omega
  · dsimp only
    omega
  · dsimp only
    omega
  · have hprovider := provider_code provider.toNat provider.toNat_lt
    have hkind := kind_code kind.toNat kind.toNat_lt
    have hpriority := priority_code priority.toNat priority.toNat_lt
    rw [UInt8.ofNat_toNat] at hprovider hkind hpriority
    rw [payload_eq]
    dsimp only
    rw [hprovider hp₁ hp₂, hkind hk₁ hk₂, hpriority hpr, hlength]

/-! ### Payloads -/

/-- A payload is accepted exactly as the one that is written for a well-formed envelope. -/
theorem parseSealedPayload_eq (out : PushSealedEnvelope) :
    parseSealedPayload payload out = (true, e) ↔ e.sealedPayload = some payload := by
  have hsealed : e.sealedPayload = some payload ↔ e.wellFormed = true ∧ payload = e.payload := by
    unfold sealedPayload
    split_ifs with hwell
    · rw [Option.some.injEq]
      exact ⟨fun h => ⟨hwell, h.symm⟩, fun h => h.2.symm⟩
    · exact iff_of_false (by simp) fun h => hwell h.1
  rw [hsealed]
  constructor
  · intro h
    unfold parseSealedPayload at h
    split at h
    · next parsed hfields =>
      split_ifs at h with hwell
      · obtain rfl := (Prod.mk.inj h).2
        obtain ⟨-, hpayload⟩ := payload_parseFields hfields
        exact ⟨hwell, by rw [hpayload, List.append_nil]⟩
      · cases (Prod.mk.inj h).1
    · cases (Prod.mk.inj h).1
  · rintro ⟨hwell, rfl⟩
    have hfields := parseFields_payload (wellFormed_iff.mp hwell).1 []
    rw [List.append_nil] at hfields
    rw [parseSealedPayload, hfields]
    dsimp only
    rw [if_pos hwell]

/-- An accepted payload does not go on to another one. -/
theorem parseSealedPayload_append {e' out out' : PushSealedEnvelope} {more : Bytes}
    (h : parseSealedPayload payload out = (true, e))
    (h' : parseSealedPayload (payload ++ more) out' = (true, e')) : more = [] := by
  rw [parseSealedPayload_eq] at h
  unfold sealedPayload at h
  split_ifs at h with hwell
  obtain rfl := Option.some.inj h
  have hfields := parseFields_payload (wellFormed_iff.mp hwell).1 more
  unfold parseSealedPayload at h'
  rw [hfields] at h'
  cases more with
  | nil => rfl
  | cons b more => simp at h'

end PushSealedEnvelope

open PushSealedEnvelope in
/-- The codec is a bijection between the well-formed envelopes and the payloads it accepts, none of
which starts another one; and a refused payload leaves the output as it was. -/
theorem payload_exact :
    (∀ e : PushSealedEnvelope, e.wellFormed = true → ∃ payload, e.sealedPayload = some payload ∧
      ∀ out, parseSealedPayload payload out = (true, e)) ∧
    (∀ payload out e, parseSealedPayload payload out = (true, e) →
      e.sealedPayload = some payload) ∧
    (∀ payload more out out', (parseSealedPayload payload out).1 = true →
      (parseSealedPayload (payload ++ more) out').1 = true → more = []) ∧
    ∀ payload out, (parseSealedPayload payload out).1 = false →
      (parseSealedPayload payload out).2 = out := by
  refine ⟨fun e hwell => ?_, fun payload out e h => (parseSealedPayload_eq out).mp h, ?_, ?_⟩
  · have hsealed : e.sealedPayload = some e.payload := if_pos hwell
    exact ⟨_, hsealed, fun out => (parseSealedPayload_eq out).mpr hsealed⟩
  · intro payload more out out' h h'
    exact parseSealedPayload_append (Prod.ext h rfl) (Prod.ext h' rfl)
  · intro payload out h
    unfold parseSealedPayload at h ⊢
    split
    · next parsed hfields =>
      rw [hfields] at h
      dsimp only at h
      split_ifs at h ⊢
      rfl
    · rfl

/-- An alert without a collapse id, with a token of one byte. -/
def smallAlert : PushSealedEnvelope where
  deliveryId := List.replicate 16 7
  token := [9]
  enc := List.replicate 32 0
  ciphertext := List.replicate 16 255

theorem payload_exact_alert : ∃ payload, smallAlert.sealedPayload = some payload ∧
    ∀ out, parseSealedPayload payload out = (true, smallAlert) :=
  payload_exact.1 smallAlert (by decide)

end Push

end ArgusBackend
