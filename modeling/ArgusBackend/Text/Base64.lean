import ArgusBackend.Library.LittleEndian
import Mathlib.Data.Nat.Bitwise

/-!
# Base64

* `encode`, `decode` : the code, group by group;
* `Encoded` : the texts of the standard;
* `decode_exact` : decoding reads back what was encoded, and where it accepts more than the texts
  of the standard.
-/

namespace ArgusBackend

namespace Text

namespace Base64

/-- The bytes of an ASCII text. -/
def bytesOf (s : String) : Bytes := s.toList.map fun c => UInt8.ofNat c.toNat

/-- The digits. -/
def kAlphabet : Bytes :=
  bytesOf "ABCDEFGHIJKLMNOPQRSTUVWXYZabcdefghijklmnopqrstuvwxyz0123456789+/"

/-- `=` -/
def kPad : UInt8 := 0x3d

/-- `kAlphabet[bits & 0x3F]` -/
def digit (bits : ℕ) : UInt8 := kAlphabet.getD (bits &&& 0x3f) 0

/-- `encode` -/
def encode : Bytes → Bytes
  | a :: b :: c :: rest =>
    let block := (a.toNat <<< 16) ||| (b.toNat <<< 8) ||| c.toNat
    digit (block >>> 18) :: digit (block >>> 12) :: digit (block >>> 6) :: digit block ::
      encode rest
  | [a, b] =>
    let block := (a.toNat <<< 16) ||| (b.toNat <<< 8)
    [digit (block >>> 18), digit (block >>> 12), digit (block >>> 6), kPad]
  | [a] =>
    let block := a.toNat <<< 16
    [digit (block >>> 18), digit (block >>> 12), kPad, kPad]
  | [] => []

/-- The value of a digit. -/
def valueOf (character : UInt8) : Option ℕ :=
  if 0x41 ≤ character ∧ character ≤ 0x5a then some (character.toNat - 0x41)
  else if 0x61 ≤ character ∧ character ≤ 0x7a then some (character.toNat - 0x61 + 26)
  else if 0x30 ≤ character ∧ character ≤ 0x39 then some (character.toNat - 0x30 + 52)
  else if character = 0x2b then some 62
  else if character = 0x2f then some 63
  else none

/-- One character of a group: the block and the padding so far. -/
def take (s : ℕ × ℕ) (character : UInt8) : Option (ℕ × ℕ) :=
  if character = kPad then some (s.1 <<< 6, s.2 + 1)
  else (valueOf character).map fun value => ((s.1 <<< 6) ||| value, s.2)

/-- The bytes of four digits, less their padding. -/
def bytesOfBlock (block padding : ℕ) : Bytes :=
  UInt8.ofNat ((block >>> 16) &&& 0xff) ::
    ((if padding < 2 then [UInt8.ofNat ((block >>> 8) &&& 0xff)] else []) ++
      if padding < 1 then [UInt8.ofNat (block &&& 0xff)] else [])

/-- The bytes of a group of four characters. -/
def decodeGroup (group : Bytes) : Option Bytes :=
  (group.foldlM take (0, 0)).map fun s => bytesOfBlock s.1 s.2

/-- The bytes of all groups. -/
def decodeGroups : Bytes → Option Bytes
  | a :: b :: c :: d :: rest =>
    (decodeGroup [a, b, c, d]).bind fun decoded => (decodeGroups rest).map (decoded ++ ·)
  | _ => some []

/-- `decode` -/
def decode (text : Bytes) : Option Bytes :=
  if text.length % 4 ≠ 0 then none else decodeGroups text

/-! ### The texts of the standard -/

/-- Groups of four letters; the last group may end in one or two pads. -/
inductive Encoded : Bytes → Prop
  | nil : Encoded []
  | one {a b c : UInt8} (ha : a ∈ kAlphabet) (hb : b ∈ kAlphabet) (hc : c ∈ kAlphabet) :
      Encoded [a, b, c, kPad]
  | two {a b : UInt8} (ha : a ∈ kAlphabet) (hb : b ∈ kAlphabet) : Encoded [a, b, kPad, kPad]
  | group {a b c d : UInt8} {rest : Bytes} (ha : a ∈ kAlphabet) (hb : b ∈ kAlphabet)
      (hc : c ∈ kAlphabet) (hd : d ∈ kAlphabet) (hrest : Encoded rest) :
      Encoded (a :: b :: c :: d :: rest)

/-- The code refuses the text, whatever its padding. -/
def Refused (text : Bytes) : Prop :=
  ¬4 ∣ text.length ∨ ∃ character ∈ text, character ∉ kAlphabet ∧ character ≠ kPad

/-- Behind a pad there is nothing, or one more pad. -/
def Trailing (text : Bytes) : Prop :=
  ∀ before behind, text = before ++ kPad :: behind → behind = [] ∨ behind = [kPad]

/-! ### Letters -/

lemma valueOf_letter : ∀ n < 64, valueOf (kAlphabet.getD n 0) = some n ∧
    kAlphabet.getD n 0 ≠ kPad := by
  rw [kAlphabet, bytesOf, String.toList_ofList]
  decide +kernel

lemma valueOf_digit (bits : ℕ) : valueOf (digit bits) = some (bits % 64) ∧ digit bits ≠ kPad := by
  have hmod : bits &&& 0x3f = bits % 64 := Nat.and_two_pow_sub_one_eq_mod bits 6
  rw [digit, hmod]
  exact valueOf_letter _ (Nat.mod_lt _ (by decide))

lemma letter_valueOf : ∀ n < 256, ∀ value ∈ valueOf (UInt8.ofNat n),
    value < 64 ∧ kAlphabet.getD value 0 = UInt8.ofNat n := by
  rw [kAlphabet, bytesOf, String.toList_ofList]
  decide +kernel

lemma length_kAlphabet : kAlphabet.length = 64 := by decide +kernel

lemma valueOf_isSome (character : UInt8) :
    (valueOf character).isSome = true ↔ character ∈ kAlphabet := by
  constructor
  · intro h
    obtain ⟨value, hvalue⟩ := Option.isSome_iff_exists.mp h
    have hletter := letter_valueOf character.toNat character.toNat_lt value
    rw [UInt8.ofNat_toNat] at hletter
    obtain ⟨hlt, hget⟩ := hletter hvalue
    rw [← length_kAlphabet] at hlt
    rw [List.getD_eq_getElem _ _ hlt] at hget
    exact hget ▸ List.getElem_mem hlt
  · intro h
    obtain ⟨value, hlt, rfl⟩ := List.mem_iff_getElem.mp h
    have hvalue := (valueOf_letter value (length_kAlphabet ▸ hlt)).1
    rw [List.getD_eq_getElem _ _ hlt] at hvalue
    rw [hvalue]
    rfl

lemma pad_not_letter : kPad ∉ kAlphabet := by decide +kernel

lemma take_isSome (s : ℕ × ℕ) (character : UInt8) :
    (take s character).isSome = true ↔ character ∈ kAlphabet ∨ character = kPad := by
  unfold take
  split_ifs with hpad
  · simp [hpad]
  · rw [Option.isSome_map, valueOf_isSome]
    simp [hpad]

/-! ### Decoding what was encoded -/

lemma take_digit (block padding bits : ℕ) :
    take (block, padding) (digit bits) = some (block * 64 + bits % 64, padding) := by
  obtain ⟨hvalue, hpad⟩ := valueOf_digit bits
  have hor : (block <<< 6) ||| (bits % 64) = block <<< 6 + bits % 64 :=
    (Nat.shiftLeft_add_eq_or_of_lt (Nat.mod_lt _ (by decide)) block).symm
  rw [take, if_neg hpad, hvalue, Option.map_some]
  dsimp only
  rw [hor, Nat.shiftLeft_eq]

lemma take_pad (block padding : ℕ) :
    take (block, padding) kPad = some (block * 64, padding + 1) := by
  rw [take, if_pos rfl, Nat.shiftLeft_eq]

lemma foldlM_digit (block padding bits : ℕ) (rest : Bytes) :
    (digit bits :: rest).foldlM take (block, padding) =
      rest.foldlM take (block * 64 + bits % 64, padding) := by
  rw [List.foldlM_cons, take_digit]
  rfl

lemma foldlM_pad (block padding : ℕ) (rest : Bytes) :
    (kPad :: rest).foldlM take (block, padding) = rest.foldlM take (block * 64, padding + 1) := by
  rw [List.foldlM_cons, take_pad]
  rfl

lemma block_eq (a b c : UInt8) : (a.toNat <<< 16) ||| (b.toNat <<< 8) ||| c.toNat =
    a.toNat * 65536 + b.toNat * 256 + c.toNat := by
  have hb := b.toNat_lt
  have hc := c.toNat_lt
  have hhigh : (a.toNat <<< 16) ||| (b.toNat <<< 8) = (a.toNat * 256 + b.toNat) <<< 8 := by
    rw [show a.toNat <<< 16 = a.toNat <<< 8 <<< 8 by rw [← Nat.shiftLeft_add],
      ← Nat.shiftLeft_or_distrib, ← Nat.shiftLeft_add_eq_or_of_lt hb]
    simp only [Nat.shiftLeft_eq]
  rw [hhigh, ← Nat.shiftLeft_add_eq_or_of_lt hc, Nat.shiftLeft_eq]
  ring

lemma bytesOfBlock_eq (block padding : ℕ) : bytesOfBlock block padding =
    UInt8.ofNat (block / 65536) ::
      ((if padding < 2 then [UInt8.ofNat (block / 256)] else []) ++
        if padding < 1 then [UInt8.ofNat block] else []) := by
  have h := byte_of_shiftRight block 0
  rw [Nat.shiftRight_zero, pow_zero, Nat.div_one] at h
  have hhigh : (2 : ℕ) ^ 16 = 65536 := rfl
  have hmiddle : (2 : ℕ) ^ 8 = 256 := rfl
  rw [bytesOfBlock, byte_of_shiftRight, byte_of_shiftRight, h, hhigh, hmiddle]

lemma ofNat_byte (b : UInt8) {n : ℕ} (h : n % 256 = b.toNat) : UInt8.ofNat n = b := by
  apply UInt8.toNat_inj.mp
  rw [UInt8.toNat_ofNat']
  exact h

/-- The bits of a block below `2 ^ 24` are put together again. -/
lemma digits_block {block : ℕ} (h : block < 2 ^ 24) :
    ((0 * 64 + (block >>> 18) % 64) * 64 + (block >>> 12) % 64) * 64 + (block >>> 6) % 64 =
      block / 64 := by
  simp only [Nat.shiftRight_eq_div_pow]
  omega

lemma decodeGroup_three (a b c : UInt8) :
    decodeGroup [digit ((a.toNat * 65536 + b.toNat * 256 + c.toNat) >>> 18),
      digit ((a.toNat * 65536 + b.toNat * 256 + c.toNat) >>> 12),
      digit ((a.toNat * 65536 + b.toNat * 256 + c.toNat) >>> 6),
      digit (a.toNat * 65536 + b.toNat * 256 + c.toNat)] = some [a, b, c] := by
  have ha := a.toNat_lt
  have hb := b.toNat_lt
  have hc := c.toNat_lt
  have hblock : a.toNat * 65536 + b.toNat * 256 + c.toNat < 2 ^ 24 := by omega
  have hbits := digits_block hblock
  rw [decodeGroup, foldlM_digit, foldlM_digit, foldlM_digit, foldlM_digit, hbits, List.foldlM_nil,
    Option.pure_def, Option.map_some, bytesOfBlock_eq]
  rw [ofNat_byte a (by omega), ofNat_byte b (by omega), ofNat_byte c (by omega)]
  rfl

lemma decodeGroup_two (a b : UInt8) :
    decodeGroup [digit ((a.toNat * 65536 + b.toNat * 256) >>> 18),
      digit ((a.toNat * 65536 + b.toNat * 256) >>> 12),
      digit ((a.toNat * 65536 + b.toNat * 256) >>> 6), kPad] = some [a, b] := by
  have ha := a.toNat_lt
  have hb := b.toNat_lt
  have hblock : a.toNat * 65536 + b.toNat * 256 < 2 ^ 24 := by omega
  have hbits := digits_block hblock
  rw [decodeGroup, foldlM_digit, foldlM_digit, foldlM_digit, foldlM_pad, hbits, List.foldlM_nil,
    Option.pure_def, Option.map_some, bytesOfBlock_eq]
  rw [ofNat_byte a (by omega), ofNat_byte b (by omega)]
  rfl

lemma decodeGroup_one (a : UInt8) :
    decodeGroup [digit ((a.toNat * 65536) >>> 18), digit ((a.toNat * 65536) >>> 12), kPad, kPad] =
      some [a] := by
  have ha := a.toNat_lt
  rw [decodeGroup, foldlM_digit, foldlM_digit, foldlM_pad, foldlM_pad, List.foldlM_nil,
    Option.pure_def, Option.map_some, bytesOfBlock_eq, Nat.shiftRight_eq_div_pow,
    Nat.shiftRight_eq_div_pow]
  rw [ofNat_byte a (by omega)]
  rfl

lemma length_encode (bytes : Bytes) : (encode bytes).length % 4 = 0 := by
  fun_induction encode bytes with
  | case1 a b c rest block ih =>
    simp only [List.length_cons]
    omega
  | case2 => simp
  | case3 => simp
  | case4 => rfl

lemma decodeGroups_encode (bytes : Bytes) : decodeGroups (encode bytes) = some bytes := by
  fun_induction encode bytes with
  | case1 a b c rest block ih =>
    rw [decodeGroups, show block = _ from block_eq a b c, decodeGroup_three, ih]
    rfl
  | case2 a b block =>
    have hblock : block = a.toNat * 65536 + b.toNat * 256 := by
      have h := block_eq a b 0
      simpa using h
    rw [decodeGroups, hblock, decodeGroup_two]
    rfl
  | case3 a block =>
    have hblock : block = a.toNat * 65536 := Nat.shiftLeft_eq _ _
    rw [decodeGroups, hblock, decodeGroup_one]
    rfl
  | case4 => rfl

/-! ### What is accepted -/

lemma decodeGroup_isSome (group : Bytes) :
    (decodeGroup group).isSome = true ↔ ∀ c ∈ group, c ∈ kAlphabet ∨ c = kPad := by
  have hfold : ∀ s, (group.foldlM take s).isSome = true ↔
      ∀ c ∈ group, c ∈ kAlphabet ∨ c = kPad := by
    induction group with
    | nil => simp
    | cons c group ih =>
      intro s
      have htake := take_isSome s c
      rw [List.foldlM_cons, List.forall_mem_cons]
      cases hs : take s c with
      | none =>
        rw [hs] at htake
        refine iff_of_false (by simp) fun h => ?_
        exact absurd (htake.mpr h.1) (by simp)
      | some s' =>
        rw [hs] at htake
        rw [Option.bind_eq_bind, Option.bind_some, ih]
        exact ⟨fun h => ⟨htake.mp rfl, h⟩, fun h => h.2⟩
  rw [decodeGroup, Option.isSome_map]
  exact hfold _

lemma decodeGroups_isSome (text : Bytes) (hlen : text.length % 4 = 0) :
    (decodeGroups text).isSome = true ↔ ∀ c ∈ text, c ∈ kAlphabet ∨ c = kPad := by
  fun_induction decodeGroups text with
  | case1 a b c d rest ih =>
    have hgroup := decodeGroup_isSome [a, b, c, d]
    have hrest := ih (by simp only [List.length_cons] at hlen; omega)
    have hsplit : a :: b :: c :: d :: rest = [a, b, c, d] ++ rest := rfl
    rw [hsplit, List.forall_mem_append, ← hgroup, ← hrest]
    cases decodeGroup [a, b, c, d] with
    | none => simp
    | some decoded => simp
  | case2 text hshort =>
    have hnil : text = [] := by
      match text, hshort with
      | [], _ => rfl
      | [a], _ => simp at hlen
      | [a, b], _ => simp at hlen
      | [a, b, c], _ => simp at hlen
      | a :: b :: c :: d :: rest, h => exact absurd rfl (h a b c d rest)
    simp [hnil]

theorem decode_isSome (text : Bytes) : (decode text).isSome = true ↔ ¬Refused text := by
  have hdvd : 4 ∣ text.length ↔ text.length % 4 = 0 := Nat.dvd_iff_mod_eq_zero
  rw [decode, Refused, hdvd, not_or, not_not, not_exists]
  split_ifs with hlen
  · exact iff_of_false (by simp) fun h => hlen h.1
  · rw [decodeGroups_isSome text (not_not.mp hlen)]
    refine ⟨fun h => ⟨not_not.mp hlen, ?_⟩, fun h c hc => ?_⟩
    · rintro c ⟨hc, hletter, hpad⟩
      exact (h c hc).elim hletter hpad
    · by_contra hnot
      exact h.2 c ⟨hc, not_or.mp hnot⟩

/-! ### The texts of the standard among them -/

lemma Encoded.not_refused {text : Bytes} (h : Encoded text) : ¬Refused text := by
  rw [Refused, not_or, not_not, not_exists]
  induction h with
  | nil => simp
  | one ha hb hc => simp [ha, hb, hc]
  | two ha hb => simp [ha, hb]
  | group ha hb hc hd hrest ih =>
    refine ⟨?_, ?_⟩
    · simp only [List.length_cons]
      have hdvd := ih.1
      omega
    · rintro x ⟨hx, hletter, hpad⟩
      simp only [List.mem_cons] at hx
      rcases hx with rfl | rfl | rfl | rfl | hx
      · exact hletter ha
      · exact hletter hb
      · exact hletter hc
      · exact hletter hd
      · exact ih.2 x ⟨hx, hletter, hpad⟩

/-- A letter in front does not change where the pads are. -/
lemma trailing_cons {c : UInt8} {text : Bytes} (hc : c ∈ kAlphabet) :
    Trailing (c :: text) ↔ Trailing text := by
  have hne : c ≠ kPad := fun h => pad_not_letter (h ▸ hc)
  constructor
  · intro h before behind heq
    exact h (c :: before) behind (congrArg _ heq)
  · intro h before behind heq
    cases before with
    | nil => exact absurd (List.cons.inj heq).1 hne
    | cons b before => exact h before behind (List.cons.inj heq).2

/-- With much behind it, a character is no pad. -/
lemma Trailing.letter {text : Bytes} {c : UInt8} (h : Trailing (c :: text))
    (hc : c ∈ kAlphabet ∨ c = kPad) (hlen : 2 ≤ text.length) : c ∈ kAlphabet := by
  rcases hc with hc | rfl
  · exact hc
  · rcases h [] text rfl with rfl | rfl <;> simp at hlen

lemma encoded_of_trailing (text : Bytes) (hrefused : ¬Refused text) (h : Trailing text) :
    Encoded text := by
  rw [Refused, not_or, not_not, not_exists] at hrefused
  obtain ⟨hlen, hall⟩ := hrefused
  have hok : ∀ c ∈ text, c ∈ kAlphabet ∨ c = kPad := by
    intro c hc
    by_contra hnot
    exact hall c ⟨hc, not_or.mp hnot⟩
  clear hall
  fun_induction decodeGroups text with
  | case1 a b c d rest ih =>
    simp only [List.forall_mem_cons] at hok
    obtain ⟨oka, okb, okc, okd, okrest⟩ := hok
    have ha := h.letter oka (by simp)
    have hb := ((trailing_cons ha).mp h).letter okb (by simp)
    have hcd := (trailing_cons hb).mp ((trailing_cons ha).mp h)
    cases rest with
    | nil =>
      -- the last group
      rcases okc with hc | rfl
      · rcases okd with hd | rfl
        · exact .group ha hb hc hd .nil
        · exact .one ha hb hc
      · rcases hcd [] [d] rfl with hnil | hpad
        · cases hnil
        · rw [List.singleton_inj.mp hpad]
          exact .two ha hb
    | cons e rest =>
      simp only [List.length_cons] at hlen
      have hc := hcd.letter okc (by simp)
      have hde := (trailing_cons hc).mp hcd
      have hrest : 3 ≤ rest.length := by omega
      have hd := hde.letter okd (by simp only [List.length_cons]; omega)
      exact .group ha hb hc hd (ih ((trailing_cons hd).mp hde)
        (by simp only [List.length_cons]; omega) okrest)
  | case2 text hshort =>
    match text, hshort with
    | [], _ => exact .nil
    | [a], _ => simp at hlen
    | [a, b], _ => simp at hlen
    | [a, b, c], _ => simp at hlen
    | a :: b :: c :: d :: rest, hshort => exact absurd rfl (hshort a b c d rest)

lemma Encoded.trailing {text : Bytes} (h : Encoded text) : Trailing text := by
  induction h with
  | nil =>
    intro before behind heq
    cases before <;> cases heq
  | one ha hb hc =>
    rw [trailing_cons ha, trailing_cons hb, trailing_cons hc]
    intro before behind heq
    rcases before with _ | ⟨x, _ | ⟨y, before⟩⟩ <;> simp at heq
    exact .inl heq
  | two ha hb =>
    rw [trailing_cons ha, trailing_cons hb]
    intro before behind heq
    rcases before with _ | ⟨x, _ | ⟨y, before⟩⟩ <;> simp at heq
    · exact .inr heq.symm
    · exact .inl heq.2
  | group ha hb hc hd hrest ih =>
    rwa [trailing_cons ha, trailing_cons hb, trailing_cons hc, trailing_cons hd]

/-- What was encoded is read back, and what is accepted is a text of the standard, exactly when it
is refused for another reason or its pads are at its end. -/
theorem decode_exact (bytes text : Bytes) :
    decode (encode bytes) = some bytes ∧
    (((decode text).isSome = true ↔ Encoded text) ↔ Refused text ∨ Trailing text) := by
  constructor
  · rw [decode, if_neg (not_not.mpr (length_encode bytes))]
    exact decodeGroups_encode bytes
  · rw [decode_isSome]
    constructor
    · intro h
      by_contra hnot
      obtain ⟨hrefused, htrailing⟩ := not_or.mp hnot
      exact htrailing (h.mp hrefused).trailing
    · intro h
      refine ⟨fun hrefused => ?_, Encoded.not_refused⟩
      exact encoded_of_trailing text hrefused (h.resolve_left hrefused)

/-- `=AAA` is decoded, and so is `====`. -/
theorem pads_decoded : ¬(∀ text, (decode text).isSome = true ↔ Encoded text) ∧
    decode (bytesOf "====") = some [0] := by
  refine ⟨fun h => ?_, by decide +kernel⟩
  have hencoded := (h (bytesOf "=AAA")).mp (by decide +kernel)
  have htrailing := hencoded.trailing [] (bytesOf "AAA") (by decide +kernel)
  exact absurd htrailing (by decide +kernel)

end Base64

end Text

end ArgusBackend
