import Mathlib.Data.List.Basic

/-!
# UTF-8 and cuts

A text is valid UTF-8 when it is the encoding of some characters.  It can be cut before a byte
exactly when that byte starts a character.

* `Utf8.Valid.split` : both sides of a cut before a first byte are valid;
* `Utf8.Valid.isFirst_of_take` : a cut that leaves a valid beginning is before a first byte.
-/

namespace ArgusBackend

namespace Utf8

/-- The text is the encoding of some characters. -/
def Valid (text : List UInt8) : Prop :=
  ∃ chars : List Char, text = chars.flatMap String.utf8EncodeChar

/-- The text ends at `n`, or a character starts there. -/
def Cut (text : List UInt8) (n : ℕ) : Prop := ∀ b, text[n]? = some b → b.IsUTF8FirstByte

variable {text rest : List UInt8} {n : ℕ}

@[simp]
lemma valid_nil : Valid [] := ⟨[], rfl⟩

lemma valid_encode (c : Char) : Valid (String.utf8EncodeChar c) := ⟨[c], by simp⟩

lemma Valid.append (h : Valid text) (hrest : Valid rest) : Valid (text ++ rest) := by
  obtain ⟨chars, rfl⟩ := h
  obtain ⟨more, rfl⟩ := hrest
  exact ⟨chars ++ more, by simp⟩

/-- The first character of a text is the only one it can begin with. -/
lemma encode_append_inj {c d : Char} {x y : List UInt8}
    (h : String.utf8EncodeChar c ++ x = String.utf8EncodeChar d ++ y) : c = d := by
  have hc := ByteArray.utf8DecodeChar?_utf8EncodeChar_append (b := x.toByteArray) (c := c)
  have hd := ByteArray.utf8DecodeChar?_utf8EncodeChar_append (b := y.toByteArray) (c := d)
  rw [← List.toByteArray_append] at hc hd
  rw [h, hd] at hc
  exact (Option.some.inj hc).symm

lemma Valid.exists_cons (h : Valid text) (hne : text ≠ []) :
    ∃ c more, text = String.utf8EncodeChar c ++ more ∧ Valid more := by
  obtain ⟨chars, rfl⟩ := h
  cases chars with
  | nil => exact absurd rfl hne
  | cons c chars => exact ⟨c, chars.flatMap String.utf8EncodeChar, by simp, chars, rfl⟩

lemma Valid.of_encode_append {c : Char} (h : Valid (String.utf8EncodeChar c ++ rest)) :
    Valid rest := by
  have hne : String.utf8EncodeChar c ++ rest ≠ [] := by
    simp [String.utf8EncodeChar_ne_nil]
  obtain ⟨d, more, heq, hmore⟩ := h.exists_cons hne
  obtain rfl := encode_append_inj heq
  rw [List.append_cancel_left heq]
  exact hmore

lemma isFirst_getElem? {c : Char} {b : UInt8} (h : (String.utf8EncodeChar c)[n]? = some b) :
    b.IsUTF8FirstByte ↔ n = 0 := by
  obtain ⟨hn, rfl⟩ := List.getElem?_eq_some_iff.mp h
  exact UInt8.isUTF8FirstByte_getElem_utf8EncodeChar

lemma Valid.split (h : Valid text) (hcut : Cut text n) :
    Valid (text.take n) ∧ Valid (text.drop n) := by
  obtain ⟨chars, rfl⟩ := h
  induction chars generalizing n with
  | nil => simp
  | cons c chars ih =>
    rw [List.flatMap_cons] at hcut ⊢
    by_cases hn : n < (String.utf8EncodeChar c).length
    · -- the cut is inside this character or before it
      have hzero : n = 0 := by
        refine (isFirst_getElem? (List.getElem?_eq_getElem hn)).mp (hcut _ ?_)
        rw [List.getElem?_append_left hn, List.getElem?_eq_getElem hn]
      subst hzero
      exact ⟨by simp, ⟨c :: chars, by simp⟩⟩
    · have hle := Nat.le_of_not_lt hn
      have hrest : Cut (chars.flatMap String.utf8EncodeChar)
          (n - (String.utf8EncodeChar c).length) := by
        intro b hb
        exact hcut b (by rwa [List.getElem?_append_right hle])
      obtain ⟨htake, hdrop⟩ := ih hrest
      rw [List.take_append, List.drop_append, List.take_of_length_le hle,
        List.drop_eq_nil_of_le hle]
      exact ⟨(valid_encode c).append htake, by simpa using hdrop⟩

lemma Valid.isFirst_of_take (h : Valid text) (htake : Valid (text.take n)) : Cut text n := by
  obtain ⟨chars, rfl⟩ := h
  induction chars generalizing n with
  | nil =>
    intro b hb
    simp at hb
  | cons c chars ih =>
    rw [List.flatMap_cons] at htake ⊢
    by_cases hn : n < (String.utf8EncodeChar c).length
    · rcases Nat.eq_zero_or_pos n with rfl | hpos
      · intro b hb
        rw [List.getElem?_append_left hn] at hb
        exact (isFirst_getElem? hb).mpr rfl
      · -- the beginning of one character would be another one
        rw [List.take_append_of_le_length (Nat.le_of_lt hn)] at htake
        have hne : (String.utf8EncodeChar c).take n ≠ [] := by
          rw [Ne, List.take_eq_nil_iff]
          exact not_or.mpr ⟨Nat.ne_of_gt hpos, String.utf8EncodeChar_ne_nil⟩
        obtain ⟨d, more, heq, -⟩ := htake.exists_cons hne
        have hsplit := List.take_append_drop n (String.utf8EncodeChar c)
        rw [heq, List.append_assoc] at hsplit
        have hcd : c = d := encode_append_inj (x := []) (by rw [List.append_nil, ← hsplit])
        have hlen := congrArg List.length heq
        rw [List.length_take, List.length_append, hcd] at hlen
        rw [hcd] at hn
        omega
    · have hle := Nat.le_of_not_lt hn
      rw [List.take_append, List.take_of_length_le hle] at htake
      intro b hb
      rw [List.getElem?_append_right hle] at hb
      exact ih htake.of_encode_append b hb

/-! ### ASCII bytes -/

lemma encode_ascii {b : UInt8} (h : b < 0x80) :
    String.utf8EncodeChar (Char.ofNat b.toNat) = [b] := by
  have hall : ∀ n < 128, String.utf8EncodeChar (Char.ofNat n) = [UInt8.ofNat n] := by
    decide +kernel
  have hb := hall b.toNat (UInt8.lt_iff_toNat_lt.mp h)
  rwa [UInt8.ofNat_toNat] at hb

lemma valid_ascii {b : UInt8} (h : b < 0x80) : Valid [b] :=
  encode_ascii h ▸ valid_encode (Char.ofNat b.toNat)

lemma isFirst_ascii {b : UInt8} (h : b < 0x80) : b.IsUTF8FirstByte := by
  refine (isFirst_getElem? (n := 0) (c := Char.ofNat b.toNat) ?_).mpr rfl
  rw [encode_ascii h]
  rfl

lemma Valid.of_ascii_cons {b : UInt8} (h : Valid (b :: text)) (hb : b < 0x80) : Valid text := by
  refine Valid.of_encode_append (c := Char.ofNat b.toNat) ?_
  rwa [encode_ascii hb]

lemma Valid.of_concat_ascii {b : UInt8} (h : Valid (text ++ [b])) (hb : b < 0x80) :
    Valid text := by
  have hsplit := h.split (n := text.length) fun b' hb' => by
    rw [List.getElem?_append_right (Nat.le_refl _), Nat.sub_self] at hb'
    exact Option.some.inj hb' ▸ isFirst_ascii hb
  simpa using hsplit.1

/-- A character that has an ASCII byte is that byte. -/
lemma encode_eq_of_mem_ascii {c : Char} {b : UInt8} (hmem : b ∈ String.utf8EncodeChar c)
    (hb : b < 0x80) : String.utf8EncodeChar c = [b] := by
  obtain ⟨n, hn⟩ := List.getElem?_of_mem hmem
  obtain rfl := (isFirst_getElem? hn).mp (isFirst_ascii hb)
  obtain ⟨more, hmore⟩ : ∃ more, String.utf8EncodeChar c = b :: more := by
    cases henc : String.utf8EncodeChar c with
    | nil => exact absurd henc String.utf8EncodeChar_ne_nil
    | cons b' more =>
      rw [henc] at hn
      exact ⟨more, by rw [Option.some.inj hn]⟩
  have hc : c = Char.ofNat b.toNat := by
    refine encode_append_inj (x := []) (y := more) ?_
    rw [encode_ascii hb, List.append_nil, hmore]
    rfl
  rw [hc, encode_ascii hb]

/-- Changing ASCII bytes to others keeps a text valid. -/
lemma Valid.map {f : UInt8 → UInt8} (h : Valid text) (hascii : ∀ b < 0x80, f b < 0x80)
    (hother : ∀ b, ¬b < 0x80 → f b = b) : Valid (text.map f) := by
  obtain ⟨chars, rfl⟩ := h
  induction chars with
  | nil => exact valid_nil
  | cons c chars ih =>
    rw [List.flatMap_cons, List.map_append]
    refine Valid.append ?_ ih
    by_cases hex : ∃ b ∈ String.utf8EncodeChar c, b < 0x80
    · obtain ⟨b, hmem, hb⟩ := hex
      rw [encode_eq_of_mem_ascii hmem hb]
      exact valid_ascii (hascii b hb)
    · have hsame : (String.utf8EncodeChar c).map f = String.utf8EncodeChar c :=
        (List.map_congr_left fun b hmem => hother b fun hb => hex ⟨b, hmem, hb⟩).trans
          (List.map_id' _)
      rw [hsame]
      exact valid_encode c

end Utf8

end ArgusBackend
