import ArgusBackend.Library.Numerals
import ArgusBackend.Library.Words
import ArgusBackend.Text.SecretPhrase
import Mathlib.Data.Set.Function

/-!
# Secret phrases

A secret phrase is stored as the hash of its words.  What is said is screened for it by the hashes
of as many words in a row.

* `words`, `joined` : the words of a text, and what is hashed of them;
* `sealed`, `encode`, `decode` : the stored key;
* `spokenIn` : whether an utterance has the phrase;
* `phrase_recognised` : it has when it is said, and a stored key is read back.
-/

namespace ArgusBackend

namespace Text

namespace SecretPhrase

open Numerals

/-! ### The words of a text -/

/-- The general categories of Unicode. -/
inductive Category where
  | cn | lu | ll | lt | lm | lo | mn | mc | me | nd | nl | no | pc | pd | ps | pe | pi | pf | po
  | sm | sc | sk | so | zs | zl | zp | cc | cf | cs | co
  deriving DecidableEq, Repr

/-- What is used of utf8proc: `utf8proc_map` with `kFoldOptions`, `utf8proc_iterate` and
`utf8proc_category`, and what is documented of them. -/
structure Utf8proc where
  map : Bytes → Option Bytes
  /-- the bytes of the first codepoint, and the codepoint -/
  iterate : Bytes → Option (ℕ × ℤ)
  category : ℤ → Category
  iterate_size : ∀ {text read codepoint}, iterate text = some (read, codepoint) →
    0 < read ∧ read ≤ text.length
  iterate_blank : ∀ {text read codepoint}, iterate text = some (read, codepoint) →
    0x20 ∈ text.take read → codepoint = 0x20
  category_blank : category 0x20 = .zs

variable (U : Utf8proc)

/-- A text without case and accents; one that cannot be mapped is empty. -/
def folded (text : Bytes) : Bytes := if text = [] then [] else (U.map text).getD []

/-- A letter or a number. -/
def wordCodepoint (codepoint : ℤ) : Bool :=
  match U.category codepoint with
  | .lu | .ll | .lt | .lm | .lo | .nd | .nl | .no => true
  | _ => false

/-- The loop over the codepoints: the word that is read, the words before it, and the rest. -/
def wordsFrom (current : Bytes) (out : List Bytes) (text : Bytes) : List Bytes :=
  if text = [] then if current = [] then out else out ++ [current]
  else
    match _hread : U.iterate text with
    | none => []
    | some (read, codepoint) =>
      if wordCodepoint U codepoint then
        wordsFrom (current ++ text.take read) out (text.drop read)
      else if current = [] then wordsFrom [] out (text.drop read)
      else wordsFrom [] (out ++ [current]) (text.drop read)
termination_by text.length
decreasing_by
  all_goals
    have hsize := U.iterate_size _hread
    rw [List.length_drop]
    omega

/-- The words of a text. -/
def words (text : Bytes) : List Bytes := wordsFrom U [] [] (folded U text)

/-- Words with a space between them. -/
def joined (parts : List Bytes) : Bytes :=
  parts.foldl (fun out part => (if out = [] then out else out ++ [0x20]) ++ part) []

/-! ### Keys -/

/-- What a stored phrase begins with. -/
def kScheme : Bytes := ascii "phrase-pbkdf2-sha256"

/-- The fewest iterations. -/
def kMinIterations : ℤ := 1024

/-- The most iterations. -/
def kMaxIterations : ℤ := 1000000

/-- The bytes of a salt. -/
def kSaltBytes : ℕ := 16

/-- The fewest words of a phrase. -/
def kMinWords : ℕ := 3

/-- The most words of a phrase. -/
def kMaxWords : ℕ := 12

/-- How many words of an utterance are looked at. -/
def kMaxScreenedWords : ℕ := 96

/-- The bytes of a digest. -/
def kDigestBytes : ℕ := 32

/-- `std::array<std::uint8_t, 32>` -/
abbrev Digest := { bytes : Bytes // bytes.length = kDigestBytes }

/-- What is stored of a phrase. -/
structure PhraseKey where
  iterations : ℤ
  salt : Bytes
  digest : Digest
  words : ℕ
  deriving DecidableEq

lemma length_sha256 (message : Bytes) : (Sha2.sha256 message).length = kDigestBytes := by
  simp [Sha2.sha256, Sha2.Words.bytes, Sha2.beBytes, kDigestBytes]

lemma length_sign (key message : Bytes) :
    ((Hmac.new key).sign message).1.length = kDigestBytes := by
  rw [sign_eq]
  exact length_sha256 _

lemma length_pbkdf2Sha256 (password salt : Bytes) (iterations : ℤ) :
    (pbkdf2Sha256 password salt iterations).length = kDigestBytes := by
  have hrounds : ∀ (count : ℕ) (block result : Bytes), result.length = kDigestBytes →
      (rounds (Hmac.new password) block result count).length = kDigestBytes := by
    intro count
    induction count with
    | zero => exact fun _ _ h => h
    | succ count ih =>
      intro block result h
      refine ih _ _ ?_
      rw [List.length_zipWith, h, length_sign, Nat.min_self]
  exact hrounds _ _ _ (length_sign _ _)

/-- `seal` -/
def sealed (phrase salt : Bytes) (iterations : ℤ) : Option PhraseKey :=
  let parts := words U phrase
  if parts.length < kMinWords ∨ kMaxWords < parts.length ∨ salt.length ≠ kSaltBytes ∨
      iterations < kMinIterations ∨ kMaxIterations < iterations then none
  else
    some { iterations, salt
           digest := ⟨pbkdf2Sha256 (joined parts) salt iterations, length_pbkdf2Sha256 ..⟩
           words := parts.length }

/-- `kHexDigits[value]` -/
def hexDigit (value : ℕ) : UInt8 := UInt8.ofNat (if value < 10 then 48 + value else 87 + value)

/-- Bytes in lower-case hexadecimal. -/
def hexOf (bytes : Bytes) : Bytes :=
  bytes.flatMap fun byte => [hexDigit (byte.toNat >>> 4), hexDigit (byte.toNat &&& 0x0f)]

/-- The stored form of a key. -/
def encode (key : PhraseKey) : Bytes :=
  kScheme ++ [0x24] ++ toText key.iterations ++ [0x24] ++ toText key.words ++ [0x24] ++
    hexOf key.salt ++ [0x24] ++ hexOf key.digest

/-- The loop over the pairs; the number of characters is even. -/
def bytesOfPairs : Bytes → Option Bytes
  | high :: low :: hex =>
    match fromChars 16 0 4294967295 [high, low] with
    | some (value, []) => (bytesOfPairs hex).map (UInt8.ofNat value.toNat :: ·)
    | _ => none
  | _ => some []

/-- The bytes of a hexadecimal text. -/
def bytesOf (hex : Bytes) : Option Bytes :=
  if hex.length % 2 ≠ 0 then none else bytesOfPairs hex

/-- The fields of a stored form. -/
def fieldsOf (stored : Bytes) : List Bytes := if stored = [] then [] else Words.pieces 0x24 stored

/-- A number of a type with the bounds. -/
def numberOf (lo hi : ℤ) (text : Bytes) : Option ℤ :=
  match fromChars 10 lo hi text with
  | some (value, []) => some value
  | _ => none

/-- The key of a stored form. -/
def decode (stored : Bytes) : Option PhraseKey :=
  match fieldsOf stored with
  | [scheme, iterations, count, salt, digest] =>
    if scheme ≠ kScheme then none
    else
      match numberOf (-2147483648) 2147483647 iterations,
        numberOf 0 18446744073709551615 count, bytesOf salt, bytesOf digest with
      | some iterations, some count, some salt, some digest =>
        if iterations < kMinIterations ∨ kMaxIterations < iterations ∨ count < kMinWords ∨
            kMaxWords < count ∨ salt.length ≠ kSaltBytes then none
        else if hsize : digest.length = kDigestBytes then
          some { iterations, salt, digest := ⟨digest, hsize⟩, words := count.toNat }
        else none
      | _, _, _, _ => none
  | _ => none

/-! ### Screening -/

/-- The digests are equal, in a comparison that does not stop early. -/
def sameDigest (key : PhraseKey) (candidate : Bytes) : Bool :=
  (List.zipWith (fun a b => a.toNat ^^^ b.toNat) key.digest.1 candidate).foldl (· ||| ·) 0 = 0

/-- The last words. -/
def screened (said : List Bytes) : List Bytes :=
  if kMaxScreenedWords < said.length then said.drop (said.length - kMaxScreenedWords) else said

/-- The phrase is among the words of an utterance. -/
def spokenIn (key : PhraseKey) (utterance : Bytes) : Bool :=
  if key.words < kMinWords ∨ kMaxWords < key.words then false
  else
    let said := screened (words U utterance)
    (List.range (said.length + 1 - key.words)).any fun start =>
      let window := joined ((said.drop start).take key.words)
      sameDigest key (pbkdf2Sha256 window key.salt key.iterations)

/-! ### Words are joined without loss -/

section Joined

variable {U} {current text w : Bytes} {out ws ws' : List Bytes}

/-- What a word has: a letter, and no blank. -/
def Proper (w : Bytes) : Prop := w ≠ [] ∧ 0x20 ∉ w

lemma wordsFrom_none (hne : text ≠ []) (hread : U.iterate text = none) :
    wordsFrom U current out text = [] := by
  rw [wordsFrom, if_neg hne]
  split
  next => rfl
  next h => simp [hread] at h

lemma wordsFrom_some {read : ℕ} {codepoint : ℤ} (hne : text ≠ [])
    (hread : U.iterate text = some (read, codepoint)) :
    wordsFrom U current out text =
      if wordCodepoint U codepoint then
        wordsFrom U (current ++ text.take read) out (text.drop read)
      else if current = [] then wordsFrom U [] out (text.drop read)
      else wordsFrom U [] (out ++ [current]) (text.drop read) := by
  rw [wordsFrom, if_neg hne]
  split
  next h => simp [hread] at h
  next h =>
    rw [hread] at h
    obtain ⟨rfl, rfl⟩ := Prod.mk.inj (Option.some.inj h)
    rfl

lemma proper_wordsFrom (hcurrent : 0x20 ∉ current) (hout : ∀ w ∈ out, Proper w) :
    ∀ w ∈ wordsFrom U current out text, Proper w := by
  have hwith : ∀ {out : List Bytes} {current : Bytes}, 0x20 ∉ current → current ≠ [] →
      (∀ w ∈ out, Proper w) → ∀ w ∈ out ++ [current], Proper w := by
    intro out current hcurrent hne hout w hw
    rcases List.mem_append.mp hw with hw | hw
    · exact hout w hw
    · rw [List.mem_singleton.mp hw]
      exact ⟨hne, hcurrent⟩
  have hnil : (0x20 : UInt8) ∉ ([] : Bytes) := List.not_mem_nil
  induction current, out, text using wordsFrom.induct U with
  | case1 out =>
    rw [wordsFrom, if_pos rfl, if_pos rfl]
    exact hout
  | case2 current out hne =>
    rw [wordsFrom, if_pos rfl, if_neg hne]
    exact hwith hcurrent hne hout
  | case3 current out text hne hread =>
    rw [wordsFrom_none hne hread]
    exact fun _ hw => absurd hw List.not_mem_nil
  | case4 current out text hne read codepoint hread hword ih =>
    rw [wordsFrom_some hne hread, if_pos hword]
    refine ih (fun hmem => ?_) hout
    rcases List.mem_append.mp hmem with hmem | hmem
    · exact hcurrent hmem
    · -- a blank is no letter
      obtain rfl := U.iterate_blank hread hmem
      simp [wordCodepoint, U.category_blank] at hword
  | case5 out text hne read codepoint hread hword ih =>
    rw [wordsFrom_some hne hread, if_neg hword, if_pos rfl]
    exact ih hnil hout
  | case6 current out text hne read codepoint hread hword hcur ih =>
    rw [wordsFrom_some hne hread, if_neg hword, if_neg hcur]
    exact ih hnil (hwith hcurrent hcur hout)

lemma proper_words (text : Bytes) : ∀ w ∈ words U text, Proper w :=
  proper_wordsFrom List.not_mem_nil fun _ hw => absurd hw List.not_mem_nil

lemma join_ne_nil (hne : ws ≠ []) (hws : ∀ w ∈ ws, Proper w) :
    Words.join (0x20 : UInt8) ws ≠ [] := by
  obtain ⟨w, ws, rfl⟩ := List.exists_cons_of_ne_nil hne
  have hw := (hws w List.mem_cons_self).1
  cases ws with
  | nil => exact hw
  | cons w' ws => simp [Words.join, hw]

/-- The words that were joined go on with those that are left. -/
lemma foldl_joined (hne : out ≠ []) (hout : ∀ w ∈ out, Proper w) (hws : ∀ w ∈ ws, Proper w) :
    ws.foldl (fun out part => (if out = [] then out else out ++ [0x20]) ++ part)
      (Words.join 0x20 out) = Words.join 0x20 (out ++ ws) := by
  induction ws generalizing out with
  | nil => rw [List.append_nil, List.foldl_nil]
  | cons w ws ih =>
    rw [List.forall_mem_cons] at hws
    have hstep := @ih (out ++ [w]) (by simp) (fun w' hw' => by
      rcases List.mem_append.mp hw' with hw' | hw'
      · exact hout w' hw'
      · rw [List.mem_singleton.mp hw']
        exact hws.1) hws.2
    rw [Words.join_concat hne, List.append_assoc, List.singleton_append] at hstep
    rw [List.foldl_cons, if_neg (join_ne_nil hne hout), List.append_assoc, List.singleton_append,
      hstep]

lemma joined_eq (hws : ∀ w ∈ ws, Proper w) : joined ws = Words.join 0x20 ws := by
  cases ws with
  | nil => rfl
  | cons w ws =>
    rw [List.forall_mem_cons] at hws
    rw [joined, List.foldl_cons, if_pos rfl, List.nil_append]
    exact @foldl_joined [w] ws (List.cons_ne_nil _ _) (by simpa using hws.1) hws.2

/-- Joined words are told apart. -/
lemma joined_inj (hws : ∀ w ∈ ws, Proper w) (hws' : ∀ w ∈ ws', Proper w) (hne : ws ≠ [])
    (hne' : ws' ≠ []) (h : joined ws = joined ws') : ws = ws' := by
  have hpieces := congrArg (Words.pieces 0x20) h
  rwa [joined_eq hws, joined_eq hws', Words.pieces_join (fun w hw => (hws w hw).2) hne,
    Words.pieces_join (fun w hw => (hws' w hw).2) hne'] at hpieces

end Joined

/-! ### Screening -/

section Screening

variable {U} {key : PhraseKey} {candidate utterance phrase salt : Bytes} {iterations : ℤ}

lemma sameDigest_iff (hsize : candidate.length = kDigestBytes) :
    sameDigest key candidate ↔ key.digest.1 = candidate := by
  have hfold : ∀ (a b : Bytes) (acc : ℕ), a.length = b.length →
      ((List.zipWith (fun a b => a.toNat ^^^ b.toNat) a b).foldl (· ||| ·) acc = 0 ↔
        acc = 0 ∧ a = b) := by
    intro a
    induction a with
    | nil =>
      intro b acc h
      rw [List.length_eq_zero_iff.mp h.symm]
      simp
    | cons x a ih =>
      intro b acc h
      obtain ⟨y, b, rfl⟩ := List.exists_cons_of_length_eq_add_one h.symm
      have hxor : x.toNat ^^^ y.toNat = 0 ↔ x = y := by
        rw [← UInt8.toNat_xor, ← UInt8.xor_eq_zero_iff, ← UInt8.toNat_inj]
        rfl
      rw [List.zipWith_cons_cons, List.foldl_cons, ih b _ (by simpa using h), Nat.or_eq_zero_iff,
        hxor, List.cons.injEq, and_assoc]
  rw [sameDigest, decide_eq_true_eq, hfold _ _ _ (key.digest.2.trans hsize.symm)]
  exact and_iff_right rfl

lemma screened_suffix (said : List Bytes) : screened said <:+ said := by
  unfold screened
  split_ifs
  · exact List.drop_suffix _ _
  · exact List.suffix_refl _

/-- Some window of the last words has the digest. -/
lemma spokenIn_iff (hmin : kMinWords ≤ key.words) (hmax : key.words ≤ kMaxWords) :
    spokenIn U key utterance ↔ ∃ window, window.length = key.words ∧
      window <:+: screened (words U utterance) ∧
        key.digest.1 = pbkdf2Sha256 (joined window) key.salt key.iterations := by
  unfold spokenIn
  rw [if_neg (by omega)]
  simp only [List.any_eq_true, List.mem_range, sameDigest_iff (length_pbkdf2Sha256 ..)]
  generalize screened (words U utterance) = said
  constructor
  · rintro ⟨start, hstart, hdigest⟩
    have hlength : ((said.drop start).take key.words).length = key.words := by
      rw [List.length_take, List.length_drop]
      omega
    refine ⟨_, hlength, Words.infix_iff_window.mpr ⟨start, ?_, ?_⟩, hdigest⟩
    · rwa [hlength]
    · rw [hlength]
  · rintro ⟨window, hlength, hwithin, hdigest⟩
    obtain ⟨start, hstart, hwindow⟩ := Words.infix_iff_window.mp hwithin
    rw [hlength] at hstart hwindow
    exact ⟨start, hstart, hwindow.symm ▸ hdigest⟩

/-- A key with the bounds of `sealed`. -/
structure PhraseKey.Bounded (key : PhraseKey) : Prop where
  min_iterations : kMinIterations ≤ key.iterations
  max_iterations : key.iterations ≤ kMaxIterations
  min_words : kMinWords ≤ key.words
  max_words : key.words ≤ kMaxWords
  salt : key.salt.length = kSaltBytes

lemma sealed_spec (h : sealed U phrase salt iterations = some key) :
    key.Bounded ∧ key.words = (words U phrase).length ∧
      key.digest.1 = pbkdf2Sha256 (joined (words U phrase)) key.salt key.iterations := by
  unfold sealed at h
  dsimp only at h
  split_ifs at h with hout
  simp only [not_or, not_lt, not_not] at hout
  obtain ⟨hmin, hmax, hsalt, hmin', hmax'⟩ := hout
  obtain rfl := Option.some.inj h
  exact ⟨⟨hmin', hmax', hmin, hmax, hsalt⟩, rfl, rfl⟩

/-- What is hashed when an utterance is screened for a phrase, and when the phrase was sealed. -/
def compared (U : Utf8proc) (phrase utterance : Bytes) : Set Bytes :=
  {password | password = joined (words U phrase) ∨ ∃ window, window <:+: words U utterance ∧
    window.length = (words U phrase).length ∧ password = joined window}

theorem spokenIn_sealed (h : sealed U phrase salt iterations = some key)
    (hinj : (compared U phrase utterance).InjOn fun password =>
      pbkdf2Sha256 password key.salt key.iterations) :
    spokenIn U key utterance ↔ words U phrase <:+: screened (words U utterance) := by
  obtain ⟨hbounded, hwords, hdigest⟩ := sealed_spec h
  rw [spokenIn_iff hbounded.min_words hbounded.max_words, hdigest]
  have hlength : (words U phrase).length ≠ 0 := by
    have hmin := hbounded.min_words
    rw [hwords, kMinWords] at hmin
    omega
  constructor
  · rintro ⟨window, hsize, hwithin, hsame⟩
    rw [hwords] at hsize
    have hwithin' := hwithin.trans (screened_suffix _).isInfix
    have hjoined : joined (words U phrase) = joined window :=
      hinj (.inl rfl) (.inr ⟨window, hwithin', hsize, rfl⟩) hsame
    have hproper : ∀ w ∈ window, Proper w := fun w hw => proper_words _ w (hwithin'.subset hw)
    rwa [joined_inj (proper_words phrase) hproper (fun hnil => by simp [hnil] at hlength)
      (fun hnil => by simp [hnil] at hsize; omega) hjoined]
  · exact fun hwithin => ⟨words U phrase, hwords.symm, hwithin, rfl⟩

end Screening

/-! ### Keys are read back -/

section Stored

variable {key : PhraseKey} {n : ℕ} {stored : Bytes}

lemma digitOf_hexDigit (hn : n < 16) : digitOf (hexDigit n) = n := by
  interval_cases n <;> decide

lemma hexDigit_ne (hn : n < 16) : hexDigit n ≠ 0x24 := by
  interval_cases n <;> decide

lemma length_hexOf (bytes : Bytes) : (hexOf bytes).length = 2 * bytes.length := by
  induction bytes with
  | nil => rfl
  | cons b bytes ih =>
    rw [hexOf, List.flatMap_cons, List.length_append, List.length_cons, ← hexOf, ih]
    simp only [List.length_cons, List.length_nil]
    omega

lemma nibbles (b : UInt8) : b.toNat >>> 4 < 16 ∧ b.toNat &&& 0x0f < 16 ∧
    16 * (b.toNat >>> 4) + (b.toNat &&& 0x0f) = b.toNat := by
  have hlt := b.toNat_lt
  rw [Nat.shiftRight_eq_div_pow, show (0x0f : ℕ) = 2 ^ 4 - 1 from rfl,
    Nat.and_two_pow_sub_one_eq_mod]
  omega

lemma bytesOf_hexOf (bytes : Bytes) : bytesOf (hexOf bytes) = some bytes := by
  have hpairs : bytesOfPairs (hexOf bytes) = some bytes := by
    induction bytes with
    | nil => rfl
    | cons b bytes ih =>
      obtain ⟨hhigh, hlow, hvalue⟩ := nibbles b
      have hread : fromChars 16 0 4294967295
          [hexDigit (b.toNat >>> 4), hexDigit (b.toNat &&& 0x0f)] = some ((b.toNat : ℤ), []) := by
        have hval : value 16 [hexDigit (b.toNat >>> 4), hexDigit (b.toNat &&& 0x0f)] =
            b.toNat := by
          simp only [value, List.foldl_cons, List.foldl_nil, digitOf_hexDigit hhigh,
            digitOf_hexDigit hlow]
          omega
        have hlt := b.toNat_lt
        have h : fromChars 16 0 4294967295
            ([hexDigit (b.toNat >>> 4), hexDigit (b.toNat &&& 0x0f)] ++ []) =
              some ((value 16 [hexDigit (b.toNat >>> 4), hexDigit (b.toNat &&& 0x0f)] : ℤ), []) :=
          fromChars_digits (List.cons_ne_nil _ _) (by
              simp [digitOf_hexDigit hhigh, digitOf_hexDigit hlow, hhigh, hlow])
            (by norm_num) (by simp) (by rw [hval]; omega) (by rw [hval]; omega)
        rwa [hval, List.append_nil] at h
      rw [hexOf, List.flatMap_cons, ← hexOf, List.cons_append, List.cons_append, List.nil_append,
        bytesOfPairs, hread]
      dsimp only
      rw [ih, Option.map_some, Int.toNat_natCast, UInt8.ofNat_toNat]
  rw [bytesOf, if_neg (by rw [length_hexOf]; omega), hpairs]

lemma not_mem_hexOf (bytes : Bytes) : 0x24 ∉ hexOf bytes := by
  intro hmem
  obtain ⟨b, -, hb⟩ := List.mem_flatMap.mp hmem
  obtain ⟨hhigh, hlow, -⟩ := nibbles b
  rcases List.mem_cons.mp hb with heq | hb
  · exact hexDigit_ne hhigh heq.symm
  · exact hexDigit_ne hlow (List.mem_singleton.mp hb).symm

lemma numberOf_toText {lo hi k : ℤ} (hk : 0 ≤ k) (hlo : lo ≤ k) (hhi : k ≤ hi) :
    numberOf lo hi (toText k) = some k := by
  rw [numberOf, fromChars_toText hk hlo hhi]

theorem decode_encode (hkey : key.Bounded) : decode (encode key) = some key := by
  have hiterations : 0 ≤ key.iterations := le_trans (by decide) hkey.min_iterations
  have hwords : (0 : ℤ) ≤ key.words := Int.natCast_nonneg _
  have hencode : encode key = Words.join 0x24
      [kScheme, toText key.iterations, toText key.words, hexOf key.salt, hexOf key.digest] := by
    simp [encode, Words.join]
  have hfields : fieldsOf (encode key) =
      [kScheme, toText key.iterations, toText key.words, hexOf key.salt, hexOf key.digest] := by
    have hne : encode key ≠ [] := fun hnil => by
      have hlength := congrArg List.length hnil
      simp [encode] at hlength
    rw [fieldsOf, if_neg hne, hencode, Words.pieces_join _ (by simp)]
    simp only [List.forall_mem_cons, List.not_mem_nil, false_implies, implies_true, and_true]
    exact ⟨by decide, not_mem_toText rfl hiterations, not_mem_toText rfl hwords, not_mem_hexOf _,
      not_mem_hexOf _⟩
  obtain ⟨hmin, hmax, hmin', hmax', hsalt⟩ := hkey
  unfold kMinIterations kMaxIterations kMinWords kMaxWords at *
  rw [decode, hfields]
  dsimp only
  rw [if_neg (by simp), numberOf_toText hiterations (by omega) (by omega),
    numberOf_toText hwords (by omega) (by omega), bytesOf_hexOf, bytesOf_hexOf]
  dsimp only
  unfold kMinIterations kMaxIterations kMinWords kMaxWords
  rw [if_neg (by push Not; exact ⟨hmin, hmax, by omega, by omega, hsalt⟩),
    dif_pos key.digest.2]
  simp

theorem bounded_of_decode (h : decode stored = some key) : key.Bounded := by
  unfold decode at h
  split at h
  next scheme iterations count salt digest hfields =>
    split_ifs at h
    split at h
    next iterations count salt digest =>
      split_ifs at h with hout hsize
      simp only [not_or, not_lt, not_not] at hout
      obtain ⟨hmin, hmax, hmin', hmax', hsalt⟩ := hout
      obtain rfl := Option.some.inj h
      exact ⟨hmin, hmax, by dsimp only; omega, by dsimp only; omega, hsalt⟩
    next => cases h
  next => cases h

end Stored

/-- A sealed phrase is stored without loss, and is recognised exactly when it is said among the last
words; and every stored key that is read has the bounds of a sealed one, and is stored again. -/
theorem phrase_recognised (U : Utf8proc) :
    (∀ phrase salt iterations key, sealed U phrase salt iterations = some key →
      decode (encode key) = some key ∧
      ∀ utterance, ((compared U phrase utterance).InjOn fun password =>
          pbkdf2Sha256 password key.salt key.iterations) →
        (spokenIn U key utterance ↔ words U phrase <:+: screened (words U utterance))) ∧
    ∀ stored key, decode stored = some key →
      key.Bounded ∧ decode (encode key) = some key :=
  ⟨fun _ _ _ _ h => ⟨decode_encode (sealed_spec h).1, fun _ hinj => spokenIn_sealed h hinj⟩,
    fun _ _ h => ⟨bounded_of_decode h, decode_encode (bounded_of_decode h)⟩⟩

/-- utf8proc on plain text. -/
def plain : Utf8proc where
  map := some
  iterate
    | c :: _ => if c < 0x80 then some (1, c.toNat) else none
    | [] => none
  category codepoint :=
    if codepoint = 0x20 then .zs
    else if 0x61 ≤ codepoint ∧ codepoint ≤ 0x7a then .ll
    else .po
  iterate_size {text read codepoint} h := by
    cases text with
    | nil => cases h
    | cons c text =>
      obtain ⟨-, h⟩ := Option.ite_none_right_eq_some.mp h
      obtain ⟨rfl, -⟩ := Prod.mk.inj (Option.some.inj h)
      exact ⟨Nat.one_pos, by simp⟩
  iterate_blank {text read codepoint} h hmem := by
    cases text with
    | nil => cases h
    | cons c text =>
      obtain ⟨-, h⟩ := Option.ite_none_right_eq_some.mp h
      obtain ⟨rfl, rfl⟩ := Prod.mk.inj (Option.some.inj h)
      obtain rfl : 0x20 = c := by simpa using hmem
      rfl
  category_blank := rfl

/-- A phrase of three words. -/
def redFoxHides : Bytes := ascii "red fox hides"

theorem phrase_recognised_fox :
    ∃ key, sealed plain redFoxHides (List.replicate 16 0) 1024 = some key ∧
    decode (encode key) = some key ∧ spokenIn plain key redFoxHides = true := by
  have hwords : words plain redFoxHides =
      [[0x72, 0x65, 0x64], [0x66, 0x6f, 0x78], [0x68, 0x69, 0x64, 0x65, 0x73]] := by
    decide +kernel
  have hseal : ∃ key, sealed plain redFoxHides (List.replicate 16 0) 1024 = some key := by
    have hbounds : ¬((words plain redFoxHides).length < kMinWords ∨
        kMaxWords < (words plain redFoxHides).length ∨
          (List.replicate 16 (0 : UInt8)).length ≠ kSaltBytes ∨
            (1024 : ℤ) < kMinIterations ∨ kMaxIterations < (1024 : ℤ)) := by
      rw [hwords]
      decide
    exact ⟨_, if_neg hbounds⟩
  obtain ⟨key, hseal⟩ := hseal
  obtain ⟨hstored, hspoken⟩ := (phrase_recognised plain).1 _ _ _ key hseal
  refine ⟨key, hseal, hstored, (hspoken redFoxHides ?_).mpr ?_⟩
  · -- the only window is the phrase
    have hsame : ∀ password ∈ compared plain redFoxHides redFoxHides,
        password = joined (words plain redFoxHides) := by
      rintro password (rfl | ⟨window, hwithin, hlength, rfl⟩)
      · rfl
      · rw [hwithin.eq_of_length hlength]
    exact fun a ha b hb _ => (hsame a ha).trans (hsame b hb).symm
  · rw [hwords]
    exact List.infix_rfl

end SecretPhrase

end Text

end ArgusBackend
