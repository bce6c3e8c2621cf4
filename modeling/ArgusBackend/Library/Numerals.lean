import ArgusBackend.Library.LittleEndian
import Mathlib.Data.List.Induction
import Mathlib.Data.List.TakeWhile
import Mathlib.Data.Nat.Digits.Lemmas
import Mathlib.Tactic.IntervalCases
import Mathlib.Tactic.Ring

/-!
# Numerals

Numbers as they are written and read by a program: `numeral` writes a number, `fromChars` reads one
at the front of a text, within bounds, and gives what stands behind it.

* `value_numeral` : a numeral is read as its number;
* `fromChars_numeral` : so it is at the front of a text, up to what is not a digit;
* `fromChars_whole` : what is read as a number to its end.
-/

namespace ArgusBackend

namespace Numerals

/-- The bytes of plain text. -/
def ascii (s : String) : Bytes := s.toList.map fun c => UInt8.ofNat c.toNat

/-- The character of a digit. -/
def digit (d : ℕ) : UInt8 := UInt8.ofNat (48 + d)

/-- The number in decimal. -/
def numeral (n : ℕ) : Bytes := if n = 0 then [digit 0] else (Nat.digits 10 n).reverse.map digit

/-- `std::to_string` -/
def toText (k : ℤ) : Bytes := if k < 0 then 45 :: numeral k.natAbs else numeral k.natAbs

/-- The value of a digit, or of a letter that stands for one; 36 for what is neither. -/
def digitOf (c : UInt8) : ℕ :=
  if 48 ≤ c ∧ c ≤ 57 then c.toNat - 48
  else if 97 ≤ c ∧ c ≤ 122 then c.toNat - 87
  else if 65 ≤ c ∧ c ≤ 90 then c.toNat - 55
  else 36

/-- The number of a text of digits. -/
def value (base : ℕ) (text : Bytes) : ℕ := text.foldl (fun n c => base * n + digitOf c) 0

/-- `std::from_chars` into a type with the bounds: the number at the front of the text, as long as
there are digits, and the rest of the text. -/
def fromChars (base : ℕ) (lo hi : ℤ) (text : Bytes) : Option (ℤ × Bytes) :=
  let minus : Bool := lo < 0 ∧ text.head? = some 45
  let body := if minus then text.tail else text
  let digits := body.takeWhile fun c => digitOf c < base
  let n : ℤ := if minus then -value base digits else value base digits
  if digits = [] ∨ n < lo ∨ hi < n then none
  else some (n, body.dropWhile fun c => digitOf c < base)

section Lemmas

variable {base d n : ℕ} {lo hi k : ℤ} {text rest : Bytes} {c : UInt8}

lemma digitOf_digit (hd : d < 10) : digitOf (digit d) = d := by
  interval_cases d <;> decide

/-- A digit is told by its value. -/
lemma eq_digit (hc : digitOf c < 10) : c = digit (digitOf c) := by
  unfold digitOf at hc ⊢
  split_ifs at hc ⊢ with h₁ h₂ h₃
  · obtain ⟨hlo, hhi⟩ := h₁
    rw [UInt8.le_iff_toNat_le] at hlo hhi
    have hsum : 48 + (c.toNat - 48) = c.toNat := Nat.add_sub_cancel' hlo
    rw [digit, hsum, UInt8.ofNat_toNat]
  · rw [UInt8.le_iff_toNat_le, UInt8.le_iff_toNat_le] at h₂
    simp only [UInt8.toNat_ofNat, Nat.reducePow, Nat.reduceMod] at h₂
    omega
  · rw [UInt8.le_iff_toNat_le, UInt8.le_iff_toNat_le] at h₃
    simp only [UInt8.toNat_ofNat, Nat.reducePow, Nat.reduceMod] at h₃
    omega
  · exact absurd hc (by decide)

lemma digit_ne (hd : d < 10) (hc : digitOf c = 36) : digit d ≠ c := by
  rintro rfl
  rw [digitOf_digit hd] at hc
  omega

lemma value_append (base : ℕ) (text : Bytes) (c : UInt8) :
    value base (text ++ [c]) = base * value base text + digitOf c := by
  rw [value, value, List.foldl_append]
  rfl

lemma value_digits (ds : List ℕ) (hds : ∀ d ∈ ds, d < 10) :
    value 10 (ds.reverse.map digit) = Nat.ofDigits 10 ds := by
  induction ds with
  | nil => rfl
  | cons d ds ih =>
    rw [List.forall_mem_cons] at hds
    rw [List.reverse_cons, List.map_append, List.map_singleton, value_append, ih hds.2,
      digitOf_digit hds.1, Nat.ofDigits_cons, Nat.add_comm]

lemma value_lt (hdigits : ∀ c ∈ text, digitOf c < base) : value base text < base ^ text.length := by
  induction text using List.reverseRecOn with
  | nil => simp [value]
  | append_singleton text c ih =>
    have hc := hdigits c (by simp)
    have hlt := ih fun c hc => hdigits c (List.mem_append_left _ hc)
    rw [value_append, List.length_append, List.length_singleton, pow_succ, Nat.mul_comm]
    calc value base text * base + digitOf c < value base text * base + base := by omega
      _ = (value base text + 1) * base := by ring
      _ ≤ base ^ text.length * base := Nat.mul_le_mul_right _ hlt

theorem value_numeral (n : ℕ) : value 10 (numeral n) = n := by
  unfold numeral
  split_ifs with hn
  · subst hn
    decide
  · rw [value_digits _ fun d hd => Nat.digits_lt_base (by norm_num) hd, Nat.ofDigits_digits]

lemma exists_digit_of_mem_numeral (hc : c ∈ numeral n) : ∃ d < 10, c = digit d := by
  unfold numeral at hc
  split_ifs at hc
  · exact ⟨0, by norm_num, List.mem_singleton.mp hc⟩
  · obtain ⟨d, hd, rfl⟩ := List.mem_map.mp hc
    exact ⟨d, Nat.digits_lt_base (by norm_num) (List.mem_reverse.mp hd), rfl⟩

lemma digitOf_lt_of_mem_numeral (hc : c ∈ numeral n) : digitOf c < 10 := by
  obtain ⟨d, hd, rfl⟩ := exists_digit_of_mem_numeral hc
  rwa [digitOf_digit hd]

lemma not_mem_numeral (hc : digitOf c = 36) : c ∉ numeral n := by
  intro hmem
  obtain ⟨d, hd, rfl⟩ := exists_digit_of_mem_numeral hmem
  exact digit_ne hd hc rfl

lemma numeral_ne_nil (n : ℕ) : numeral n ≠ [] := by
  unfold numeral
  split_ifs with hn
  · exact List.cons_ne_nil _ _
  · simpa [Nat.digits_eq_nil_iff_eq_zero] using hn

/-- Digits at the front are read, up to what is not one. -/
theorem fromChars_digits (hne : text ≠ []) (hdigits : ∀ c ∈ text, digitOf c < base)
    (hbase : base ≤ 36) (hrest : ∀ c ∈ rest.head?, base ≤ digitOf c)
    (hlo : lo ≤ value base text) (hhi : (value base text : ℤ) ≤ hi) :
    fromChars base lo hi (text ++ rest) = some ((value base text : ℤ), rest) := by
  have htake : (text ++ rest).takeWhile (fun c => digitOf c < base) = text := by
    rw [List.takeWhile_append_of_pos (by simpa using hdigits)]
    cases rest with
    | nil => simp
    | cons c rest =>
      have hc := hrest c rfl
      simp [hc]
  have hdrop : (text ++ rest).dropWhile (fun c => digitOf c < base) = rest := by
    rw [List.dropWhile_append_of_pos (by simpa using hdigits)]
    cases rest with
    | nil => rfl
    | cons c rest =>
      have hc := hrest c rfl
      simp [hc]
  have hminus : decide (lo < 0 ∧ (text ++ rest).head? = some 45) = false := by
    obtain ⟨c, cs, rfl⟩ := List.exists_cons_of_ne_nil hne
    refine decide_eq_false fun h => ?_
    obtain rfl : c = 45 := by simpa using h.2
    have hlt : digitOf 45 < base := hdigits 45 List.mem_cons_self
    rw [show digitOf 45 = 36 from rfl] at hlt
    omega
  unfold fromChars
  simp only [hminus, Bool.false_eq_true, if_false, htake, hdrop]
  rw [if_neg (by simp only [hne, false_or, not_or, not_lt]; exact ⟨hlo, hhi⟩)]

/-- A numeral is read back. -/
theorem fromChars_numeral (hrest : ∀ c ∈ rest.head?, 10 ≤ digitOf c) (hlo : lo ≤ n)
    (hhi : (n : ℤ) ≤ hi) : fromChars 10 lo hi (numeral n ++ rest) = some ((n : ℤ), rest) := by
  have hvalue : fromChars 10 lo hi (numeral n ++ rest) =
      some ((value 10 (numeral n) : ℤ), rest) :=
    fromChars_digits (numeral_ne_nil n) (fun c hc => digitOf_lt_of_mem_numeral hc) (by norm_num)
      hrest (by rwa [value_numeral]) (by rwa [value_numeral])
  rwa [value_numeral] at hvalue

theorem fromChars_toText {k : ℤ} (hk : 0 ≤ k) (hlo : lo ≤ k) (hhi : k ≤ hi) :
    fromChars 10 lo hi (toText k) = some (k, []) := by
  obtain ⟨n, rfl⟩ := Int.eq_ofNat_of_zero_le hk
  have hread : fromChars 10 lo hi (numeral n ++ []) = some ((n : ℤ), []) :=
    fromChars_numeral (by simp) hlo hhi
  rwa [List.append_nil] at hread

lemma not_mem_toText {k : ℤ} (hc : digitOf c = 36) (hk : 0 ≤ k) : c ∉ toText k := by
  rw [toText, if_neg (not_lt.mpr hk)]
  exact not_mem_numeral hc

lemma length_numeral_le {k : ℕ} (h : n < 10 ^ (k + 1)) : (numeral n).length ≤ k + 1 := by
  unfold numeral
  split_ifs
  · exact Nat.succ_le_succ (Nat.zero_le k)
  · rw [List.length_map, List.length_reverse]
    exact (Nat.digits_length_le_iff (by norm_num) n).mpr h

lemma lt_length_numeral {k : ℕ} (h : 10 ^ k ≤ n) : k < (numeral n).length := by
  have hn : n ≠ 0 := (Nat.lt_of_lt_of_le (Nat.pow_pos (by norm_num)) h).ne'
  rw [numeral, if_neg hn, List.length_map, List.length_reverse]
  exact (Nat.lt_digits_length_iff (by norm_num) n).mpr h

/-- What is read to its end has only digits, behind a sign if there is one. -/
theorem fromChars_whole (h : fromChars base lo hi text = some (k, [])) :
    ∃ digits, digits ≠ [] ∧ (∀ c ∈ digits, digitOf c < base) ∧
      ((text = digits ∧ k = value base digits) ∨ (text = 45 :: digits ∧ k = -value base digits)) := by
  unfold fromChars at h
  dsimp only at h
  generalize hminus : decide (lo < 0 ∧ text.head? = some 45) = minus at h
  generalize hbody : (if minus then text.tail else text) = body at h
  rw [Option.ite_none_left_eq_some] at h
  obtain ⟨hout, h⟩ := h
  obtain ⟨hk, hrest⟩ := Prod.mk.inj (Option.some.inj h)
  have hall : ∀ c ∈ body, digitOf c < base := by
    simpa [List.dropWhile_eq_nil_iff] using hrest
  have htake : body.takeWhile (fun c => digitOf c < base) = body := by
    rw [List.takeWhile_eq_self_iff]
    simpa using hall
  rw [htake] at hk hout
  refine ⟨body, (not_or.mp hout).1, hall, ?_⟩
  cases minus with
  | false => exact .inl ⟨hbody, hk.symm⟩
  | true =>
    obtain ⟨-, hhead⟩ := of_decide_eq_true hminus
    cases text with
    | nil => cases hhead
    | cons c text =>
      obtain rfl := Option.some.inj hhead
      obtain rfl : text = body := hbody
      exact .inr ⟨rfl, hk.symm⟩

end Lemmas

end Numerals

end ArgusBackend
