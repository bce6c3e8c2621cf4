import ArgusBackend.Library.LittleEndian
import Mathlib.Data.List.Flatten

/-!
# Vectors with their lengths in front

A record may carry a vector as a number of a few bytes, highest first, that says how long it is, and
the bytes themselves behind it.

* `numberBytes`, `vectorBytes` write a number and a vector;
* `number`, `part`, `vector` read what is in front, where there is enough of it;
* `Items.all` reads one item after the other, as long as there is room for the head of one;
  `Items.all_flatMap` says that it reads back what was written;
* `tagged` : the items that are a number with a vector.
-/

namespace ArgusBackend

namespace Vectors

variable {bs data rest more : Bytes} {k j n : ℕ}

/-! ### Numbers and vectors -/

/-- The low `k` bytes of `n`, highest first. -/
def numberBytes (k n : ℕ) : Bytes := (leBytes k n).reverse

/-- Bytes behind their length. -/
def vectorBytes (k : ℕ) (data : Bytes) : Bytes := numberBytes k data.length ++ data

/-- The number in the first `k` bytes, and what is behind it. -/
def number (k : ℕ) (bs : Bytes) : Option (ℕ × Bytes) :=
  if k ≤ bs.length then some (leNat (bs.take k).reverse, bs.drop k) else none

/-- The first `n` bytes, and what is behind them. -/
def part (n : ℕ) (bs : Bytes) : Option (Bytes × Bytes) :=
  if n ≤ bs.length then some (bs.take n, bs.drop n) else none

/-- The vector whose length is in the first `k` bytes, and what is behind it. -/
def vector (k : ℕ) (bs : Bytes) : Option (Bytes × Bytes) :=
  (number k bs).bind fun (length, rest) => part length rest

@[simp] theorem length_numberBytes : (numberBytes k n).length = k := by
  rw [numberBytes, List.length_reverse, length_leBytes]

@[simp] theorem length_vectorBytes : (vectorBytes k data).length = k + data.length := by
  rw [vectorBytes, List.length_append, length_numberBytes]

theorem part_of_le (h : n ≤ bs.length) : part n bs = some (bs.take n, bs.drop n) := if_pos h

theorem part_of_lt (h : bs.length < n) : part n bs = none := if_neg (not_le.2 h)

theorem part_append (data rest : Bytes) : part data.length (data ++ rest) = some (data, rest) := by
  rw [part, if_pos (by simp), List.take_left, List.drop_left]

theorem part_eq_some (h : part n bs = some (data, rest)) : bs = data ++ rest ∧ data.length = n := by
  unfold part at h
  split_ifs at h with hle
  obtain ⟨rfl, rfl⟩ := Prod.mk.inj (Option.some.inj h)
  exact ⟨(List.take_append_drop n bs).symm, List.length_take_of_le hle⟩

theorem number_eq_some : number k bs = some (n, rest) ↔
    ∃ data, part k bs = some (data, rest) ∧ leNat data.reverse = n := by
  unfold number part
  split_ifs <;> simp [and_comm]

theorem number_numberBytes (h : n < 256 ^ k) :
    number k (numberBytes k n ++ rest) = some (n, rest) := by
  refine number_eq_some.2 ⟨numberBytes k n, ?_, ?_⟩
  · have hpart := part_append (numberBytes k n) rest
    rwa [length_numberBytes] at hpart
  · rw [numberBytes, List.reverse_reverse, leNat_leBytes, Nat.mod_eq_of_lt h]

theorem number_lt (h : number k bs = some (n, rest)) : n < 256 ^ k := by
  obtain ⟨data, hpart, rfl⟩ := number_eq_some.1 h
  have hlt := leNat_lt data.reverse
  rwa [List.length_reverse, (part_eq_some hpart).2] at hlt

theorem length_of_number (h : number k bs = some (n, rest)) : bs.length = k + rest.length := by
  obtain ⟨data, hpart, -⟩ := number_eq_some.1 h
  obtain ⟨rfl, rfl⟩ := part_eq_some hpart
  exact List.length_append

theorem number_of_lt (h : bs.length < k) : number k bs = none := if_neg (not_le.2 h)

theorem number_of_le (h : k ≤ bs.length) : ∃ n rest, number k bs = some (n, rest) :=
  ⟨_, _, if_pos h⟩

/-- The last byte of a number is the low one. -/
theorem number_succ (h : number (k + 1) bs = some (n, rest)) :
    ∃ high low, number k bs = some (high, low :: rest) ∧ n = 256 * high + low.toNat := by
  obtain ⟨data, hpart, rfl⟩ := number_eq_some.1 h
  obtain ⟨rfl, hlength⟩ := part_eq_some hpart
  obtain rfl | ⟨high, low, rfl⟩ := List.eq_nil_or_concat data
  · cases hlength
  · rw [List.concat_eq_append, List.length_append, List.length_singleton] at hlength
    obtain rfl : high.length = k := Nat.succ.inj hlength
    refine ⟨leNat high.reverse, low, number_eq_some.2 ⟨high, ?_, rfl⟩, ?_⟩
    · rw [List.concat_eq_append, List.append_assoc]
      exact part_append _ _
    · rw [List.concat_eq_append, List.reverse_append, List.reverse_singleton, List.singleton_append,
        leNat, Nat.add_comm]

/-- What comes later is behind the number. -/
theorem number_append (h : number k bs = some (n, rest)) (more : Bytes) :
    number k (bs ++ more) = some (n, rest ++ more) := by
  obtain ⟨data, hpart, rfl⟩ := number_eq_some.1 h
  obtain ⟨rfl, rfl⟩ := part_eq_some hpart
  rw [List.append_assoc]
  exact number_eq_some.2 ⟨data, part_append _ _, rfl⟩

theorem vector_of_number (h : number k bs = some (n, rest)) : vector k bs = part n rest := by
  rw [vector, h, Option.bind_some]

theorem vector_of_lt (h : bs.length < k) : vector k bs = none := by
  rw [vector, number_of_lt h, Option.bind_none]

theorem vector_vectorBytes (h : data.length < 256 ^ k) :
    vector k (vectorBytes k data ++ rest) = some (data, rest) := by
  rw [vectorBytes, List.append_assoc, vector_of_number (number_numberBytes h)]
  exact part_append _ _

theorem vector_vectorBytes_self (h : data.length < 256 ^ k) :
    vector k (vectorBytes k data) = some (data, []) := by
  rw [← List.append_nil (vectorBytes k data), vector_vectorBytes h]

theorem length_of_vector (h : vector k bs = some (data, rest)) :
    bs.length = k + data.length + rest.length := by
  obtain ⟨⟨length, behind⟩, hnumber, hpart⟩ := Option.bind_eq_some_iff.1 h
  rw [length_of_number hnumber, (part_eq_some hpart).1, List.length_append, Nat.add_assoc]

/-! ### Items in a row -/

/-- A reader of one item, and how many bytes there must be for it to be called. -/
structure Items (α : Type*) where
  header : ℕ
  read : Bytes → Option (α × Bytes)
  shorter : ∀ {bs a rest}, read bs = some (a, rest) → rest.length < bs.length

namespace Items

variable {α β : Type*} {I : Items α}

/-- One item after the other; less than a header is left behind. -/
def all (I : Items α) (bs : Bytes) : Option (List α) :=
  if I.header ≤ bs.length then
    match hread : I.read bs with
    | none => none
    | some (a, rest) =>
      have := I.shorter hread
      (I.all rest).map (a :: ·)
  else some []
termination_by bs.length

theorem all_of_lt (h : bs.length < I.header) : I.all bs = some [] := by
  rw [all, if_neg (not_le.2 h)]

theorem all_of_le (h : I.header ≤ bs.length) :
    I.all bs = (I.read bs).bind fun (a, rest) => (I.all rest).map (a :: ·) := by
  rw [all, if_pos h]
  split
  · next hread => rw [hread, Option.bind_none]
  · next hread =>
    dsimp only
    rw [hread, Option.bind_some]

/-- **What was written is read back.** -/
theorem all_flatMap {write : β → Bytes} {value : β → α} (hpos : 0 < I.header)
    (hheader : ∀ b, I.header ≤ (write b).length)
    (hread : ∀ b rest, I.read (write b ++ rest) = some (value b, rest)) (items : List β) :
    I.all (items.flatMap write) = some (items.map value) := by
  induction items with
  | nil => exact all_of_lt hpos
  | cons b items ih =>
    have hle : I.header ≤ (write b ++ items.flatMap write).length :=
      (hheader b).trans (List.length_append ▸ Nat.le_add_right _ _)
    rw [List.flatMap_cons, all_of_le hle, hread, Option.bind_some]
    dsimp only
    rw [ih, Option.map_some, List.map_cons]

end Items

/-- A number of `k` bytes, and a vector with its length in `j` bytes. -/
def tagged (k j : ℕ) (hpos : 0 < k) : Items (ℕ × Bytes) where
  header := k + j
  read bs := (number k bs).bind fun (tag, rest) =>
    (vector j rest).map fun (data, rest) => ((tag, data), rest)
  shorter := by
    intro bs a rest h
    obtain ⟨⟨tag, behind⟩, hnumber, hmap⟩ := Option.bind_eq_some_iff.1 h
    obtain ⟨⟨data, rest'⟩, hvector, heq⟩ := Option.map_eq_some_iff.1 hmap
    obtain ⟨-, rfl⟩ := Prod.mk.inj heq
    rw [length_of_number hnumber, length_of_vector hvector]
    omega

section Tagged

variable {tag : ℕ} {hpos : 0 < k}

theorem tagged_all_of_lt (h : bs.length < k + j) : (tagged k j hpos).all bs = some [] :=
  Items.all_of_lt h

/-- One turn of the reader of all of them. -/
theorem tagged_all_of_le (hpos : 0 < k) (h : k + j ≤ bs.length) : ∃ tag behind length rest,
    number k bs = some (tag, behind) ∧ number j behind = some (length, rest) ∧
      rest.length < bs.length ∧
      (tagged k j hpos).all bs = (part length rest).bind fun (data, rest) =>
        ((tagged k j hpos).all rest).map ((tag, data) :: ·) := by
  obtain ⟨tag, behind, htag⟩ := number_of_le (show k ≤ bs.length by omega)
  have hbehind := length_of_number htag
  obtain ⟨length, rest, hlength⟩ := number_of_le (show j ≤ behind.length by omega)
  have hrest := length_of_number hlength
  refine ⟨tag, behind, length, rest, htag, hlength, by omega, ?_⟩
  rw [Items.all_of_le (I := tagged k j hpos) h, tagged]
  dsimp only
  rw [htag, Option.bind_some, vector_of_number hlength]
  cases part length rest <;> rfl

/-- Bytes behind a tag and their length. -/
def taggedBytes (k j tag : ℕ) (data : Bytes) : Bytes := numberBytes k tag ++ vectorBytes j data

@[simp] theorem length_taggedBytes :
    (taggedBytes k j tag data).length = k + (j + data.length) := by
  rw [taggedBytes, List.length_append, length_numberBytes, length_vectorBytes]

theorem tagged_taggedBytes (htag : tag < 256 ^ k) (hdata : data.length < 256 ^ j) :
    (tagged k j hpos).read (taggedBytes k j tag data ++ rest) = some ((tag, data), rest) := by
  rw [taggedBytes, List.append_assoc, tagged]
  dsimp only
  rw [number_numberBytes htag, Option.bind_some]
  dsimp only
  rw [vector_vectorBytes hdata, Option.map_some]

/-- **All of them are read back.** -/
theorem tagged_all_write {β : Type*} {tag : β → ℕ} {data : β → Bytes} (hpos : 0 < k)
    (htag : ∀ b, tag b < 256 ^ k) (hdata : ∀ b, (data b).length < 256 ^ j) (items : List β) :
    (tagged k j hpos).all (items.flatMap fun b => taggedBytes k j (tag b) (data b)) =
      some (items.map fun b => (tag b, data b)) := by
  refine Items.all_flatMap (Nat.lt_add_right j hpos) (fun b => ?_) (fun b rest => ?_) items
  · rw [length_taggedBytes, ← Nat.add_assoc]
    exact Nat.le_add_right _ _
  · exact tagged_taggedBytes (htag b) (hdata b)

end Tagged

end Vectors

end ArgusBackend
