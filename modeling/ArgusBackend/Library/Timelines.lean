import Mathlib

/-!
# Timelines

An endless series of moments, each later than the one before it.

* `Timeline.next` : the first moment behind a given one, with `isLeast_next` and `next_eq_nth`;
* `Timeline.upTo` : the moments up to one that is given, as a list that has all of them when there
  are few (`mem_upTo_of_few`);
* `Timeline.ahead_next_lt` : the next moment uses up one of those ahead that a list names;
* `Pace` : a series with even steps on a scale, which makes a timeline (`Pace.timeline`);
  `Pace.search_start` says from where its moments may be searched.
-/

namespace ArgusBackend

/-- Moments one after another, without an end. -/
structure Timeline (α : Type*) [LinearOrder α] where
  nth : ℕ → α
  strictMono : StrictMono nth
  cofinal : ∀ a, ∃ k, a < nth k

namespace Timeline

variable {α : Type*} [LinearOrder α] (T : Timeline α) {a t : α} {k : ℕ}

/-- All of them. -/
def moments : Set α := Set.range T.nth

/-- The first moment behind `a`. -/
def next (a : α) : α := T.nth (Nat.find (T.cofinal a))

variable {T}

theorem nth_mem (k : ℕ) : T.nth k ∈ T.moments := ⟨k, rfl⟩

theorem next_mem (a : α) : T.next a ∈ T.moments := nth_mem _

theorem lt_next (a : α) : a < T.next a := Nat.find_spec (T.cofinal a)

theorem next_le (ht : t ∈ T.moments) (hlt : a < t) : T.next a ≤ t := by
  obtain ⟨k, rfl⟩ := ht
  exact T.strictMono.monotone (Nat.find_le hlt)

theorem isLeast_next (a : α) : IsLeast {t | t ∈ T.moments ∧ a < t} (T.next a) :=
  ⟨⟨next_mem a, lt_next a⟩, fun _ ht => next_le ht.1 ht.2⟩

theorem next_eq_nth (hlt : a < T.nth k) (hbefore : ∀ j < k, T.nth j ≤ a) : T.next a = T.nth k := by
  have hfind : Nat.find (T.cofinal a) = k :=
    (Nat.find_eq_iff _).2 ⟨hlt, fun j hj => not_lt.2 (hbefore j hj)⟩
  rw [next, hfind]

theorem next_nth (k : ℕ) : T.next (T.nth k) = T.nth (k + 1) :=
  next_eq_nth (T.strictMono k.lt_succ_self) fun _ hj => T.strictMono.monotone (Nat.le_of_lt_succ hj)

/-- So many moments from the `k`-th on, as long as they are not behind `stop`. -/
def upTo (T : Timeline α) (stop : α) : ℕ → ℕ → List α
  | 0, _ => []
  | n + 1, k => if T.nth k ≤ stop then T.nth k :: T.upTo stop n (k + 1) else []

theorem mem_upTo {stop : α} {n : ℕ} :
    t ∈ T.upTo stop n k ↔ ∃ j, k ≤ j ∧ j < k + n ∧ T.nth j = t ∧ t ≤ stop := by
  induction n generalizing k with
  | zero => simp only [upTo, List.not_mem_nil, false_iff]; omega
  | succ n ih =>
    rw [upTo]
    split_ifs with hle
    · rw [List.mem_cons, ih]
      constructor
      · rintro (rfl | ⟨j, hj, hlt, h⟩)
        · exact ⟨k, le_rfl, by omega, rfl, hle⟩
        · exact ⟨j, by omega, by omega, h⟩
      · rintro ⟨j, hj, hlt, rfl, hstop⟩
        rcases hj.eq_or_lt with rfl | hj
        · exact .inl rfl
        · exact .inr ⟨j, hj, by omega, rfl, hstop⟩
    · refine iff_of_false List.not_mem_nil ?_
      rintro ⟨j, hj, -, rfl, hstop⟩
      exact hle ((T.strictMono.monotone hj).trans hstop)

theorem pairwise_upTo {stop : α} {n : ℕ} : (T.upTo stop n k).Pairwise (· < ·) := by
  induction n generalizing k with
  | zero => exact .nil
  | succ n ih =>
    rw [upTo]
    split_ifs
    · refine .cons (fun t ht => ?_) ih
      obtain ⟨j, hj, -, rfl, -⟩ := mem_upTo.1 ht
      exact T.strictMono hj
    · exact .nil

/-- All of them are listed, when there are fewer. -/
theorem mem_upTo_of_few {stop : α} {n : ℕ}
    (hfew : {t | t ∈ T.moments ∧ T.nth k ≤ t ∧ t ≤ stop}.encard < n) :
    t ∈ T.upTo stop n k ↔ t ∈ T.moments ∧ T.nth k ≤ t ∧ t ≤ stop := by
  rw [mem_upTo]
  constructor
  · rintro ⟨j, hj, -, rfl, hstop⟩
    exact ⟨nth_mem j, T.strictMono.monotone hj, hstop⟩
  · rintro ⟨⟨j, rfl⟩, hle, hstop⟩
    refine ⟨j, T.strictMono.le_iff_le.1 hle, ?_, rfl, hstop⟩
    by_contra hmany
    -- The moments from the `k`-th on are as many as are listed.
    have hsub : T.nth '' Set.Ico k (k + n) ⊆ {t | t ∈ T.moments ∧ T.nth k ≤ t ∧ t ≤ stop} := by
      rintro _ ⟨i, ⟨hi, hlt⟩, rfl⟩
      exact ⟨nth_mem i, T.strictMono.monotone hi,
        (T.strictMono.monotone (by omega)).trans hstop⟩
    have hcard := Set.encard_le_encard hsub
    rw [T.strictMono.injective.encard_image, ← Finset.coe_Ico, Set.encard_coe_eq_coe_finsetCard,
      Nat.card_Ico, Nat.add_sub_cancel_left] at hcard
    exact absurd (hcard.trans_lt hfew) (lt_irrefl _)

/-- The moments of a list that are still ahead. -/
def ahead (l : List α) (a : α) : ℕ := l.countP fun t => decide (a < t)

theorem ahead_le (l : List α) (a : α) : ahead l a ≤ l.length := List.countP_le_length

theorem ahead_next_lt {l : List α} (hmem : T.next a ∈ l) : ahead l (T.next a) < ahead l a := by
  have hlt := lt_next (T := T) a
  generalize T.next a = t at hmem hlt
  unfold ahead
  rw [← Nat.succ_le_iff, Nat.succ_eq_add_one]
  induction l with
  | nil => cases hmem
  | cons u l ih =>
    have hle : l.countP (fun u => decide (t < u)) ≤ l.countP fun u => decide (a < u) :=
      List.countP_mono_left fun u _ hu => by simpa using hlt.trans (by simpa using hu)
    rcases List.mem_cons.1 hmem with rfl | hmem
    · simp [hlt, hle]
    · have := ih hmem
      simp only [List.countP_cons, decide_eq_true_eq]
      split_ifs with ht ha
      · omega
      · exact absurd (hlt.trans ht) ha
      · omega
      · omega

end Timeline

/-- A series whose moments are the same number of units apart on a scale. -/
structure Pace (α : Type*) [LinearOrder α] where
  nth : ℕ → α
  scale : α → ℤ
  mono : Monotone scale
  first : ℤ
  step : ℤ
  pos : 0 < step
  scale_nth : ∀ k, scale (nth k) = first + k * step

namespace Pace

variable {α : Type*} [LinearOrder α] (P : Pace α) {a : α} {k : ℕ}

theorem lt_of_scale {a b : α} (h : P.scale a < P.scale b) : a < b := P.mono.reflect_lt h

/-- The moments of a pace. -/
def timeline : Timeline α where
  nth := P.nth
  strictMono := by
    refine strictMono_nat_of_lt_succ fun k => P.lt_of_scale ?_
    have := P.pos
    rw [P.scale_nth, P.scale_nth]
    push_cast
    linarith
  cofinal := by
    intro a
    obtain ⟨k, hk⟩ : ∃ k : ℕ, P.scale a - P.first < k := ⟨(P.scale a - P.first + 1).toNat, by omega⟩
    refine ⟨k, P.lt_of_scale ?_⟩
    rw [P.scale_nth]
    have := le_mul_of_one_le_right (Int.natCast_nonneg k) (show 1 ≤ P.step from P.pos)
    linarith

/-- **A search may start one step before the estimate**, also when the first moment is one unit
later than the origin of the estimate: what is skipped is over, and what is looked for is found in
three steps. -/
theorem search_start {origin : ℤ} (horigin : origin ≤ P.first ∧ P.first ≤ origin + 1) (a : α) :
    ∃ n : ℕ, max ((P.scale a - origin).tdiv P.step - 1) 0 = n ∧ (∀ k < n, P.nth k < a) ∧
      a < P.nth (n + 2) := by
  have hpos := P.pos
  obtain ⟨n, hn⟩ := Int.eq_ofNat_of_zero_le (le_max_right ((P.scale a - origin).tdiv P.step - 1) 0)
  refine ⟨n, hn, fun k hk => P.lt_of_scale ?_, P.lt_of_scale ?_⟩
  · -- Something is skipped only where the estimate is two at least.
    have htwo : (k + 2 : ℤ) ≤ (P.scale a - origin).tdiv P.step := by omega
    have hapart : 0 ≤ P.scale a - origin := by
      by_contra hneg
      have := Int.tdiv_le_tdiv hpos (not_le.1 hneg).le
      rw [Int.zero_tdiv] at this
      omega
    have hle := Int.tdiv_mul_le (P.scale a - origin) hpos.ne'
    rw [if_pos hapart, Nat.cast_zero, add_zero] at hle
    have hmul := mul_le_mul_of_nonneg_right htwo hpos.le
    rw [P.scale_nth]
    linarith
  · have hlt := Int.lt_tdiv_add_one_mul_self (P.scale a - origin) hpos
    have hmul := mul_le_mul_of_nonneg_right
      (show (P.scale a - origin).tdiv P.step + 1 ≤ (n + 2 : ℤ) by omega) hpos.le
    rw [P.scale_nth]
    push_cast
    linarith

end Pace

end ArgusBackend
