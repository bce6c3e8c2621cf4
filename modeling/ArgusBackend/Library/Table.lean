import Mathlib.Data.Finmap

/-!
# Tables

A table maps keys to entries, each key once (`AList`); the lemmas say what a lookup finds after an
update of the table.
-/

namespace ArgusBackend

/-- A map from keys to entries, as an association list in which each key stands once. -/
abbrev Table (κ ε : Type) := AList (fun _ : κ => ε)

namespace Table

variable {κ ε : Type} {m : Table κ ε} {k k' : κ} {e : ε}

theorem eq_empty_of_keys (h : m.keys = []) : m = ∅ := by
  apply AList.ext
  simpa [AList.keys, List.keys] using h

variable [DecidableEq κ]

/-- Change the entry of a key, if it has one. -/
def adjust (k : κ) (g : ε → ε) (m : Table κ ε) : Table κ ε :=
  match m.lookup k with
  | none => m
  | some e => m.insert k (g e)

/-- Change every entry. -/
def mapEntries (g : ε → ε) (m : Table κ ε) : Table κ ε where
  entries := m.entries.map fun e => ⟨e.1, g e.2⟩
  nodupKeys := by
    have h := m.nodupKeys
    rw [List.NodupKeys, List.keys] at h ⊢
    rwa [List.map_map]

theorem lookup_adjust_self (g : ε → ε) : (m.adjust k g).lookup k = (m.lookup k).map g := by
  unfold adjust
  rcases h : m.lookup k with _ | e <;> simp [h]

theorem lookup_adjust_ne (g : ε → ε) (hne : k' ≠ k) :
    (m.adjust k g).lookup k' = m.lookup k' := by
  unfold adjust
  rcases m.lookup k with _ | e <;> simp [AList.lookup_insert_ne hne]

/-- What an entry of an adjusted table was before. -/
theorem lookup_adjust {g : ε → ε} :
    (m.adjust k g).lookup k' = some e ↔
      (k' = k ∧ ∃ e₀, m.lookup k = some e₀ ∧ e = g e₀) ∨ (k' ≠ k ∧ m.lookup k' = some e) := by
  by_cases hk : k' = k
  · subst hk
    rcases h : m.lookup k' with _ | e₀ <;> simp [lookup_adjust_self, h, eq_comm]
  · simp [lookup_adjust_ne g hk, hk]

theorem lookup_mapEntries (g : ε → ε) : (m.mapEntries g).lookup k = (m.lookup k).map g := by
  obtain ⟨entries, hnodup⟩ := m
  unfold mapEntries AList.lookup
  simp only
  clear hnodup
  induction entries with
  | nil => rfl
  | cons entry rest ih =>
    obtain ⟨k', e⟩ := entry
    by_cases hk : k' = k
    · subst hk
      simp
    · have hne : k ≠ (⟨k', g e⟩ : (_ : κ) × ε).1 := Ne.symm hk
      have hne' : k ≠ (⟨k', e⟩ : (_ : κ) × ε).1 := Ne.symm hk
      rw [List.map_cons, List.dlookup_cons_ne _ _ hne, List.dlookup_cons_ne _ _ hne', ih]

theorem erase_insert (k : κ) (e : ε) : (m.insert k e).erase k = m.erase k := by
  apply AList.ext
  simp [AList.erase, AList.insert, List.kinsert_def]

theorem erase_adjust (k : κ) (g : ε → ε) : (m.adjust k g).erase k = m.erase k := by
  unfold adjust
  rcases m.lookup k with _ | e
  · rfl
  · exact erase_insert k (g e)

/-- Rows of different keys, inserted one after the other, stand under their keys. -/
theorem lookup_foldl_insert {key : ε → κ} {rows : List ε} (m : Table κ ε)
    (hapart : rows.Pairwise fun r r' => key r ≠ key r') :
    (rows.foldl (fun m r => m.insert (key r) r) m).lookup k =
      (rows.find? fun r => key r = k).or (m.lookup k) := by
  induction rows generalizing m with
  | nil => simp
  | cons r rows ih =>
    obtain ⟨hr, hrows⟩ := List.pairwise_cons.1 hapart
    rw [List.foldl_cons, ih _ hrows, List.find?_cons]
    by_cases hk : key r = k
    · subst hk
      have hnone : rows.find? (fun r' => key r' = key r) = none := by
        simpa [List.find?_eq_none] using fun r' hr' => (hr r' hr').symm
      simp [hnone]
    · simp [hk, AList.lookup_insert_ne (Ne.symm hk)]

/-- The entries under some keys are erased. -/
theorem lookup_foldl_erase {ks : List κ} (m : Table κ ε) :
    (ks.foldl (fun m k => m.erase k) m).lookup k = if k ∈ ks then none else m.lookup k := by
  induction ks generalizing m with
  | nil => simp
  | cons k₀ ks ih =>
    rw [List.foldl_cons, ih]
    by_cases hk : k = k₀
    · subst hk
      simp [AList.lookup_erase]
    · simp [hk, AList.lookup_erase_ne hk]

/-- The loop that puts what a function makes of the entries of a table into another one. -/
def collect {δ : Type} (g : κ → ε → Option δ) (m : Table κ ε) (out : Table κ δ) : Table κ δ :=
  m.entries.foldl (fun out e => match g e.1 e.2 with
    | none => out
    | some d => out.insert e.1 d) out

theorem lookup_collect {δ : Type} (g : κ → ε → Option δ) (out : Table κ δ) :
    (m.collect g out).lookup k = ((m.lookup k).bind (g k)).or (out.lookup k) := by
  obtain ⟨entries, hnodup⟩ := m
  unfold collect AList.lookup
  simp only
  induction entries generalizing out with
  | nil => simp
  | cons entry rest ih =>
    obtain ⟨k', e⟩ := entry
    rw [List.nodupKeys_cons] at hnodup
    rw [List.foldl_cons, ih _ hnodup.2]
    by_cases hk : k' = k
    · subst hk
      have hnone : List.dlookup k' rest = none := List.dlookup_eq_none.2 hnodup.1
      rw [hnone, List.dlookup_cons_eq]
      simp only [Option.bind_none, Option.none_or, Option.bind_some]
      cases g k' e with
      | none => simp
      | some d => simp
    · have hne : k ≠ (⟨k', e⟩ : (_ : κ) × ε).1 := Ne.symm hk
      rw [List.dlookup_cons_ne _ _ hne]
      congr 1
      cases g k' e with
      | none => rfl
      | some d => exact AList.lookup_insert_ne (Ne.symm hk)

end Table

end ArgusBackend
