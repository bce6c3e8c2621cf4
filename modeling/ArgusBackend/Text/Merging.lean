import ArgusBackend.Text.Paths

/-!
# Merged diffs

A merged diff has the paths of both its diffs.  It is worth both when no older change is out of date
and none is below a value that is not an object (`Fits`); a chain of diffs, when this holds of any
two of its steps.

* `Leads.merged`, `mergeable_of_alike` : when a merged diff leads on;
* `lookup_wire` : what is read is what was written;
* `Led.chain` : diffs that are merged one by one;
* `merged_worth_both` : when a merged diff is worth both.
-/

namespace ArgusBackend

namespace Text

namespace JsonDiff

variable {σ : Type}

section Merging

variable [DecidableEq σ] {b b' t v : Value σ} {older newer m : ChangesDiff σ} {key : Name}
  {p : Path} {past : List (Value σ × Value σ)} {seen : List (Value σ)}

/-- What a merged diff holds. -/
def Merged (older newer m : ChangesDiff σ) : Prop :=
  ∀ key, m.lookup key =
    ((older.lookup key).map fun prev => combine prev (newer.lookup key)).or (newer.lookup key)

theorem merged_kept (older newer : ChangesDiff σ) : Merged older newer (kept older newer) := by
  intro key
  have hcombined : (newer.collect
      (fun key next => if (older.lookup key).isNone then some next else none)
        (older.collect (fun key prev => some (combine prev (newer.lookup key))) ∅)).lookup key =
      ((older.lookup key).map fun prev => combine prev (newer.lookup key)).or
        (newer.lookup key) := by
    rw [Table.lookup_collect, Table.lookup_collect]
    cases older.lookup key <;> cases newer.lookup key <;> simp
  unfold kept compareChanges
  dsimp only
  by_cases hempty : (newer.collect
      (fun key next => if (older.lookup key).isNone then some next else none)
        (older.collect (fun key prev => some (combine prev (newer.lookup key))) ∅)).entries = []
  · -- nothing is kept of two diffs without changes
    rw [AList.ext (t := ∅) hempty, AList.lookup_empty] at hcombined
    rw [if_pos hempty, if_pos rfl, ← hcombined]
    exact (Option.or_eq_none_iff.1 hcombined.symm).2
  · rw [if_neg hempty, if_neg (by simp)]
    exact hcombined

theorem Merged.ne_none (hm : Merged older newer m) :
    m.lookup key ≠ none ↔ older.lookup key ≠ none ∨ newer.lookup key ≠ none := by
  rw [hm key]
  cases older.lookup key <;> cases newer.lookup key <;> simp

/-- What an older diff names is still what it says after a newer one, unless the newer one names it
too; and no value but objects stands on the way. -/
structure Mergeable (older newer : ChangesDiff σ) (b b' : Value σ) : Prop where
  value : ∀ key, older.lookup key ≠ none → newer.lookup key = none → ∀ q,
    look b (splitPath key ++ q) = look b' (splitPath key ++ q)
  inner : ∀ key, older.lookup key ≠ none → ∀ q, q <+: splitPath key → q ≠ splitPath key →
    look b' q = none

theorem combine_current (prev next : Change σ) :
    Alike (combine prev (some next)).current next.current := by
  unfold combine
  dsimp only
  split_ifs with h
  · exact (alike_of_valuesEqual h).symm
  · exact rfl

/-- An entry of a merged diff is one of the newer diff, or of the older one alone. -/
theorem Merged.entry (hm : Merged older newer m) (hentry : Entry m p v) :
    (∃ v', Entry newer p v' ∧ Alike v v') ∨
      ∃ key, older.lookup key ≠ none ∧ newer.lookup key = none ∧ p = splitPath key ∧
        Entry older p v := by
  obtain ⟨key, change, hlookup, rfl, rfl⟩ := hentry
  rw [hm key] at hlookup
  cases hnew : newer.lookup key with
  | some next =>
    refine .inl ⟨next.current, ⟨key, next, hnew, rfl, rfl⟩, ?_⟩
    rw [hnew] at hlookup
    cases hold : older.lookup key with
    | some prev =>
      rw [hold] at hlookup
      obtain rfl := Option.some.inj hlookup
      exact combine_current prev next
    | none =>
      rw [hold] at hlookup
      obtain rfl := Option.some.inj hlookup
      exact rfl
  | none =>
    rw [hnew] at hlookup
    cases hold : older.lookup key with
    | some prev =>
      rw [hold] at hlookup
      obtain rfl := Option.some.inj hlookup
      exact .inr ⟨key, by simp [hold], hnew, rfl, key, prev, hold, rfl, rfl⟩
    | none =>
      rw [hold] at hlookup
      cases hlookup

/-- A merged diff leads on. -/
theorem Leads.merged (hm : Merged older newer m) (hold : Leads (Entry older) t b)
    (hnew : Leads (Entry newer) b b') (hmerge : Mergeable older newer b b') :
    Leads (Entry m) t b' where
  named p v hentry := by
    rcases hm.entry hentry with ⟨v', hnewer, -⟩ | ⟨key, -, -, -, holder⟩
    · exact hnew.named p v' hnewer
    · exact hold.named p v holder
  value p v hentry q := by
    rcases hm.entry hentry with ⟨v', hnewer, halike⟩ | ⟨key, hkey, hnone, rfl, holder⟩
    · rw [halike]
      exact hnew.value p v' hnewer q
    · exact (hold.value _ v holder q).trans (hmerge.value key hkey hnone q)
  inner p v hentry := by
    rcases hm.entry hentry with ⟨v', hnewer, -⟩ | ⟨key, hkey, -, rfl, -⟩
    · exact hnew.inner p v' hnewer
    · exact hmerge.inner key hkey
  outside q hq := by
    have hnamed {key : Name} (h : older.lookup key ≠ none ∨ newer.lookup key ≠ none) :
        ¬splitPath key <+: q := by
      obtain ⟨change, hlookup⟩ := Option.ne_none_iff_exists'.1 (hm.ne_none.2 h)
      exact hq _ _ ⟨key, change, hlookup, rfl, rfl⟩
    refine (hold.outside q ?_).trans (hnew.outside q ?_)
    · rintro p v ⟨key, change, hlookup, rfl, rfl⟩
      exact hnamed (.inl (by simp [hlookup]))
    · rintro p v ⟨key, change, hlookup, rfl, rfl⟩
      exact hnamed (.inr (by simp [hlookup]))

/-- What is applied last is there. -/
theorem mergeable_of_alike (hm : Merged older newer m) (hold : Leads (Entry older) t b)
    (h : ∀ es, es.Perm (entriesOf m) → Alike (applyChanges es t) b') :
    Mergeable older newer b b' := by
  have hlast {key : Name} {change : Change σ} (hlookup : m.lookup key = some change)
      (hne : splitPath key ≠ []) (hnames : ∀ n ∈ splitPath key, isIndex n = false) :
      ∃ t', Alike (setByPath t' (splitPath key) change.current) b' := by
    obtain ⟨l, r, heq⟩ := List.append_of_mem (mem_entriesOf.2 hlookup)
    have halike := h ((l ++ r) ++ [(key, change)]) (by
      rw [heq, List.append_assoc]
      exact (List.perm_append_singleton (key, change) r).append_left l)
    rw [applyChanges, List.foldl_append] at halike
    exact ⟨_, halike⟩
  refine ⟨fun key hkey hnone q => ?_, fun key hkey q hle hne => ?_⟩
  · obtain ⟨prev, hprev⟩ := Option.ne_none_iff_exists'.1 hkey
    have hentry : Entry older (splitPath key) prev.current := ⟨key, prev, hprev, rfl, rfl⟩
    obtain ⟨hpath, hnames⟩ := hold.named _ _ hentry
    have hlookup : m.lookup key = some prev := by
      rw [hm key, hprev, hnone]
      rfl
    obtain ⟨t', halike⟩ := hlast hlookup hpath hnames
    rw [← halike, look_setByPath _ _ hpath hnames, if_pos (List.prefix_append _ _),
      List.drop_left, hold.value _ _ hentry]
  · obtain ⟨prev, hprev⟩ := Option.ne_none_iff_exists'.1 hkey
    obtain ⟨hpath, hnames⟩ := hold.named _ _ ⟨key, prev, hprev, rfl, rfl⟩
    obtain ⟨change, hlookup⟩ := Option.ne_none_iff_exists'.1 (hm.ne_none.2 (.inl hkey))
    obtain ⟨t', halike⟩ := hlast hlookup hpath hnames
    rw [← halike, look_setByPath _ _ hpath hnames, if_neg, if_pos hle]
    exact fun hge => hne (hle.eq_of_length_le hge.length_le)

/-- A merged diff is applied to what the older diff leads on from. -/
theorem worth_iff (hm : Merged older newer m) (hmem : b ∈ seen)
    (hseen : ∀ t ∈ seen, Leads (Entry older) t b) (hnew : Leads (Entry newer) b b') :
    (∀ es, es.Perm (entriesOf m) → ∀ t ∈ seen, Alike (applyChanges es t) b') ↔
      Mergeable older newer b b' := by
  constructor
  · exact fun h => mergeable_of_alike hm (hseen b hmem) fun es hperm => h es hperm b hmem
  · exact fun hmerge es hperm t ht =>
      alike_applyChanges (Leads.merged hm (hseen t ht) hnew hmerge) hperm

/-! ### Steps between states -/

/-- A later step takes what an earlier one changed along: where it makes no change itself, it leaves
the change as it is, and it puts no scalar and no array above it. -/
structure Fits (earlier later : Value σ × Value σ) : Prop where
  value : ∀ p, Differs p earlier.1 earlier.2 → ¬Differs p later.1 later.2 → ∀ q,
    look later.1 (p ++ q) = look later.2 (p ++ q)
  inner : ∀ p, Differs p earlier.1 earlier.2 → ∀ q, q <+: p → q ≠ p → look later.2 q = none

/-- The keys of a diff are the paths that steps between objects changed. -/
structure Names (d : ChangesDiff σ) (past : List (Value σ × Value σ)) : Prop where
  objects : ∀ e ∈ past, Object e.1 ∧ Object e.2
  keys : ∀ key, d.lookup key ≠ none ↔
    ∃ e ∈ past, ∃ p, Differs p e.1 e.2 ∧ key = Words.join '.' p

theorem names_diff (hb : Object b) (hb' : Object b') :
    Names (createFlatDiff b b') [(b, b')] where
  objects e he := List.mem_singleton.1 he ▸ ⟨hb, hb'⟩
  keys key := by
    rw [lookup_diff hb]
    simp

theorem Names.merged (hold : Names older past) (hb : Object b) (hb' : Object b')
    (hm : Merged older (createFlatDiff b b') m) : Names m (past ++ [(b, b')]) where
  objects e he := by
    rcases List.mem_append.1 he with he | he
    · exact hold.objects e he
    · exact List.mem_singleton.1 he ▸ ⟨hb, hb'⟩
  keys key := by
    rw [hm.ne_none, hold.keys, lookup_diff hb]
    simp only [List.mem_append, List.mem_singleton, or_and_right, exists_or, exists_eq_left]

theorem mergeable_iff (hold : Names older past) (hb : Object b) (hb' : Object b') :
    Mergeable older (createFlatDiff b b') b b' ↔ ∀ e ∈ past, Fits e (b, b') := by
  have hsplit {e : Value σ × Value σ} (he : e ∈ past) {p : Path} (hp : Differs p e.1 e.2) :
      splitPath (Words.join '.' p) = p :=
    splitPath_of_differs (hold.objects e he).1 (hold.objects e he).2 hp
  constructor
  · refine fun hmerge e he => ⟨fun p hp hnot q => ?_, fun p hp q => ?_⟩
    · have hkey := (hold.keys (Words.join '.' p)).2 ⟨e, he, p, hp, rfl⟩
      have hnone : (createFlatDiff b b').lookup (Words.join '.' p) = none := by
        by_contra hsome
        obtain ⟨p', hp', heq⟩ := (lookup_diff hb).1 hsome
        have hpath := splitPath_of_differs hb hb' hp'
        rw [← heq, hsplit he hp] at hpath
        exact hnot (hpath ▸ hp')
      have hvalue := hmerge.value _ hkey hnone q
      rwa [hsplit he hp] at hvalue
    · have hinner := hmerge.inner _ ((hold.keys (Words.join '.' p)).2 ⟨e, he, p, hp, rfl⟩) q
      rwa [hsplit he hp] at hinner
  · refine fun hfits => ⟨fun key hkey hnone q => ?_, fun key hkey q => ?_⟩
    · obtain ⟨e, he, p, hp, rfl⟩ := (hold.keys key).1 hkey
      rw [hsplit he hp]
      exact (hfits e he).value p hp (fun hp' => (lookup_diff hb).2 ⟨p, hp', rfl⟩ hnone) q
    · obtain ⟨e, he, p, hp, rfl⟩ := (hold.keys key).1 hkey
      rw [hsplit he hp]
      exact (hfits e he).inner p hp q

end Merging

/-! ### The wire -/

section Wire

variable {d : ChangesDiff σ} {key : Name}

theorem changeOf_node (c : Change σ) : changeOf (.obj (Value.setField "current".toList c.current
    (Value.setField "previous".toList c.previous []))) = c := by
  simp only [changeOf, Value.member, Value.fields, lookup_setField]
  rfl

theorem lookup_toJson (d : ChangesDiff σ) (key : Name) :
    ((toJson d).fields.lookup key).map changeOf = d.lookup key := by
  have hfold (entries : List ((_ : Name) × Change σ)) (hnodup : entries.NodupKeys)
      (fields : List (Name × Value σ)) :
      ((entries.foldl (fun fields e => Value.setField e.1
        (.obj (Value.setField "current".toList e.2.current
          (Value.setField "previous".toList e.2.previous []))) fields) fields).lookup key).map
            changeOf = (entries.dlookup key).or ((fields.lookup key).map changeOf) := by
    induction entries generalizing fields with
    | nil => simp
    | cons e entries ih =>
      obtain ⟨k, c⟩ := e
      rw [List.nodupKeys_cons] at hnodup
      rw [List.foldl_cons, ih hnodup.2, lookup_setField]
      by_cases hk : key = k
      · subst hk
        rw [List.dlookup_eq_none.2 hnodup.1, if_pos rfl, Option.map_some, changeOf_node,
          List.dlookup_cons_eq]
        rfl
      · rw [if_neg hk, List.dlookup_cons_ne _ _ hk]
  rw [toJson, Value.fields, entriesOf, List.foldl_map, hfold _ d.nodupKeys]
  simp [AList.lookup]

theorem lookup_fromJson (root : Value σ) (key : Name) :
    (fromJson root).lookup key = (root.fields.lookup key).map changeOf := by
  have hfold (fields : List (Name × Value σ)) (out : ChangesDiff σ) :
      (fields.foldl (fun out f => if (out.lookup f.1).isSome then out
        else out.insert f.1 (changeOf f.2)) out).lookup key =
      (out.lookup key).or ((fields.lookup key).map changeOf) := by
    induction fields generalizing out with
    | nil => simp
    | cons f fields ih =>
      obtain ⟨k, v⟩ := f
      rw [List.foldl_cons, ih, List.lookup_cons]
      by_cases hk : key = k
      · subst hk
        rw [beq_self_eq_true]
        cases hout : out.lookup key with
        | none => simp
        | some c => simp [hout]
      · rw [beq_eq_false_iff_ne.2 hk]
        split_ifs
        · rfl
        · rw [AList.lookup_insert_ne hk]
  rw [fromJson, hfold, AList.lookup_empty, Option.none_or]

/-- What is read is what was written. -/
theorem lookup_wire (d : ChangesDiff σ) (key : Name) :
    (fromJson (toJson d)).lookup key = d.lookup key := by
  rw [lookup_fromJson, lookup_toJson]

/-- Diffs that hold the same changes have the same entries. -/
theorem entry_congr {m : ChangesDiff σ} (heq : ∀ key, d.lookup key = m.lookup key) :
    Entry d = Entry m := by
  funext p v
  simp only [Entry, heq]

theorem merged_create [DecidableEq σ] (existing : Value σ) (changes : ChangesDiff σ) :
    Merged (fromJson existing) changes (fromJson (create existing changes)) := fun key => by
  rw [create, lookup_wire, merged_kept]

theorem merged_compact [DecidableEq σ] (older newer : Value σ) :
    Merged (fromJson older) (fromJson newer) (fromJson (compact older newer)) := fun key => by
  rw [← merged_kept, compact, kept]
  split_ifs
  · rfl
  · exact lookup_wire _ key

end Wire

/-! ### Chains -/

section Chains

variable [DecidableEq σ] {s s' t stored : Value σ} {past : List (Value σ × Value σ)}
  {seen rest : List (Value σ)}

/-- The steps from a state through those that follow it. -/
def steps : Value σ → List (Value σ) → List (Value σ × Value σ)
  | _, [] => []
  | s, s' :: rest => (s, s') :: steps s' rest

/-- What is stored for a record, when states come one by one. -/
def recorded (stored : Value σ) : Value σ → List (Value σ) → Value σ
  | _, [] => stored
  | s, s' :: rest => recorded (create stored (createFlatDiff s s')) s' rest

/-- The states so far are led to the last one. -/
structure Led (stored s : Value σ) (seen : List (Value σ)) (past : List (Value σ × Value σ)) :
    Prop where
  object : Object s
  names : Names (fromJson stored) past
  last : s ∈ seen
  leads : ∀ t ∈ seen, Leads (Entry (fromJson stored)) t s
  fits : past.Pairwise Fits

theorem Led.start (hs : Object s) (hs' : Object s') :
    Led (toJson (createFlatDiff s s')) s' [s, s'] [(s, s')] where
  object := hs'
  names := ⟨(names_diff hs hs').objects, fun key => by
    rw [lookup_wire]
    exact (names_diff hs hs').keys key⟩
  last := by simp
  leads t ht := by
    rw [entry_congr (lookup_wire _)]
    rcases List.mem_cons.1 ht with rfl | ht
    · exact leads_diff hs hs'
    · exact List.mem_singleton.1 ht ▸ (leads_diff hs hs').again
  fits := List.pairwise_singleton _ _

/-- What the next state makes of it. -/
theorem Led.worth_iff (h : Led stored s seen past) (hs' : Object s') :
    (∀ es, es.Perm (entriesOf (fromJson (create stored (createFlatDiff s s')))) →
      ∀ t ∈ seen, Alike (applyChanges es t) s') ↔ ∀ e ∈ past, Fits e (s, s') :=
  (JsonDiff.worth_iff (merged_create _ _) h.last h.leads (leads_diff h.object hs')).trans
    (mergeable_iff h.names h.object hs')

theorem Led.next (h : Led stored s seen past) (hs' : Object s')
    (hfits : ∀ e ∈ past, Fits e (s, s')) :
    Led (create stored (createFlatDiff s s')) s' (seen ++ [s']) (past ++ [(s, s')]) where
  object := hs'
  names := h.names.merged h.object hs' (merged_create _ _)
  last := by simp
  leads t ht := by
    have hmerge := (mergeable_iff h.names h.object hs').2 hfits
    have hleads {t : Value σ} (ht : t ∈ seen) :=
      Leads.merged (merged_create stored _) (h.leads t ht) (leads_diff h.object hs') hmerge
    rcases List.mem_append.1 ht with ht | ht
    · exact hleads ht
    · exact List.mem_singleton.1 ht ▸ (hleads h.last).again
  fits := List.pairwise_append.2 ⟨h.fits, List.pairwise_singleton _ _, fun e he e' he' =>
    List.mem_singleton.1 he' ▸ hfits e he⟩

theorem Led.apply (h : Led stored s seen past) {es : List (Name × Change σ)}
    (hperm : es.Perm (entriesOf (fromJson stored))) (ht : t ∈ seen) :
    Alike (applyChanges es t) s := alike_applyChanges (h.leads t ht) hperm

/-- The merged diffs of a chain are worth its states when any two of its steps fit. -/
theorem Led.chain (h : Led stored s seen past) (hrest : ∀ s' ∈ rest, Object s') :
    (∀ l, l <+: rest → ∀ es, es.Perm (entriesOf (fromJson (recorded stored s l))) →
      ∀ t ∈ seen ++ l, Alike (applyChanges es t) (l.getLastD s)) ↔
        (past ++ steps s rest).Pairwise Fits := by
  induction rest generalizing stored s seen past with
  | nil =>
    refine iff_of_true (fun l hl es hperm t ht => ?_) ?_
    · obtain rfl := List.prefix_nil.1 hl
      rw [List.append_nil] at ht
      exact h.apply hperm ht
    · rw [steps, List.append_nil]
      exact h.fits
  | cons s' rest ih =>
    rw [List.forall_mem_cons] at hrest
    have hassoc : past ++ steps s (s' :: rest) = (past ++ [(s, s')]) ++ steps s' rest := by
      rw [steps, List.append_assoc, List.singleton_append]
    rw [hassoc]
    constructor
    · intro hworth
      have hfits := (h.worth_iff hrest.1).1 fun es hperm t ht =>
        hworth [s'] (by simp) es hperm t (List.mem_append_left _ ht)
      refine (ih (h.next hrest.1 hfits) hrest.2).1 fun l hl es hperm t ht => ?_
      rw [List.append_assoc, List.singleton_append] at ht
      have halike := hworth (s' :: l) (List.cons_prefix_cons.2 ⟨rfl, hl⟩) es hperm t ht
      rwa [List.getLastD_cons] at halike
    · intro hpairwise
      have hfits (e : Value σ × Value σ) (he : e ∈ past) : Fits e (s, s') :=
        (List.pairwise_append.1 (List.pairwise_append.1 hpairwise).1).2.2 e he _
          (List.mem_singleton_self _)
      have hnext := (ih (h.next hrest.1 hfits) hrest.2).2 hpairwise
      intro l hl es hperm t ht
      cases l with
      | nil =>
        rw [List.append_nil] at ht
        exact h.apply hperm ht
      | cons s'' l =>
        obtain ⟨rfl, hl'⟩ := List.cons_prefix_cons.1 hl
        rw [List.getLastD_cons]
        refine hnext l hl' es hperm t ?_
        rwa [List.append_assoc, List.singleton_append]

/-- A merged diff is worth both diffs, in every order of its entries, exactly when the second step
takes what the first one changed along, and so for the steps of a chain; what is written is read. -/
theorem merged_worth_both {s₀ s₁ s₂ : Value σ} (h₀ : Object s₀) (h₁ : Object s₁)
    (h₂ : Object s₂) (hrest : ∀ s ∈ rest, Object s) :
    ((∀ es, es.Perm (entriesOf (kept (createFlatDiff s₀ s₁) (createFlatDiff s₁ s₂))) →
      Alike (applyChanges es s₀) s₂ ∧ Alike (applyChanges es s₁) s₂) ↔
        Fits (s₀, s₁) (s₁, s₂)) ∧
    (∀ key, (fromJson (toJson (kept (createFlatDiff s₀ s₁) (createFlatDiff s₁ s₂)))).lookup key =
      (kept (createFlatDiff s₀ s₁) (createFlatDiff s₁ s₂)).lookup key) ∧
    ((∀ l, l <+: rest →
      ∀ es, es.Perm (entriesOf (fromJson (recorded (toJson (createFlatDiff s₀ s₁)) s₁ l))) →
        ∀ t ∈ s₀ :: s₁ :: l, Alike (applyChanges es t) (l.getLastD s₁)) ↔
      (steps s₀ (s₁ :: rest)).Pairwise Fits) := by
  refine ⟨?_, lookup_wire _, (Led.start h₀ h₁).chain hrest⟩
  have hseen : ∀ t ∈ [s₀, s₁], Leads (Entry (createFlatDiff s₀ s₁)) t s₁ := by
    rw [List.forall_mem_cons, List.forall_mem_singleton]
    exact ⟨leads_diff h₀ h₁, (leads_diff h₀ h₁).again⟩
  have hworth := (worth_iff (merged_kept _ _) (by simp) hseen (leads_diff h₁ h₂)).trans
    (mergeable_iff (names_diff h₀ h₁) h₁ h₂)
  simp only [List.forall_mem_cons, List.not_mem_nil, false_imp_iff, implies_true, and_true]
    at hworth
  exact hworth

end Chains

/-! ### Two edits of one member -/

/-- Objects in each other, by one-letter names. -/
def nested (path : List Char) (value : ℕ) : Value ℕ :=
  path.foldr (fun c inner => .obj [([c], inner)]) (.scalar value)

theorem valid_nested {path : List Char} {n : ℕ} (hpath : ∀ c ∈ path, NameOk [c]) :
    Valid (nested path n) := by
  induction path with
  | nil => exact .scalar n
  | cons c path ih =>
    rw [List.forall_mem_cons] at hpath
    exact .obj (List.nodup_singleton _) (List.forall_mem_singleton.2 hpath.1)
      (List.forall_mem_singleton.2 (ih hpath.2))

theorem object_nested (n : ℕ) : Object (nested ['a', 'b'] n) :=
  ⟨valid_nested (by simp [NameOk, isIndex]), _, rfl⟩

theorem of_differs_nested {path : List Char} {n n' : ℕ} {p : Path}
    (hp : Differs p (nested path n) (nested path n')) : p = path.map ([·]) := by
  induction path generalizing p with
  | nil =>
    cases p with
    | nil => rfl
    | cons k p => exact hp.elim
  | cons c path ih =>
    cases p with
    | nil => exact hp.elim
    | cons k p =>
      by_cases hk : k = [c]
      · subst hk
        rw [nested, nested, List.foldr_cons, List.foldr_cons, Differs, List.lookup_cons_self,
          List.lookup_cons_self] at hp
        rw [List.map_cons, ih hp]
      · rw [nested, nested, List.foldr_cons, List.foldr_cons, Differs, lookup_cons_ne hk,
          lookup_cons_ne hk] at hp
        exact hp.elim

theorem merged_worth_both_nested :
    Alike (applyChanges (entriesOf (kept (createFlatDiff (nested ['a', 'b'] 1)
      (nested ['a', 'b'] 2)) (createFlatDiff (nested ['a', 'b'] 2) (nested ['a', 'b'] 3))))
        (nested ['a', 'b'] 1)) (nested ['a', 'b'] 3) := by
  have hnone : ∀ s ∈ ([] : List (Value ℕ)), Object s := by simp
  have hfits : Fits (nested ['a', 'b'] 1, nested ['a', 'b'] 2)
      (nested ['a', 'b'] 2, nested ['a', 'b'] 3) := by
    refine ⟨fun p hp hnot => ?_, fun p hp q hle hne => ?_⟩
    · -- both steps change the same member
      obtain rfl := of_differs_nested hp
      refine absurd ?_ hnot
      change valuesEqual (.scalar 2) (.scalar 3) = false
      rfl
    · obtain rfl := of_differs_nested hp
      rcases List.prefix_cons_iff.1 hle with rfl | ⟨q, rfl, hb⟩
      · rfl
      · rcases List.prefix_cons_iff.1 hb with rfl | ⟨q, rfl, hnil⟩
        · rfl
        · exact absurd (by rw [List.prefix_nil.1 hnil]; rfl) hne
  exact ((merged_worth_both (object_nested 1) (object_nested 2) (object_nested 3) hnone).1.2 hfits
    _ (List.Perm.refl _)).1

/-- A member is added and then changed inside: the diff names both, and what is added comes last. -/
theorem parent_after_child : Object (.obj [] : Value ℕ) ∧
    ∃ es, es.Perm (entriesOf (kept (createFlatDiff (.obj []) (nested ['a', 'b'] 1))
      (createFlatDiff (nested ['a', 'b'] 1) (nested ['a', 'b'] 2)))) ∧
        ¬Alike (applyChanges es (.obj [])) (nested ['a', 'b'] 2) ∧
        ¬Alike (applyChanges es (nested ['a', 'b'] 1)) (nested ['a', 'b'] 2) := by
  refine ⟨⟨.obj (by simp) (by simp) (by simp), [], rfl⟩, _, List.Perm.refl _, ?_, ?_⟩
  · intro halike
    have hlook := congrFun halike [['a'], ['b']]
    cases hlook
  · intro halike
    have hlook := congrFun halike [['a'], ['b']]
    cases hlook

end JsonDiff

end Text

end ArgusBackend
