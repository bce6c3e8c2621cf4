import ArgusBackend.Text.JsonDiff
import Mathlib.Data.List.Perm.Basic

/-!
# What diffs do

`look` is what a value holds at a path; two values are alike when they hold the same, so that a
member that is null, absent or an empty object makes no difference.  A diff leads from one object to
another when what it names is what the second holds and what it does not name is alike (`Leads`).

* `look_setByPath`, `alike_applyChanges` : where the application of a diff leads;
* `spec_flat`, `differs_iff` : what a diff names;
* `leads_diff` : the diff of two objects leads from the first to the second.
-/

namespace ArgusBackend

namespace Text

namespace JsonDiff

/-- The names on the way to a value. -/
abbrev Path := List Name

variable {σ : Type}

/-- What a value holds at a path, if it is neither null nor an object; an array is looked at as a
whole. -/
def look (v : Value σ) : Path → Option (Value σ)
  | [] => match v with
    | .null | .obj _ => none
    | leaf => some leaf
  | name :: path => look (v.member name) path

/-- Two values are equal up to members that are null, absent or empty objects; their arrays are
compared as wholes, so they are equal. -/
def Alike (a b : Value σ) : Prop := look a = look b

/-- A name with letters, without dots, and not an index. -/
def NameOk (name : Name) : Prop := name ≠ [] ∧ '.' ∉ name ∧ isIndex name = false

/-- The members of the objects in a value are named once, with such names. -/
inductive Valid : Value σ → Prop
  | null : Valid .null
  | scalar (value : σ) : Valid (.scalar value)
  | arr (items : List (Value σ)) : Valid (.arr items)
  | obj {fields : List (Name × Value σ)} :
      (fields.map (·.1)).Nodup → (∀ f ∈ fields, NameOk f.1) → (∀ f ∈ fields, Valid f.2) →
        Valid (.obj fields)

/-- Two values differ at a path: objects stand above it in both, and there only one of them has
something, or they are neither equal nor both objects. -/
def Differs [DecidableEq σ] : Path → Value σ → Value σ → Prop
  | [], .obj _, .obj _ => False
  | [], a, b => valuesEqual a b = false
  | name :: p, .obj fields, .obj fields' =>
    match fields.lookup name, fields'.lookup name with
    | some a, some b => Differs p a b
    | none, none => False
    | _, _ => p = []
  | _ :: _, _, _ => False

section Values

variable {a b t v : Value σ} {fields fields' : List (Name × Value σ)} {name k : Name}
  {p q : Path}

/-! ### Values and paths -/

mutual

theorem eq_of_same [DecidableEq σ] : ∀ {a b : Value σ}, a.same b = true → a = b
  | .null, .null, _ => rfl
  | .scalar a, .scalar b, h => by
    rw [Value.same, decide_eq_true_eq] at h
    rw [h]
  | .arr items, .arr items', h => by
    rw [Value.same] at h
    rw [eq_of_sameItems h]
  | .obj fields, .obj fields', h => by
    rw [Value.same] at h
    rw [eq_of_sameFields h]

theorem eq_of_sameItems [DecidableEq σ] : ∀ {items items' : List (Value σ)},
    Value.sameItems items items' = true → items = items'
  | [], [], _ => rfl
  | a :: items, b :: items', h => by
    rw [Value.sameItems, Bool.and_eq_true] at h
    rw [eq_of_same h.1, eq_of_sameItems h.2]

theorem eq_of_sameFields [DecidableEq σ] : ∀ {fields fields' : List (Name × Value σ)},
    Value.sameFields fields fields' = true → fields = fields'
  | [], [], _ => rfl
  | (k, a) :: fields, (k', b) :: fields', h => by
    rw [Value.sameFields, Bool.and_eq_true, Bool.and_eq_true, decide_eq_true_eq] at h
    rw [h.1.1, eq_of_same h.1.2, eq_of_sameFields h.2]

end

theorem look_null (q : Path) : look (.null : Value σ) q = none := by
  induction q with
  | nil => rfl
  | cons name q ih => exact ih

theorem look_empty (hempty : v.isEmpty = true) (q : Path) : look v q = none := by
  cases q with
  | nil =>
    unfold Value.isEmpty at hempty
    split at hempty <;> first | rfl | cases hempty
  | cons name q =>
    unfold Value.isEmpty at hempty
    split at hempty
    · exact look_null q
    · exact look_null q
    · cases hempty

theorem alike_of_valuesEqual [DecidableEq σ] (h : valuesEqual a b = true) : Alike a b := by
  rw [valuesEqual, Bool.or_eq_true, Bool.and_eq_true] at h
  rcases h with ⟨ha, hb⟩ | h
  · funext q
    rw [look_empty ha, look_empty hb]
  · rw [eq_of_same h]
    exact rfl

theorem lookup_cons_ne (hne : k ≠ name) : ((name, v) :: fields).lookup k = fields.lookup k := by
  rw [List.lookup_cons, beq_eq_false_iff_ne.2 hne]

theorem lookup_setField (name : Name) (member : Value σ) (fields : List (Name × Value σ)) :
    (Value.setField name member fields).lookup k =
      if k = name then some member else fields.lookup k := by
  by_cases hk : k = name
  · subst hk
    rw [if_pos rfl]
    induction fields with
    | nil => exact List.lookup_cons_self
    | cons f fields ih =>
      unfold Value.setField
      split_ifs with h
      · exact List.lookup_cons_self
      · exact List.lookup_cons_self
      · rw [lookup_cons_ne h, ih]
  · rw [if_neg hk]
    induction fields with
    | nil => exact lookup_cons_ne hk
    | cons f fields ih =>
      obtain ⟨k', v⟩ := f
      unfold Value.setField
      split_ifs with h
      · subst h
        rw [lookup_cons_ne hk, lookup_cons_ne hk]
      · exact lookup_cons_ne hk
      · rw [List.lookup_cons, List.lookup_cons, ih]

theorem look_setField (name : Name) (member : Value σ) (fields : List (Name × Value σ))
    (q : Path) : look (.obj (Value.setField name member fields)) (k :: q) =
      if k = name then look member q else look (.obj fields) (k :: q) := by
  simp only [look, Value.member, Value.fields, lookup_setField]
  split_ifs <;> rfl

/-- A value has the members of its fields. -/
theorem look_fields (t : Value σ) (k : Name) (q : Path) :
    look (.obj t.fields) (k :: q) = look t (k :: q) := rfl

/-- What is set below a first name that is there already, or starts as nothing. -/
theorem setByPath_cons {t v : Value σ} {seg next : Name} (rest : Path) (hseg : isIndex seg = false)
    (hnext : isIndex next = false) : ∃ member,
      setByPath t (seg :: next :: rest) v =
        .obj (Value.setField seg (setByPath member (next :: rest) v) t.fields) ∧
      ∀ q, look member q = look t (seg :: q) := by
  rw [setByPath, if_neg (by simp [hseg])]
  refine ⟨_, rfl, fun q => ?_⟩
  rw [look, Value.member, hnext]
  split
  next h =>
    rw [h]
    exact (look_empty rfl q).trans (look_null q).symm
  next h =>
    rw [h]
    exact (look_empty rfl q).trans (look_null q).symm
  next h => rw [h]; rfl

/-- What is set at a path is there, the values on the way are objects, and all else stays. -/
theorem look_setByPath (t v : Value σ) (hne : p ≠ []) (hnames : ∀ n ∈ p, isIndex n = false)
    (q : Path) : look (setByPath t p v) q =
      if p <+: q then look v (q.drop p.length) else if q <+: p then none else look t q := by
  induction p generalizing t q with
  | nil => exact absurd rfl hne
  | cons seg p ih =>
    rw [List.forall_mem_cons] at hnames
    cases p with
    | nil =>
      rw [setByPath, if_neg (by simp [hnames.1])]
      cases q with
      | nil => simp [look]
      | cons k q =>
        rw [look_setField, look_fields]
        by_cases hk : k = seg
        · subst hk
          simp
        · simp [hk, Ne.symm hk, List.cons_prefix_cons]
    | cons next rest =>
      obtain ⟨member, hset, hmember⟩ := setByPath_cons (t := t) (v := v) rest hnames.1
        (hnames.2 next List.mem_cons_self)
      rw [hset]
      cases q with
      | nil => simp [look]
      | cons k q =>
        rw [look_setField, look_fields]
        by_cases hk : k = seg
        · subst hk
          rw [if_pos rfl, ih _ (by simp) hnames.2, hmember]
          simp [List.cons_prefix_cons]
        · simp [hk, Ne.symm hk, List.cons_prefix_cons]

end Values

/-! ### Diffs that lead from one object to another -/

section Leading

variable {a b b' t : Value σ} {E : Path → Value σ → Prop} {older newer d : ChangesDiff σ}

/-- What is named at paths is what the second value holds there, and what is not is alike. -/
structure Leads (E : Path → Value σ → Prop) (t b : Value σ) : Prop where
  named : ∀ p v, E p v → p ≠ [] ∧ ∀ n ∈ p, isIndex n = false
  value : ∀ p v, E p v → ∀ q, look v q = look b (p ++ q)
  inner : ∀ p v, E p v → ∀ q, q <+: p → q ≠ p → look b q = none
  outside : ∀ q, (∀ p v, E p v → ¬p <+: q) → look t q = look b q

/-- The paths of a diff and what they become. -/
def Entry (d : ChangesDiff σ) (p : Path) (v : Value σ) : Prop :=
  ∃ key change, d.lookup key = some change ∧ p = splitPath key ∧ v = change.current

/-- One path is set, and the others still lead there. -/
theorem Leads.step {p : Path} {v : Value σ} {E' : Path → Value σ → Prop} (h : Leads E t b)
    (hp : E p v) (hless : ∀ p' v', E' p' v' → E p' v')
    (hrest : ∀ p' v', E p' v' → (p' = p ∧ v' = v) ∨ E' p' v') :
    Leads E' (setByPath t p v) b where
  named p' v' hE := h.named p' v' (hless p' v' hE)
  value p' v' hE := h.value p' v' (hless p' v' hE)
  inner p' v' hE := h.inner p' v' (hless p' v' hE)
  outside q hq := by
    obtain ⟨hne, hnames⟩ := h.named p v hp
    rw [look_setByPath t v hne hnames]
    split_ifs with hin hon
    · obtain ⟨q, rfl⟩ := hin
      rw [List.drop_left, h.value p v hp]
    · refine (h.inner p v hp q hon fun heq => hin ?_).symm
      rw [heq]
    · refine h.outside q fun p' v' hE hle => ?_
      rcases hrest p' v' hE with ⟨rfl, -⟩ | hE'
      · exact hin hle
      · exact hq p' v' hE' hle

theorem alike_of_leads {es : List (Path × Value σ)} (h : Leads (fun p v => (p, v) ∈ es) t b) :
    Alike (es.foldl (fun t e => setByPath t e.1 e.2) t) b := by
  induction es generalizing t with
  | nil => exact funext fun q => h.outside q fun _ _ hE => (nomatch hE)
  | cons e es ih =>
    refine ih (h.step (p := e.1) (v := e.2) List.mem_cons_self
      (fun _ _ hE => List.mem_cons_of_mem _ hE) fun p' v' hE => ?_)
    rcases List.mem_cons.1 hE with heq | hE
    · exact .inl (Prod.mk.inj heq)
    · exact .inr hE

theorem mem_entriesOf {key : Name} {change : Change σ} :
    (key, change) ∈ entriesOf d ↔ d.lookup key = some change := by
  rw [entriesOf, List.mem_map]
  constructor
  · rintro ⟨⟨key', change'⟩, hmem, heq⟩
    obtain ⟨rfl, rfl⟩ := Prod.mk.inj heq
    exact AList.mem_lookup_iff.2 hmem
  · exact fun h => ⟨⟨key, change⟩, AList.mem_lookup_iff.1 h, rfl⟩

/-- A diff that leads from one value to another is applied in any order. -/
theorem alike_applyChanges {es : List (Name × Change σ)} (h : Leads (Entry d) t b)
    (hperm : es.Perm (entriesOf d)) : Alike (applyChanges es t) b := by
  have hmap : applyChanges es t =
      (es.map fun e => (splitPath e.1, e.2.current)).foldl (fun t e => setByPath t e.1 e.2) t := by
    rw [applyChanges, List.foldl_map]
  have hE : (fun p v => (p, v) ∈ es.map fun e => (splitPath e.1, e.2.current)) = Entry d := by
    funext p v
    refine propext ?_
    rw [List.mem_map]
    constructor
    · rintro ⟨⟨key, change⟩, hmem, heq⟩
      obtain ⟨rfl, rfl⟩ := Prod.mk.inj heq
      exact ⟨key, change, mem_entriesOf.1 (hperm.mem_iff.1 hmem), rfl, rfl⟩
    · rintro ⟨key, change, hlookup, rfl, rfl⟩
      exact ⟨(key, change), hperm.mem_iff.2 (mem_entriesOf.2 hlookup), rfl⟩
  rw [hmap]
  exact alike_of_leads (hE ▸ h)

/-- A diff leads from where it leads. -/
theorem Leads.again (h : Leads E t b) : Leads E b b := { h with outside := fun _ _ => rfl }

end Leading

/-! ### What a diff names -/

section Fields

variable {fields : List (Name × Value σ)} {k : Name} {v : Value σ}

theorem lookup_of_mem (hnodup : (fields.map (·.1)).Nodup) (hmem : (k, v) ∈ fields) :
    fields.lookup k = some v := by
  induction fields with
  | nil => cases hmem
  | cons f fields ih =>
    obtain ⟨k', v'⟩ := f
    rw [List.map_cons, List.nodup_cons] at hnodup
    rcases List.mem_cons.1 hmem with heq | hmem
    · obtain ⟨rfl, rfl⟩ := Prod.mk.inj heq
      simp
    · have hne : k ≠ k' := fun heq => hnodup.1 (heq ▸ List.mem_map_of_mem (f := (·.1)) hmem)
      rw [lookup_cons_ne hne]
      exact ih hnodup.2 hmem

theorem mem_of_lookup (hlookup : fields.lookup k = some v) : (k, v) ∈ fields := by
  induction fields with
  | nil => cases hlookup
  | cons f fields ih =>
    obtain ⟨k', v'⟩ := f
    by_cases hk : k = k'
    · subst hk
      rw [List.lookup_cons_self] at hlookup
      obtain rfl := Option.some.inj hlookup
      exact List.mem_cons_self
    · rw [lookup_cons_ne hk] at hlookup
      exact List.mem_cons_of_mem _ (ih hlookup)

theorem exists_lookup {f : Name × Value σ} (hmem : f ∈ fields) :
    ∃ v, fields.lookup f.1 = some v := by
  induction fields with
  | nil => cases hmem
  | cons f' fields ih =>
    rw [List.lookup_cons]
    split
    · exact ⟨_, rfl⟩
    next hne =>
      rcases List.mem_cons.1 hmem with rfl | hmem
      · simp at hne
      · exact ih hmem

theorem look_member (hlookup : fields.lookup k = some v) (q : Path) :
    look (.obj fields) (k :: q) = look v q := by
  rw [look, Value.member, Value.fields, hlookup]
  rfl

theorem look_missing (hnone : fields.lookup k = none) (q : Path) :
    look (.obj fields) (k :: q) = none := by
  rw [look, Value.member, Value.fields, hnone]
  exact look_null q

end Fields

section Puts

variable {es : List (Path × Change σ)} {key : Name}

/-- `out[path]` for a path of names. -/
def put (base : Path) (out : ChangesDiff σ) (e : Path × Change σ) : ChangesDiff σ :=
  out.insert (Words.join '.' (base ++ e.1)) e.2

theorem lookup_puts {out : ChangesDiff σ} {change : Change σ}
    (hlookup : (es.foldl (put []) out).lookup key = some change) :
    (∃ e ∈ es, key = Words.join '.' e.1 ∧ change = e.2) ∨ out.lookup key = some change := by
  induction es generalizing out with
  | nil => exact .inr hlookup
  | cons e es ih =>
    rcases ih hlookup with ⟨e', he', hrest⟩ | hlookup
    · exact .inl ⟨e', List.mem_cons_of_mem _ he', hrest⟩
    · rw [put, List.nil_append] at hlookup
      by_cases hk : key = Words.join '.' e.1
      · subst hk
        rw [AList.lookup_insert] at hlookup
        exact .inl ⟨e, List.mem_cons_self, rfl, (Option.some.inj hlookup).symm⟩
      · rw [AList.lookup_insert_ne hk] at hlookup
        exact .inr hlookup

theorem exists_lookup_puts (out : ChangesDiff σ)
    (h : (∃ e ∈ es, key = Words.join '.' e.1) ∨ out.lookup key ≠ none) :
    (es.foldl (put []) out).lookup key ≠ none := by
  induction es generalizing out with
  | nil => exact h.resolve_left fun ⟨e, he, _⟩ => (nomatch he)
  | cons e es ih =>
    refine ih _ ?_
    by_cases hk : key = Words.join '.' e.1
    · refine .inr ?_
      rw [put, List.nil_append, hk, AList.lookup_insert]
      simp
    · rcases h with ⟨e', he', heq⟩ | hout
      · rcases List.mem_cons.1 he' with rfl | he'
        · exact absurd heq hk
        · exact .inl ⟨e', he', heq⟩
      · refine .inr ?_
        rwa [put, List.nil_append, AList.lookup_insert_ne hk]

end Puts

section Diffs

variable [DecidableEq σ] {a b : Value σ} {fields fields' : List (Name × Value σ)}

mutual

/-- The changes of a diff, with their paths from here. -/
def flat : Value σ → Value σ → List (Path × Change σ)
  | .obj fields, .obj fields' => flatFields fields fields' ++
      (fields'.filter fun f => (fields.lookup f.1).isNone).map fun f => ([f.1], ⟨.null, f.2⟩)
  | orig, upd => if valuesEqual orig upd then [] else [([], ⟨orig, upd⟩)]

/-- The changes of the members of two objects. -/
def flatFields : List (Name × Value σ) → List (Name × Value σ) → List (Path × Change σ)
  | [], _ => []
  | (k, v) :: fields, fields' =>
    (match fields'.lookup k with
      | none => [([k], ⟨v, .null⟩)]
      | some v' => (flat v v').map fun e => (k :: e.1, e.2)) ++ flatFields fields fields'

end

theorem child_join {base : Path} (hbase : ∀ n ∈ base, n ≠ []) (name : Name) :
    child (Words.join '.' base) name = Words.join '.' (base ++ [name]) := by
  cases base with
  | nil => rfl
  | cons n base =>
    rw [List.forall_mem_cons] at hbase
    have hne : Words.join '.' (n :: base) ≠ [] := by
      cases base with
      | nil => exact hbase.1
      | cons n' base => simp [Words.join, hbase.1]
    rw [child, if_neg hne, Words.join_concat (by simp)]

/-- The table is filled with the changes. -/
theorem diffFields_eq (hnames : ∀ f ∈ fields, f.1 ≠ [])
    (hmembers : ∀ f ∈ fields, ∀ (b : Value σ) (base : Path) (out : ChangesDiff σ),
      (∀ n ∈ base, n ≠ []) →
        diffRecursive f.2 b (Words.join '.' base) out = (flat f.2 b).foldl (put base) out)
    (fields' : List (Name × Value σ)) (base : Path) (out : ChangesDiff σ)
    (hbase : ∀ n ∈ base, n ≠ []) :
    diffFields fields fields' (Words.join '.' base) out =
      (flatFields fields fields').foldl (put base) out := by
  induction fields generalizing out with
  | nil => rfl
  | cons f fields ih =>
    obtain ⟨k, v⟩ := f
    rw [List.forall_mem_cons] at hnames hmembers
    rw [diffFields, flatFields, List.foldl_append, ih hnames.2 hmembers.2, child_join hbase]
    congr 1
    cases fields'.lookup k with
    | none => rfl
    | some v' =>
      dsimp only
      rw [hmembers.1 v' (base ++ [k]) out, List.foldl_map]
      · congr 1
        funext out e
        rw [put, put, List.append_assoc, List.singleton_append]
      · intro n hn
        rcases List.mem_append.1 hn with hn | hn
        · exact hbase n hn
        · exact List.mem_singleton.1 hn ▸ hnames.1

theorem put_leaf (orig upd : Value σ) (base : Path) (out : ChangesDiff σ) :
    (if valuesEqual orig upd then out else out.insert (Words.join '.' base) ⟨orig, upd⟩) =
      (if valuesEqual orig upd then [] else [([], ⟨orig, upd⟩)]).foldl (put base) out := by
  split_ifs
  · rfl
  · rw [List.foldl_cons, put, List.append_nil]
    rfl

theorem diffRecursive_eq (ha : Valid a) (b : Value σ) (base : Path) (out : ChangesDiff σ)
    (hbase : ∀ n ∈ base, n ≠ []) :
    diffRecursive a b (Words.join '.' base) out = (flat a b).foldl (put base) out := by
  induction ha generalizing b base out with
  | null => exact put_leaf _ b base out
  | scalar value => exact put_leaf _ b base out
  | arr items => exact put_leaf _ b base out
  | obj hnodup hnames hvalid ih =>
    cases b with
    | obj fields' =>
      rw [diffRecursive, flat, List.foldl_append, List.foldl_map,
        diffFields_eq (fun f hf => (hnames f hf).1) (fun f hf => ih f hf) fields' base out hbase]
      congr 1
      funext out f
      rw [child_join hbase, put]
    | _ => exact put_leaf _ _ base out

theorem mem_flatFields {e : Path × Change σ} : e ∈ flatFields fields fields' ↔
    ∃ k v, (k, v) ∈ fields ∧ ((fields'.lookup k = none ∧ e = ([k], ⟨v, .null⟩)) ∨
      ∃ v', fields'.lookup k = some v' ∧ ∃ e' ∈ flat v v', e = (k :: e'.1, e'.2)) := by
  induction fields with
  | nil => simp [flatFields]
  | cons f fields ih =>
    obtain ⟨k, v⟩ := f
    rw [flatFields, List.mem_append, ih]
    constructor
    · rintro (hhere | ⟨k', v', hmem, hrest⟩)
      · refine ⟨k, v, List.mem_cons_self, ?_⟩
        split at hhere
        next hnone => exact .inl ⟨hnone, List.mem_singleton.1 hhere⟩
        next v' hsome =>
          obtain ⟨e', he', heq⟩ := List.mem_map.1 hhere
          exact .inr ⟨v', hsome, e', he', heq.symm⟩
      · exact ⟨k', v', List.mem_cons_of_mem _ hmem, hrest⟩
    · rintro ⟨k', v', hmem, hrest⟩
      rcases List.mem_cons.1 hmem with heq | hmem
      · obtain ⟨rfl, rfl⟩ := Prod.mk.inj heq
        refine .inl ?_
        rcases hrest with ⟨hnone, rfl⟩ | ⟨v'', hsome, e', he', rfl⟩
        · rw [hnone]
          exact List.mem_singleton_self _
        · rw [hsome]
          exact List.mem_map.2 ⟨e', he', rfl⟩
      · exact .inr ⟨k', v', hmem, hrest⟩

/-- What the changes of two values tell. -/
structure Spec (es : List (Path × Change σ)) (a b : Value σ) : Prop where
  named : ∀ e ∈ es, ∀ n ∈ e.1, NameOk n
  current : ∀ e ∈ es, ∀ q, look e.2.current q = look b (e.1 ++ q)
  inner : ∀ e ∈ es, ∀ q, q <+: e.1 → q ≠ e.1 → look a q = none ∧ look b q = none
  outside : ∀ q, (∀ e ∈ es, ¬e.1 <+: q) → look a q = look b q

theorem spec_leaf (a b : Value σ) :
    Spec (if valuesEqual a b then [] else [([], ⟨a, b⟩)]) a b := by
  split_ifs with heq
  · exact ⟨by simp, by simp, by simp, fun q _ => congrFun (alike_of_valuesEqual heq) q⟩
  · refine ⟨by simp, by simp, fun e he q hle hne => ?_, fun q hq => ?_⟩
    · obtain rfl := List.mem_singleton.1 he
      exact absurd (List.prefix_nil.1 hle) hne
    · exact absurd List.nil_prefix (hq _ (List.mem_singleton_self _))

theorem spec_flat (ha : Valid a) (hb : Valid b) : Spec (flat a b) a b := by
  induction ha generalizing b with
  | null => exact spec_leaf _ b
  | scalar value => exact spec_leaf _ b
  | arr items => exact spec_leaf _ b
  | @obj fields hnodup hnames hvalid ih =>
    cases hb with
    | null => exact spec_leaf _ _
    | scalar value => exact spec_leaf _ _
    | arr items => exact spec_leaf _ _
    | @obj fields' hnodup' hnames' hvalid' =>
      have hcases {e : Path × Change σ} (he : e ∈ flat (.obj fields) (.obj fields')) :
          (∃ k v, (k, v) ∈ fields ∧ fields'.lookup k = none ∧ e = ([k], ⟨v, .null⟩)) ∨
          (∃ k v v', (k, v) ∈ fields ∧ fields'.lookup k = some v' ∧
            ∃ e' ∈ flat v v', e = (k :: e'.1, e'.2)) ∨
          ∃ k v', (k, v') ∈ fields' ∧ fields.lookup k = none ∧ e = ([k], ⟨.null, v'⟩) := by
        rw [flat, List.mem_append, mem_flatFields] at he
        rcases he with ⟨k, v, hmem, ⟨hnone, rfl⟩ | ⟨v', hsome, e', he', rfl⟩⟩ | he
        · exact .inl ⟨k, v, hmem, hnone, rfl⟩
        · exact .inr (.inl ⟨k, v, v', hmem, hsome, e', he', rfl⟩)
        · obtain ⟨⟨k, v'⟩, hmem, rfl⟩ := List.mem_map.1 he
          rw [List.mem_filter, Option.isNone_iff_eq_none] at hmem
          exact .inr (.inr ⟨k, v', hmem.1, hmem.2, rfl⟩)
      have hbelow {k : Name} {v v' : Value σ} (hmem : (k, v) ∈ fields)
          (hsome : fields'.lookup k = some v') : Spec (flat v v') v v' :=
        ih (k, v) hmem (hvalid' (k, v') (mem_of_lookup hsome))
      refine ⟨fun e he n hn => ?_, fun e he q => ?_, fun e he q hle hne => ?_, fun q hq => ?_⟩
      · rcases hcases he with ⟨k, v, hmem, -, rfl⟩ | ⟨k, v, v', hmem, hsome, e', he', rfl⟩ |
          ⟨k, v', hmem, -, rfl⟩
        · exact List.mem_singleton.1 hn ▸ hnames _ hmem
        · rcases List.mem_cons.1 hn with rfl | hn
          · exact hnames _ hmem
          · exact (hbelow hmem hsome).named e' he' n hn
        · exact List.mem_singleton.1 hn ▸ hnames' _ hmem
      · rcases hcases he with ⟨k, v, hmem, hnone, rfl⟩ | ⟨k, v, v', hmem, hsome, e', he', rfl⟩ |
          ⟨k, v', hmem, -, rfl⟩
        · exact (look_null q).trans (look_missing hnone q).symm
        · exact ((hbelow hmem hsome).current e' he' q).trans (look_member hsome _).symm
        · exact (look_member (lookup_of_mem hnodup' hmem) q).symm
      · -- what stands above a change is an object
        cases q with
        | nil => exact ⟨rfl, rfl⟩
        | cons k' q =>
          rcases hcases he with ⟨k, v, -, -, rfl⟩ | ⟨k, v, v', hmem, hsome, e', he', rfl⟩ |
            ⟨k, v', -, -, rfl⟩
          · exact absurd (List.IsPrefix.eq_of_length_le hle (by simp)) hne
          · obtain ⟨rfl, hle'⟩ := List.cons_prefix_cons.1 hle
            rw [look_member (lookup_of_mem hnodup hmem), look_member hsome]
            exact (hbelow hmem hsome).inner e' he' q hle' fun heq => hne (heq ▸ rfl)
          · exact absurd (List.IsPrefix.eq_of_length_le hle (by simp)) hne
      · cases q with
        | nil => rfl
        | cons k q =>
          have hout {e : Path × Change σ} (he : e ∈ flat (.obj fields) (.obj fields')) :
              ¬e.1 <+: k :: q := hq e he
          rw [flat] at hout
          cases hold : fields.lookup k with
          | none =>
            rw [look_missing hold]
            cases hnew : fields'.lookup k with
            | none => rw [look_missing hnew]
            | some v' =>
              refine absurd (List.cons_prefix_cons.2 ⟨rfl, List.nil_prefix⟩)
                (hout (List.mem_append_right _ (List.mem_map.2 ⟨(k, v'), List.mem_filter.2
                  ⟨mem_of_lookup hnew, by simp [hold]⟩, rfl⟩)))
          | some v =>
            have hmem := mem_of_lookup hold
            cases hnew : fields'.lookup k with
            | none =>
              exact absurd (List.cons_prefix_cons.2 ⟨rfl, List.nil_prefix⟩)
                (hout (List.mem_append_left _ (mem_flatFields.2 ⟨k, v, hmem, .inl ⟨hnew, rfl⟩⟩)))
            | some v' =>
              rw [look_member hold, look_member hnew]
              refine (hbelow hmem hnew).outside q fun e' he' hle => ?_
              exact hout (List.mem_append_left _ (mem_flatFields.2
                ⟨k, v, hmem, .inr ⟨v', hnew, e', he', rfl⟩⟩)) (List.cons_prefix_cons.2 ⟨rfl, hle⟩)

theorem mem_leaf {p : Path} : (∃ e ∈ (if valuesEqual a b then [] else
    [(([], ⟨a, b⟩) : Path × Change σ)]), e.1 = p) ↔ p = [] ∧ valuesEqual a b = false := by
  by_cases heq : valuesEqual a b = true <;> simp [heq, eq_comm]

theorem differs_leaf {p : Path} (hleaf : ∀ fields fields', a = .obj fields → b ≠ .obj fields') :
    Differs p a b ↔ p = [] ∧ valuesEqual a b = false := by
  cases p <;> cases a <;> cases b <;> simp_all [Differs]

/-- Which paths the changes of two values have. -/
theorem differs_iff (ha : Valid a) (p : Path) : (∃ e ∈ flat a b, e.1 = p) ↔ Differs p a b := by
  induction ha generalizing b p with
  | null =>
    rw [differs_leaf (by simp)]
    exact mem_leaf
  | scalar value =>
    rw [differs_leaf (by simp)]
    exact mem_leaf
  | arr items =>
    rw [differs_leaf (by simp)]
    exact mem_leaf
  | @obj fields hnodup hnames hvalid ih =>
    cases b with
    | obj fields' =>
      constructor
      · rintro ⟨e, he, rfl⟩
        rw [flat, List.mem_append, mem_flatFields] at he
        rcases he with ⟨k, v, hmem, ⟨hnone, rfl⟩ | ⟨v', hsome, e', he', rfl⟩⟩ | he
        · rw [Differs, lookup_of_mem hnodup hmem, hnone]
        · rw [Differs, lookup_of_mem hnodup hmem, hsome]
          exact (ih (k, v) hmem e'.1).1 ⟨e', he', rfl⟩
        · obtain ⟨f, hf, rfl⟩ := List.mem_map.1 he
          rw [List.mem_filter, Option.isNone_iff_eq_none] at hf
          obtain ⟨v', hsome⟩ := exists_lookup hf.1
          rw [Differs, hf.2, hsome]
      · intro hdiffers
        cases p with
        | nil => exact hdiffers.elim
        | cons k p =>
          rw [Differs] at hdiffers
          rw [flat]
          split at hdiffers
          next v v' hold hnew =>
            have hmem := mem_of_lookup hold
            obtain ⟨e', he', rfl⟩ := (ih (k, v) hmem p).2 hdiffers
            exact ⟨(k :: e'.1, e'.2), List.mem_append_left _ (mem_flatFields.2
              ⟨k, v, hmem, .inr ⟨v', hnew, e', he', rfl⟩⟩), rfl⟩
          next => exact hdiffers.elim
          next hboth hnone =>
            subst hdiffers
            cases hold : fields.lookup k with
            | none =>
              cases hnew : fields'.lookup k with
              | none => exact (hnone hold hnew).elim
              | some v' =>
                exact ⟨([k], ⟨.null, v'⟩), List.mem_append_right _ (List.mem_map.2 ⟨(k, v'),
                  List.mem_filter.2 ⟨mem_of_lookup hnew, by simp [hold]⟩, rfl⟩), rfl⟩
            | some v =>
              cases hnew : fields'.lookup k with
              | none =>
                exact ⟨([k], ⟨v, .null⟩), List.mem_append_left _ (mem_flatFields.2
                  ⟨k, v, mem_of_lookup hold, .inl ⟨hnew, rfl⟩⟩), rfl⟩
              | some v' => exact (hboth v v' hold hnew).elim
    | _ =>
      rw [differs_leaf (by simp)]
      exact mem_leaf

/-- The changes of two objects are not at the root. -/
theorem ne_nil_of_mem_flat {e : Path × Change σ}
    (he : e ∈ flat (.obj fields) (.obj fields')) : e.1 ≠ [] := by
  rw [flat, List.mem_append, mem_flatFields] at he
  rcases he with ⟨k, v, -, ⟨-, rfl⟩ | ⟨v', -, e', -, rfl⟩⟩ | he
  · simp
  · simp
  · obtain ⟨f, -, rfl⟩ := List.mem_map.1 he
    simp

theorem splitPath_join {p : Path} (hne : p ≠ []) (hp : ∀ n ∈ p, NameOk n) :
    splitPath (Words.join '.' p) = p := by
  have hjoin : Words.join '.' p ≠ [] := by
    cases p with
    | nil => exact absurd rfl hne
    | cons n p =>
      have hn := (hp n List.mem_cons_self).1
      cases p <;> simp [Words.join, hn]
  rw [splitPath, if_neg hjoin, Words.pieces_join (fun n hn => (hp n hn).2.1) hne]

/-- JSON objects. -/
def Object (v : Value σ) : Prop := Valid v ∧ ∃ fields, v = .obj fields

theorem createFlatDiff_eq (ha : Valid a) (b : Value σ) :
    createFlatDiff a b = (flat a b).foldl (put []) ∅ := diffRecursive_eq ha b [] ∅ (by simp)

/-- A diff leads from its first object to its second. -/
theorem leads_diff (ha : Object a) (hb : Object b) : Leads (Entry (createFlatDiff a b)) a b := by
  obtain ⟨ha, fields, rfl⟩ := ha
  obtain ⟨hb, fields', rfl⟩ := hb
  have hspec := spec_flat ha hb
  have hentry {p : Path} {v : Value σ}
      (h : Entry (createFlatDiff (.obj fields) (.obj fields')) p v) :
      ∃ e ∈ flat (.obj fields) (.obj fields'), p = e.1 ∧ v = e.2.current := by
    obtain ⟨key, change, hlookup, rfl, rfl⟩ := h
    rw [createFlatDiff_eq ha] at hlookup
    rcases lookup_puts hlookup with ⟨e, he, rfl, rfl⟩ | hlookup
    · exact ⟨e, he, splitPath_join (ne_nil_of_mem_flat he) (hspec.named e he), rfl⟩
    · rw [AList.lookup_empty] at hlookup
      cases hlookup
  refine ⟨fun p v h => ?_, fun p v h => ?_, fun p v h q hle hne => ?_, fun q hq => ?_⟩
  · obtain ⟨e, he, rfl, rfl⟩ := hentry h
    exact ⟨ne_nil_of_mem_flat he, fun n hn => (hspec.named e he n hn).2.2⟩
  · obtain ⟨e, he, rfl, rfl⟩ := hentry h
    exact hspec.current e he
  · obtain ⟨e, he, rfl, rfl⟩ := hentry h
    exact (hspec.inner e he q hle hne).2
  · refine hspec.outside q fun e he hle => ?_
    have hsome := exists_lookup_puts ∅ (.inl ⟨e, he, rfl⟩)
    obtain ⟨change, hlookup⟩ := Option.ne_none_iff_exists'.1 hsome
    rw [← createFlatDiff_eq ha] at hlookup
    refine hq e.1 change.current ⟨_, change, hlookup, ?_, rfl⟩ hle
    exact (splitPath_join (ne_nil_of_mem_flat he) (hspec.named e he)).symm

theorem splitPath_of_differs (ha : Object a) (hb : Object b) {p : Path} (hp : Differs p a b) :
    splitPath (Words.join '.' p) = p := by
  obtain ⟨ha, fields, rfl⟩ := ha
  obtain ⟨hb, fields', rfl⟩ := hb
  obtain ⟨e, he, rfl⟩ := (differs_iff ha p).2 hp
  exact splitPath_join (ne_nil_of_mem_flat he) ((spec_flat ha hb).named e he)

/-- The keys of the diff of two objects are the paths at which they differ. -/
theorem lookup_diff (ha : Object a) {key : Name} : (createFlatDiff a b).lookup key ≠ none ↔
    ∃ p, Differs p a b ∧ key = Words.join '.' p := by
  rw [createFlatDiff_eq ha.1]
  constructor
  · intro h
    obtain ⟨change, hlookup⟩ := Option.ne_none_iff_exists'.1 h
    rcases lookup_puts hlookup with ⟨e, he, rfl, -⟩ | hlookup
    · exact ⟨e.1, (differs_iff ha.1 e.1).1 ⟨e, he, rfl⟩, rfl⟩
    · rw [AList.lookup_empty] at hlookup
      cases hlookup
  · rintro ⟨p, hp, rfl⟩
    obtain ⟨e, he, rfl⟩ := (differs_iff ha.1 p).2 hp
    exact exists_lookup_puts ∅ (.inl ⟨e, he, rfl⟩)

end Diffs

end JsonDiff

end Text

end ArgusBackend
