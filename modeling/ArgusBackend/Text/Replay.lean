import ArgusBackend.Text.Paths

/-!
# When a diff is empty

A diff leads from its first object to its second, in whatever order it is applied.  Objects that are
equal up to members that are null, absent or empty objects have an empty diff only when the members
of the one stand against members of the other (`Matched`): a null against nothing is a change.

* `differs_of_at`, `not_differs_iff` : where objects that are alike still differ;
* `diff_exact` : when an empty diff means that they are alike.
-/

namespace ArgusBackend

namespace Text

namespace JsonDiff

variable {σ : Type}

/-- What stands at a path, if objects stand above it. -/
def Value.at_ : Value σ → Path → Option (Value σ)
  | v, [] => some v
  | .obj fields, name :: p => (fields.lookup name).bind (Value.at_ · p)
  | _, _ :: _ => none

/-- Objects at one place have members of the same names, and no null stands against an object that
has members. -/
structure Matched (a b : Value σ) : Prop where
  names : ∀ p fields fields', a.at_ p = some (.obj fields) → b.at_ p = some (.obj fields') →
    ∀ name, (fields.lookup name).isSome = (fields'.lookup name).isSome
  left : ∀ p fields, a.at_ p = some (.obj fields) → b.at_ p = some .null → fields = []
  right : ∀ p fields, a.at_ p = some .null → b.at_ p = some (.obj fields) → fields = []

section Members

variable {a b v v' : Value σ} {fields fields' : List (Name × Value σ)} {name : Name} {p q : Path}

theorem at_cons (h : fields.lookup name = some v) (p : Path) :
    (Value.obj fields).at_ (name :: p) = v.at_ p := by
  rw [Value.at_, h]
  rfl

/-- The members of matched objects match. -/
theorem Matched.member (h : Matched (.obj fields) (.obj fields'))
    (hold : fields.lookup name = some v) (hnew : fields'.lookup name = some v') :
    Matched v v' where
  names p fs fs' hv hv' :=
    h.names (name :: p) fs fs' (by rwa [at_cons hold]) (by rwa [at_cons hnew])
  left p fs hv hv' := h.left (name :: p) fs (by rwa [at_cons hold]) (by rwa [at_cons hnew])
  right p fs hv hv' := h.right (name :: p) fs (by rwa [at_cons hold]) (by rwa [at_cons hnew])

/-- So do those of objects that are alike. -/
theorem Alike.member (h : Alike (.obj fields) (.obj fields'))
    (hold : fields.lookup name = some v) (hnew : fields'.lookup name = some v') : Alike v v' := by
  funext q
  rw [← look_member hold, ← look_member hnew, h]

variable [DecidableEq σ]

mutual

theorem same_refl : ∀ a : Value σ, a.same a = true
  | .null => rfl
  | .scalar a => by rw [Value.same, decide_eq_true rfl]
  | .arr items => by rw [Value.same, sameItems_refl items]
  | .obj fields => by rw [Value.same, sameFields_refl fields]

theorem sameItems_refl : ∀ items : List (Value σ), Value.sameItems items items = true
  | [] => rfl
  | a :: items => by rw [Value.sameItems, same_refl a, sameItems_refl items, Bool.and_self]

theorem sameFields_refl : ∀ fields : List (Name × Value σ), Value.sameFields fields fields = true
  | [] => rfl
  | (k, a) :: fields => by
    rw [Value.sameFields, same_refl a, sameFields_refl fields, decide_eq_true rfl, Bool.and_self,
      Bool.and_self]

end

/-- Values that are alike and are not both objects are compared as equal, but for a null and an
object that has members. -/
theorem valuesEqual_of_alike (halike : Alike a b)
    (hobjects : ∀ fields fields', a = .obj fields → b ≠ .obj fields')
    (hleft : ∀ fields, a = .obj fields → b = .null → fields = [])
    (hright : ∀ fields, a = .null → b = .obj fields → fields = []) : valuesEqual a b = true := by
  have hsame : a = b → valuesEqual a b = true := fun heq => by
    rw [heq, valuesEqual, same_refl, Bool.or_true]
  have hlook : look a [] = look b [] := congrFun halike []
  cases a with
  | null =>
    cases b with
    | null => exact hsame rfl
    | obj fields' =>
      rw [hright fields' rfl rfl]
      rfl
    | _ => cases hlook
  | obj fields =>
    cases b with
    | null =>
      rw [hleft fields rfl rfl]
      rfl
    | obj fields' => exact absurd rfl (hobjects fields fields' rfl)
    | _ => cases hlook
  | scalar value =>
    cases b with
    | scalar value' => exact hsame (Option.some.inj hlook)
    | arr items => cases hlook
    | _ => cases hlook
  | arr items =>
    cases b with
    | arr items' => exact hsame (Option.some.inj hlook)
    | scalar value => cases hlook
    | _ => cases hlook

/-- Values that differ below a place differ. -/
theorem differs_of_at (ha : a.at_ p = some v) (hb : b.at_ p = some v') (h : Differs q v v') :
    Differs (p ++ q) a b := by
  induction p generalizing a b with
  | nil =>
    obtain rfl := Option.some.inj ha
    obtain rfl := Option.some.inj hb
    exact h
  | cons name p ih =>
    cases a with
    | obj fields =>
      cases b with
      | obj fields' =>
        obtain ⟨x, hx, ha⟩ := Option.bind_eq_some_iff.mp ha
        obtain ⟨y, hy, hb⟩ := Option.bind_eq_some_iff.mp hb
        rw [List.cons_append, Differs, hx, hy]
        exact ih ha hb
      | _ => cases hb
    | _ => cases ha

theorem Matched.not_differs (hmatched : Matched a b) (halike : Alike a b) (p : Path) :
    ¬Differs p a b := by
  induction p generalizing a b with
  | nil =>
    intro hdiffers
    have hobjects : ∀ fields fields', a = .obj fields → b ≠ .obj fields' := by
      rintro fields fields' rfl rfl
      exact hdiffers
    rw [differs_leaf hobjects] at hdiffers
    refine Bool.false_ne_true (hdiffers.2.symm.trans (valuesEqual_of_alike halike hobjects ?_ ?_))
    · exact fun fields ha hb => hmatched.left [] fields (congrArg some ha) (congrArg some hb)
    · exact fun fields ha hb => hmatched.right [] fields (congrArg some ha) (congrArg some hb)
  | cons name p ih =>
    cases a with
    | obj fields =>
      cases b with
      | obj fields' =>
        have hnames := hmatched.names [] fields fields' rfl rfl name
        rw [Differs]
        cases hold : fields.lookup name with
        | none =>
          cases hnew : fields'.lookup name with
          | none => exact id
          | some v' => simp [hold, hnew] at hnames
        | some v =>
          cases hnew : fields'.lookup name with
          | none => simp [hold, hnew] at hnames
          | some v' => exact ih (hmatched.member hold hnew) (halike.member hold hnew)
      | _ => exact id
    | _ => exact id

theorem matched_of_not_differs (h : ∀ p, ¬Differs p a b) : Matched a b where
  names p fields fields' ha hb name := by
    have hnot := fun hdiffers => h _ (differs_of_at (q := [name]) ha hb hdiffers)
    rw [Differs] at hnot
    cases hold : fields.lookup name <;> cases hnew : fields'.lookup name <;> simp_all
  left p fields ha hb := by
    by_contra hne
    obtain ⟨f, fields, rfl⟩ := List.exists_cons_of_ne_nil hne
    exact h _ (differs_of_at (q := []) ha hb rfl)
  right p fields ha hb := by
    by_contra hne
    obtain ⟨f, fields, rfl⟩ := List.exists_cons_of_ne_nil hne
    exact h _ (differs_of_at (q := []) ha hb rfl)

theorem createFlatDiff_eq_empty (ha : Object a) :
    createFlatDiff a b = ∅ ↔ ∀ p, ¬Differs p a b := by
  have hkeys : createFlatDiff a b = ∅ ↔ ∀ key, (createFlatDiff a b).lookup key = none := by
    refine ⟨fun h key => by rw [h, AList.lookup_empty], fun h => Table.eq_empty_of_keys ?_⟩
    refine List.eq_nil_iff_forall_not_mem.mpr fun key hkey => ?_
    have hsome := AList.lookup_isSome.mpr (AList.mem_keys.mpr hkey)
    rw [h key] at hsome
    cases hsome
  rw [hkeys]
  constructor
  · exact fun h p hp => (lookup_diff ha).mpr ⟨p, hp, rfl⟩ (h _)
  · intro h key
    by_contra hkey
    obtain ⟨p, hp, -⟩ := (lookup_diff ha).mp hkey
    exact h p hp

/-- A diff is applied exactly, in any order of its entries; and it is empty exactly for objects that
are alike, unless these have a member against nothing, or a null against an object with members. -/
theorem diff_exact (ha : Object a) (hb : Object b) :
    ((∀ es, es.Perm (entriesOf (createFlatDiff a b)) → Alike (applyChanges es a) b) ∧
      (createFlatDiff a b = ∅ ↔ Alike a b)) ↔ (Alike a b → Matched a b) := by
  have hreplay : ∀ es, es.Perm (entriesOf (createFlatDiff a b)) → Alike (applyChanges es a) b :=
    fun es hperm => alike_applyChanges (leads_diff ha hb) hperm
  have halike (hempty : createFlatDiff a b = ∅) : Alike a b :=
    hreplay [] (by rw [hempty]; exact List.Perm.refl _)
  constructor
  · rintro ⟨-, hiff⟩ h
    exact matched_of_not_differs ((createFlatDiff_eq_empty ha).mp (hiff.mpr h))
  · refine fun h => ⟨hreplay, halike, fun hab => ?_⟩
    exact (createFlatDiff_eq_empty ha).mpr fun p => (h hab).not_differs hab p

end Members

/-! ### Two versions of an object -/

/-- An object with a nested one. -/
def draft : Value ℕ :=
  .obj [(['a'], .obj [(['b'], .scalar 1), (['c'], .scalar 2)]), (['t'], .scalar 5)]

/-- One nested member is changed, one member is taken out and an array is put in. -/
def edited : Value ℕ :=
  .obj [(['a'], .obj [(['b'], .scalar 1), (['c'], .scalar 3)]), (['u'], .arr [.scalar 7])]

theorem valid_pair (n m : ℕ) :
    Valid (.obj [(['b'], .scalar n), (['c'], .scalar m)] : Value ℕ) :=
  .obj (by simp) (by simp [NameOk, isIndex]) (by simpa using ⟨.scalar n, .scalar m⟩)

theorem object_draft : Object draft :=
  ⟨.obj (by decide) (by simp [NameOk, isIndex]) (by simpa using ⟨valid_pair 1 2, .scalar 5⟩), _, rfl⟩

theorem object_edited : Object edited :=
  ⟨.obj (by decide) (by simp [NameOk, isIndex]) (by
    simpa using ⟨valid_pair 1 3, .arr [.scalar 7]⟩), _, rfl⟩

theorem not_alike_edited : ¬Alike draft edited := fun halike => by
  have hnested : look draft [['a'], ['c']] = look edited [['a'], ['c']] := congrFun halike _
  cases hnested

theorem diff_exact_edited :
    entriesOf (createFlatDiff draft edited) = [(['u'], ⟨.null, .arr [.scalar 7]⟩),
        (['t'], ⟨.scalar 5, .null⟩), (['a', '.', 'c'], ⟨.scalar 2, .scalar 3⟩)] ∧
      (∀ es, es.Perm (entriesOf (createFlatDiff draft edited)) →
        Alike (applyChanges es draft) edited) ∧
      (createFlatDiff draft edited = ∅ ↔ Alike draft edited) :=
  ⟨rfl, (diff_exact object_draft object_edited).mpr fun halike => absurd halike not_alike_edited⟩

/-! ### A null against nothing -/

/-- One member that is null. -/
def nulled : Value ℕ := .obj [(['x'], .null)]

theorem object_nulled : Object nulled :=
  ⟨.obj (List.nodup_singleton _) (by simp [NameOk, isIndex]) (by simpa using Valid.null), _, rfl⟩

theorem object_nil : Object (.obj [] : Value ℕ) :=
  ⟨.obj (by simp) (by simp) (by simp), [], rfl⟩

theorem alike_nulled : Alike nulled (.obj []) := by
  funext q
  cases q with
  | nil => rfl
  | cons k q =>
    rw [@look_missing _ [] k rfl]
    by_cases hk : k = ['x']
    · subst hk
      rw [nulled, look_member (v := .null) List.lookup_cons_self, look_null]
    · exact look_missing (lookup_cons_ne hk) q

/-- The diff of two objects that are alike names a member that is null and one that is absent. -/
theorem null_against_nothing : Object nulled ∧ Object (.obj [] : Value ℕ) ∧
    (createFlatDiff nulled (.obj [])).lookup ['x'] = some { previous := .null, current := .null } ∧
    ¬(createFlatDiff nulled (.obj []) = ∅ ↔ Alike nulled (.obj [])) := by
  refine ⟨object_nulled, object_nil, rfl, fun hiff => ?_⟩
  have hlookup : (createFlatDiff nulled (.obj [])).lookup ['x'] = none := by
    rw [hiff.mpr alike_nulled, AList.lookup_empty]
  cases hlookup

end JsonDiff

end Text

end ArgusBackend
