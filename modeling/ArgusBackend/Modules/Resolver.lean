import ArgusBackend.Library.DepthFirst
import Mathlib.Data.Finset.Basic

/-!
# What a module needs, and what needs it

Settings installs a module with all that it requires, in an order in which each comes behind what
it requires, and does not disable one that an enabled module needs.

* `ModuleCatalog.visit` : the walk along what is required, from one module;
* `installOrder`, `cycleThrough`, `enabledDependents` : what is asked of it;
* `resolver_exact` : the answers, for every catalog.
-/

namespace ArgusBackend

namespace Modules

open DepthFirst Relation

/-- A module and the modules that it needs. -/
structure CatalogModule where
  id : String
  required : List String
  deriving DecidableEq, Repr

/-- The modules in their order. -/
structure ModuleCatalog where
  modules : List CatalogModule
  deriving Repr

namespace ModuleCatalog

variable (catalog : ModuleCatalog)

/-- The first module with the id. -/
def module (id : String) : Option CatalogModule := catalog.modules.find? fun m => m.id = id

/-- What the module with an id requires; an id that is not in the catalog requires nothing. -/
def required (id : String) : List String :=
  match catalog.module id with
  | some m => m.required
  | none => []

/-- Only a module of the catalog goes a level deeper. -/
def visit (walk : Walk String) (id : String) : Option (Bool × Walk String) :=
  DepthFirst.visit catalog.required (catalog.modules.length + 1) walk id

/-- A module from which a cycle is reached, among those that are left. -/
def cycleAmong : List CatalogModule → Option (Option String)
  | [] => some none
  | m :: rest =>
    (catalog.visit {} m.id).bind fun (ok, _) => if ok then cycleAmong rest else some (some m.id)

/-- A module from which a cycle is reached. -/
def cycleThrough : Option (Option String) := catalog.cycleAmong catalog.modules

/-- A module with the modules that it needs, each after its own needs. -/
def installOrder (id : String) : Option (Except String (List String)) :=
  (catalog.visit {} id).map fun (ok, walk) =>
    if ok then .ok walk.order
    else .error ("The module catalog has a dependency cycle through " ++ id)

/-- The enabled modules that need a module, among those that are left. -/
def dependentsAmong (id : String) (enabled : Finset String) :
    List CatalogModule → Option (Except String (List String))
  | [] => some (.ok [])
  | m :: rest =>
    if m.id = id ∨ m.id ∉ enabled then dependentsAmong id enabled rest
    else
      (catalog.installOrder m.id).bind fun
        | .error what => some (.error what)
        | .ok order => (dependentsAmong id enabled rest).map fun dependents =>
          dependents.map fun ids => if id ∈ order then m.id :: ids else ids

/-- The enabled modules that need a module. -/
def enabledDependents (id : String) (enabled : Finset String) :
    Option (Except String (List String)) :=
  catalog.dependentsAmong id enabled catalog.modules

/-! ### The walk -/

variable {catalog} {id a : String}

lemma mem_ids_of_required (h : catalog.required a ≠ []) : a ∈ catalog.modules.map (·.id) := by
  unfold required module at h
  cases hfind : catalog.modules.find? fun m => m.id = a with
  | none => simp [hfind] at h
  | some m =>
    have hid : m.id = a := by simpa using List.find?_some hfind
    exact List.mem_map.mpr ⟨m, List.mem_of_find?_eq_some hfind, hid⟩

lemma visit_spec (catalog : ModuleCatalog) (id : String) :
    ∃ ok walk, catalog.visit {} id = some (ok, walk) ∧
      (ok = true ↔ ¬Cyclic catalog.required id) ∧
      (ok = true → Kept catalog.required walk ∧
        ∀ v, v ∈ walk.order ↔ ReflTransGen (Edge catalog.required) id v) := by
  have hfuel : Walk.free {} (catalog.modules.map (·.id)) < catalog.modules.length + 1 := by
    have hle := List.countP_le_length (l := catalog.modules.map (·.id))
      (p := fun a => (({} : Walk String).marks a = none : Bool))
    rw [List.length_map] at hle
    exact Nat.lt_succ_of_le hle
  obtain ⟨ok, walk, hvisit, -⟩ :=
    visit_total (fun a h => mem_ids_of_required h) ({} : Walk String) id hfuel
  exact ⟨ok, walk, hvisit, visit_start hvisit⟩

theorem installOrder_spec (catalog : ModuleCatalog) (id : String) :
    (Cyclic catalog.required id ∧ catalog.installOrder id =
      some (.error ("The module catalog has a dependency cycle through " ++ id))) ∨
    (¬Cyclic catalog.required id ∧ ∃ order, catalog.installOrder id = some (.ok order) ∧
      order.Nodup ∧ (∀ v, v ∈ order ↔ ReflTransGen (Edge catalog.required) id v) ∧
      ∀ l a r, order = l ++ a :: r → ∀ b ∈ catalog.required a, b ∈ l) := by
  obtain ⟨ok, walk, hvisit, hok, hwalk⟩ := visit_spec catalog id
  have hrun : catalog.installOrder id = (some (ok, walk)).map _ := congrArg (Option.map _) hvisit
  cases ok with
  | false =>
    refine .inl ⟨?_, hrun⟩
    by_contra hacyclic
    exact Bool.false_ne_true (hok.mpr hacyclic)
  | true =>
    obtain ⟨hkept, hmem⟩ := hwalk rfl
    exact .inr ⟨hok.mp rfl, walk.order, hrun, hkept.nodup, hmem, hkept.behind⟩

/-! ### All modules -/

/-- The first module from which there is a cycle. -/
lemma cycleAmong_spec (catalog : ModuleCatalog) (modules : List CatalogModule) :
    ∃ found, catalog.cycleAmong modules = some found ∧
      (∀ id, found = some id → id ∈ modules.map (·.id) ∧ Cyclic catalog.required id) ∧
      (found = none → ∀ m ∈ modules, ¬Cyclic catalog.required m.id) := by
  induction modules with
  | nil => exact ⟨none, rfl, by simp, by simp⟩
  | cons m rest ih =>
    obtain ⟨ok, walk, hvisit, hok, -⟩ := visit_spec catalog m.id
    rw [cycleAmong, hvisit, Option.bind_some]
    cases ok with
    | false =>
      have hcyclic : Cyclic catalog.required m.id := by
        by_contra hacyclic
        exact Bool.false_ne_true (hok.mpr hacyclic)
      refine ⟨some m.id, rfl, ?_, nofun⟩
      rintro id ⟨⟩
      exact ⟨List.mem_cons_self .., hcyclic⟩
    | true =>
      obtain ⟨found, hrest, hsome, hnone⟩ := ih
      refine ⟨found, hrest, fun id hid => ?_, fun hfound m' hm' => ?_⟩
      · exact ⟨List.mem_cons_of_mem _ (hsome id hid).1, (hsome id hid).2⟩
      · rcases List.mem_cons.mp hm' with rfl | hm'
        · exact hok.mp rfl
        · exact hnone hfound m' hm'

/-- A node of a cycle requires something, so it is in the catalog. -/
lemma mem_ids_of_cycle (h : TransGen (Edge catalog.required) a a) :
    a ∈ catalog.modules.map (·.id) := by
  obtain ⟨b, hedge, -⟩ := TransGen.head'_iff.mp h
  exact mem_ids_of_required (List.ne_nil_of_mem hedge)

theorem cycleThrough_spec (catalog : ModuleCatalog) :
    ∃ found, catalog.cycleThrough = some found ∧
      (∀ id, found = some id → id ∈ catalog.modules.map (·.id) ∧ Cyclic catalog.required id) ∧
      (found.isSome ↔ ∃ a, TransGen (Edge catalog.required) a a) := by
  obtain ⟨found, hrun, hsome, hnone⟩ := cycleAmong_spec catalog catalog.modules
  refine ⟨found, hrun, hsome, fun hfound => ?_, ?_⟩
  · obtain ⟨id, hid⟩ := Option.isSome_iff_exists.mp hfound
    obtain ⟨-, v, -, hcycle⟩ := hsome id hid
    exact ⟨v, hcycle⟩
  · rintro ⟨a, hcycle⟩
    obtain ⟨m, hm, rfl⟩ := List.mem_map.mp (mem_ids_of_cycle hcycle)
    rw [Option.isSome_iff_ne_none]
    intro hfound
    exact hnone hfound m hm ⟨m.id, .refl, hcycle⟩

/-- An enabled module that needs another one, at whatever distance. -/
def Needs (catalog : ModuleCatalog) (id : String) (enabled : Finset String)
    (m : CatalogModule) : Prop :=
  m.id ≠ id ∧ m.id ∈ enabled ∧ ReflTransGen (Edge catalog.required) m.id id

open scoped Classical in
lemma dependentsAmong_spec (hacyclic : ∀ a, ¬TransGen (Edge catalog.required) a a)
    (id : String) (enabled : Finset String) (modules : List CatalogModule) :
    catalog.dependentsAmong id enabled modules =
      some (.ok ((modules.filter fun m => catalog.Needs id enabled m).map (·.id))) := by
  induction modules with
  | nil => rfl
  | cons m rest ih =>
    rw [dependentsAmong]
    by_cases hskip : m.id = id ∨ m.id ∉ enabled
    · have hnot : ¬catalog.Needs id enabled m := fun h => hskip.elim h.1 fun h' => h' h.2.1
      rw [if_pos hskip, ih, List.filter_cons_of_neg (by simpa using hnot)]
    · obtain ⟨hne, hin⟩ := not_or.mp hskip
      have hcyclic : ¬Cyclic catalog.required m.id := fun ⟨v, _, hcycle⟩ => hacyclic v hcycle
      obtain ⟨-, order, hrun, -, hmem, -⟩ :=
        (installOrder_spec catalog m.id).resolve_left fun h => hcyclic h.1
      rw [if_neg hskip, hrun, Option.bind_some]
      dsimp only
      rw [ih, Option.map_some, Except.map]
      have hneeds : catalog.Needs id enabled m ↔ id ∈ order :=
        ⟨fun h => (hmem id).mpr h.2.2, fun h => ⟨hne, not_not.mp hin, (hmem id).mp h⟩⟩
      by_cases horder : id ∈ order
      · rw [if_pos horder, List.filter_cons_of_pos (by simpa using hneeds.mpr horder),
          List.map_cons]
      · rw [if_neg horder, List.filter_cons_of_neg (by simpa using mt hneeds.mp horder)]

open scoped Classical in
/-- The order of an installation is all that is needed, each behind what it requires, and there is
none exactly where a cycle is met.  The check of the catalog finds every cycle, and without one
the enabled modules that need another are known. -/
theorem resolver_exact (catalog : ModuleCatalog) :
    (∀ id,
      (Cyclic catalog.required id ∧ catalog.installOrder id =
        some (.error ("The module catalog has a dependency cycle through " ++ id))) ∨
      (¬Cyclic catalog.required id ∧ ∃ order, catalog.installOrder id = some (.ok order) ∧
        order.Nodup ∧ (∀ v, v ∈ order ↔ ReflTransGen (Edge catalog.required) id v) ∧
        ∀ l a r, order = l ++ a :: r → ∀ b ∈ catalog.required a, b ∈ l)) ∧
    (∃ found, catalog.cycleThrough = some found ∧
      (∀ id, found = some id → id ∈ catalog.modules.map (·.id) ∧ Cyclic catalog.required id) ∧
      (found.isSome ↔ ∃ a, TransGen (Edge catalog.required) a a)) ∧
    ((∀ a, ¬TransGen (Edge catalog.required) a a) → ∀ id enabled,
      catalog.enabledDependents id enabled =
        some (.ok ((catalog.modules.filter fun m => catalog.Needs id enabled m).map (·.id)))) :=
  ⟨installOrder_spec catalog, cycleThrough_spec catalog,
    fun hacyclic id enabled => dependentsAmong_spec hacyclic id enabled catalog.modules⟩

end ModuleCatalog

end Modules

end ArgusBackend
