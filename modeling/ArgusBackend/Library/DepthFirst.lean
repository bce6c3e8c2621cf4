import Mathlib.Data.List.Basic
import Mathlib.Data.List.Nodup
import Mathlib.Logic.Relation
import Mathlib.Tactic.Common

/-!
# Depth first

A walk along the edges of a graph that marks the nodes it is in and those it has left, and puts
the latter in order.  It stops at an edge to a node that it is in.

* `visit` : the walk; `none` where the fuel is not enough;
* `visit_total` : fuel for every node with edges is enough;
* `visit_spec` : a walk to the end leaves all that can be reached, each behind what it has an edge
  to; a walk that stops has met a cycle;
* `Kept.acyclic` : a cycle is never left.
-/

namespace ArgusBackend

namespace DepthFirst

/-- What is known of a place. -/
inductive Mark where
  | visiting | done
  deriving DecidableEq, Repr

/-- The marks of a walk, and the places that are done, in their order. -/
structure Walk (α : Type) where
  marks : α → Option Mark := fun _ => none
  order : List α := []

/-- The nodes of a list one after the other, as long as the walk goes on. -/
def each {α : Type} (visit : Walk α → α → Option (Bool × Walk α)) :
    List α → Walk α → Option (Bool × Walk α)
  | [], w => some (true, w)
  | a :: rest, w =>
    (visit w a).bind fun (ok, w') => if ok then each visit rest w' else some (false, w')

variable {α : Type} [DecidableEq α] (next : α → List α)

/-- A place is marked. -/
def Walk.mark (w : Walk α) (a : α) (m : Mark) : Walk α :=
  { w with marks := Function.update w.marks a (some m) }

/-- A place is done once those it leads to are; false if the walk comes back to one under way. -/
def visit : ℕ → Walk α → α → Option (Bool × Walk α)
  | 0, _, _ => none
  | fuel + 1, w, a =>
    match w.marks a with
    | some mark => some (mark = .done, w)
    | none =>
      (each (visit fuel) (next a) (w.mark a .visiting)).map fun (ok, w') =>
        if ok then (true, { w'.mark a .done with order := w'.order ++ [a] }) else (false, w')

lemma Walk.mark_self (w : Walk α) (a : α) (m : Mark) : (w.mark a m).marks a = some m :=
  Function.update_self ..

lemma Walk.mark_of_ne {a b : α} (w : Walk α) (m : Mark) (h : b ≠ a) :
    (w.mark a m).marks b = w.marks b :=
  Function.update_of_ne h ..

/-! ### The end of the walk -/

section Total

variable {next} {w w' : Walk α} {a : α} {fuel : ℕ} {nodes : List α}

/-- The nodes that have no mark yet. -/
def Walk.free (w : Walk α) (nodes : List α) : ℕ := nodes.countP fun a => w.marks a = none

/-- No mark is taken back. -/
def Grows (w w' : Walk α) : Prop := ∀ a, w'.marks a = none → w.marks a = none

lemma grows_mark (w : Walk α) (a : α) (m : Mark) : Grows w (w.mark a m) := by
  intro b hb
  by_cases hba : b = a
  · subst hba
    rw [w.mark_self] at hb
    cases hb
  · rwa [w.mark_of_ne m hba] at hb

omit [DecidableEq α] in
lemma Grows.free_le (h : Grows w w') (nodes : List α) : w'.free nodes ≤ w.free nodes := by
  refine List.countP_mono_left fun b _ hb => ?_
  exact decide_eq_true (h b (of_decide_eq_true hb))

lemma free_mark_lt (hmem : a ∈ nodes) (ha : w.marks a = none) (m : Mark) :
    (w.mark a m).free nodes < w.free nodes := by
  induction nodes with
  | nil => cases hmem
  | cons b nodes ih =>
    have hle := (grows_mark w a m).free_le nodes
    unfold Walk.free at ih hle ⊢
    rw [List.countP_cons, List.countP_cons]
    by_cases hba : b = a
    · subst hba
      simp only [w.mark_self, ha, decide_true, if_true]
      simp only [reduceCtorEq, decide_false, Bool.false_eq_true, if_false]
      omega
    · rw [w.mark_of_ne m hba]
      have hlt := ih ((List.mem_cons.mp hmem).resolve_left (Ne.symm hba))
      omega

theorem visit_total (hnodes : ∀ a, next a ≠ [] → a ∈ nodes) (w : Walk α) (a : α)
    (hfuel : w.free nodes < fuel) :
    ∃ ok w', visit next fuel w a = some (ok, w') ∧ Grows w w' := by
  induction fuel generalizing w a with
  | zero => exact absurd hfuel (Nat.not_lt_zero _)
  | succ fuel ih =>
    have heach : ∀ (bs : List α) (w : Walk α), w.free nodes < fuel →
        ∃ ok w', each (visit next fuel) bs w = some (ok, w') ∧ Grows w w' := by
      intro bs
      induction bs with
      | nil => exact fun w _ => ⟨true, w, rfl, fun _ h => h⟩
      | cons b bs ihbs =>
        intro w hw
        obtain ⟨ok, w₁, hvisit, hgrows⟩ := ih w b hw
        rw [each, hvisit, Option.bind_some]
        cases ok with
        | false => exact ⟨false, w₁, rfl, hgrows⟩
        | true =>
          obtain ⟨ok, w₂, hrest, hgrows'⟩ := ihbs w₁
            (Nat.lt_of_le_of_lt (hgrows.free_le nodes) hw)
          exact ⟨ok, w₂, hrest, fun v hv => hgrows v (hgrows' v hv)⟩
    rw [visit]
    cases ha : w.marks a with
    | some mark => exact ⟨_, w, rfl, fun _ h => h⟩
    | none =>
      have hmark := grows_mark w a .visiting
      -- a node without edges needs no fuel for them
      have hchildren : ∃ ok w', each (visit next fuel) (next a) (w.mark a .visiting) =
          some (ok, w') ∧ Grows (w.mark a .visiting) w' := by
        by_cases hnil : next a = []
        · rw [hnil]
          exact ⟨true, _, rfl, fun _ h => h⟩
        · have hlt := free_mark_lt (hnodes a hnil) ha .visiting
          exact heach _ _ (by omega)
      obtain ⟨ok, w', hrun, hgrows⟩ := hchildren
      dsimp only
      rw [hrun, Option.map_some]
      cases ok with
      | false => exact ⟨false, w', rfl, fun v hv => hmark v (hgrows v hv)⟩
      | true =>
        exact ⟨true, _, rfl, fun v hv => hmark v (hgrows v (grows_mark w' a .done v hv))⟩

end Total

/-! ### What is left -/

/-- The edges. -/
def Edge (a b : α) : Prop := b ∈ next a

variable {next} {w w' w'' : Walk α} {a b v : α} {fuel : ℕ} {ok : Bool}

/-- The nodes that were left are in order, each behind those it has an edge to. -/
structure Kept (next : α → List α) (w : Walk α) : Prop where
  mem : ∀ a, a ∈ w.order ↔ w.marks a = some .done
  nodup : w.order.Nodup
  behind : ∀ l a r, w.order = l ++ a :: r → ∀ b ∈ next a, b ∈ l

omit [DecidableEq α] in
lemma kept_start (next : α → List α) : Kept next {} where
  mem := by simp
  nodup := List.nodup_nil
  behind l a r h := by simp at h

omit [DecidableEq α] in
lemma Kept.transGen (h : Kept next w) {l r : List α} (horder : w.order = l ++ a :: r)
    (hpath : Relation.TransGen (Edge next) a b) : b ∈ l := by
  induction hpath with
  | single hedge => exact h.behind l a r horder _ hedge
  | @tail c d _ hedge ih =>
    obtain ⟨l₁, l₂, rfl⟩ := List.append_of_mem ih
    have hsplit : w.order = l₁ ++ c :: (l₂ ++ a :: r) := by
      rw [horder, List.append_assoc, List.cons_append]
    exact List.mem_append_left _ (h.behind l₁ _ _ hsplit _ hedge)

omit [DecidableEq α] in
/-- A cycle is never left. -/
theorem Kept.acyclic (h : Kept next w) (ha : a ∈ w.order) :
    ¬Relation.TransGen (Edge next) a a := by
  intro hcycle
  obtain ⟨l, r, horder⟩ := List.append_of_mem ha
  have hmem := h.transGen horder hcycle
  have hnodup := h.nodup
  rw [horder] at hnodup
  exact (List.nodup_append.mp hnodup).2.2 a hmem a (List.mem_cons_self ..) rfl

omit [DecidableEq α] in
lemma Kept.reach (h : Kept next w) (ha : a ∈ w.order)
    (hreach : Relation.ReflTransGen (Edge next) a b) : b ∈ w.order := by
  induction hreach with
  | refl => exact ha
  | tail _ hedge ih =>
    obtain ⟨l, r, horder⟩ := List.append_of_mem ih
    rw [horder]
    exact List.mem_append_left _ (h.behind l _ r horder _ hedge)

/-- What a part of the walk does, along edges to the nodes of `P`. -/
structure Leaves (next : α → List α) (w w' : Walk α) (P : α → Prop) : Prop where
  kept : Kept next w'
  visiting : ∀ v, w'.marks v = some .visiting ↔ w.marks v = some .visiting
  done : ∀ v, w.marks v = some .done → w'.marks v = some .done
  new : ∀ v, w'.marks v = some .done → w.marks v = some .done ∨ P v

omit [DecidableEq α] in
lemma Leaves.trans {P Q R : α → Prop} (h : Leaves next w w' P) (h' : Leaves next w' w'' Q)
    (hP : ∀ v, P v → R v) (hQ : ∀ v, Q v → R v) : Leaves next w w'' R where
  kept := h'.kept
  visiting v := (h'.visiting v).trans (h.visiting v)
  done v hv := h'.done v (h.done v hv)
  new v hv := by
    rcases h'.new v hv with hv | hv
    · exact (h.new v hv).imp_right (hP v)
    · exact .inr (hQ v hv)

/-- The way to where the walk is: from each node it is in there is a path to `a`. -/
def Inside (next : α → List α) (w : Walk α) (a : α) : Prop :=
  ∀ v, w.marks v = some .visiting → Relation.TransGen (Edge next) v a

/-- A cycle can be reached. -/
def Cyclic (next : α → List α) (a : α) : Prop :=
  ∃ v, Relation.ReflTransGen (Edge next) a v ∧ Relation.TransGen (Edge next) v v

/-- A node is left when all that it has an edge to was left. -/
lemma leaves_node (hnone : w.marks a = none)
    (h : Leaves next (w.mark a .visiting) w' fun v =>
      ∃ b ∈ next a, Relation.ReflTransGen (Edge next) b v)
    (hnext : ∀ b ∈ next a, w'.marks b = some .done) :
    Leaves next w { w'.mark a .done with order := w'.order ++ [a] }
      (Relation.ReflTransGen (Edge next) a) := by
  have hself := w'.mark_self a .done
  have hother : ∀ v, v ≠ a → (w'.mark a .done).marks v = w'.marks v :=
    fun v hv => w'.mark_of_ne _ hv
  have hbefore : ∀ v, v ≠ a → (w.mark a .visiting).marks v = w.marks v :=
    fun v hv => w.mark_of_ne _ hv
  have ha : w'.marks a = some .visiting := (h.visiting a).mpr (w.mark_self a _)
  have hnew : a ∉ w'.order := fun hmem => by
    rw [h.kept.mem, ha] at hmem
    cases hmem
  refine ⟨⟨fun v => ?_, ?_, ?_⟩, fun v => ?_, fun v hv => ?_, fun v hv => ?_⟩ <;>
    dsimp only at *
  · rw [List.mem_append, List.mem_singleton, h.kept.mem]
    by_cases hva : v = a
    · subst hva
      simp [hself]
    · rw [hother v hva]
      simp [hva]
  · rw [List.nodup_append]
    refine ⟨h.kept.nodup, List.nodup_singleton a, ?_⟩
    rintro x hx y hy rfl
    exact hnew (List.mem_singleton.mp hy ▸ hx)
  · intro l x r hsplit b hb
    rcases List.eq_nil_or_concat r with rfl | ⟨r, y, rfl⟩
    · obtain ⟨rfl, hxa⟩ := List.append_inj' hsplit rfl
      rw [List.singleton_inj.mp hxa] at hnext
      exact (h.kept.mem b).mpr (hnext b hb)
    · rw [List.concat_eq_append, ← List.cons_append, ← List.append_assoc] at hsplit
      exact h.kept.behind l x r (List.append_inj' hsplit rfl).1 b hb
  · by_cases hva : v = a
    · subst hva
      rw [hself, hnone]
      simp
    · rw [hother v hva, h.visiting v, hbefore v hva]
  · have hva : v ≠ a := by
      rintro rfl
      rw [hnone] at hv
      cases hv
    rw [hother v hva]
    exact h.done v (by rwa [hbefore v hva])
  · by_cases hva : v = a
    · exact .inr (hva ▸ .refl)
    · rw [hother v hva] at hv
      rcases h.new v hv with hv | ⟨b, hb, hreach⟩
      · rw [hbefore v hva] at hv
        exact .inl hv
      · exact .inr (.head hb hreach)

omit [DecidableEq α] in
/-- A walk along the edges does for each of the nodes what it does for one. -/
lemma each_spec {step : Walk α → α → Option (Bool × Walk α)}
    (hstep : ∀ {w a ok w'}, step w a = some (ok, w') → Kept next w → Inside next w a →
      if ok then Leaves next w w' (Relation.ReflTransGen (Edge next) a) ∧ w'.marks a = some .done
      else Cyclic next a)
    {bs : List α} (hrun : each step bs w = some (ok, w')) (hkept : Kept next w)
    (hinside : ∀ b ∈ bs, Inside next w b) :
    if ok then Leaves next w w' (fun v => ∃ b ∈ bs, Relation.ReflTransGen (Edge next) b v) ∧
      ∀ b ∈ bs, w'.marks b = some .done
    else ∃ b ∈ bs, Cyclic next b := by
  induction bs generalizing w with
  | nil =>
    obtain ⟨rfl, rfl⟩ := Prod.mk.inj (Option.some.inj hrun)
    exact ⟨⟨hkept, fun _ => .rfl, fun _ h => h, fun _ h => .inl h⟩, by simp⟩
  | cons b bs ih =>
    rw [each] at hrun
    obtain ⟨⟨ok₁, w₁⟩, hfirst, hrun⟩ := Option.bind_eq_some_iff.mp hrun
    have hspec := hstep hfirst hkept (hinside b (List.mem_cons_self ..))
    cases ok₁ with
    | false =>
      obtain ⟨rfl, rfl⟩ := Prod.mk.inj (Option.some.inj hrun)
      exact ⟨b, List.mem_cons_self .., hspec⟩
    | true =>
      obtain ⟨hleaves, hdone⟩ := hspec
      have hinside' : ∀ b' ∈ bs, Inside next w₁ b' := fun b' hb' v hv =>
        hinside b' (List.mem_cons_of_mem _ hb') v ((hleaves.visiting v).mp hv)
      have hrest := ih hrun hleaves.kept hinside'
      cases ok with
      | false =>
        obtain ⟨b', hb', hcyclic⟩ := hrest
        exact ⟨b', List.mem_cons_of_mem _ hb', hcyclic⟩
      | true =>
        obtain ⟨hleaves', hdone'⟩ := hrest
        refine ⟨hleaves.trans hleaves' (fun v hv => ⟨b, List.mem_cons_self .., hv⟩) ?_, ?_⟩
        · rintro v ⟨b', hb', hv⟩
          exact ⟨b', List.mem_cons_of_mem _ hb', hv⟩
        · intro b' hb'
          rcases List.mem_cons.mp hb' with rfl | hb'
          · exact hleaves'.done _ hdone
          · exact hdone' b' hb'

lemma Kept.mark_visiting (h : Kept next w) (ha : w.marks a = none) :
    Kept next (w.mark a .visiting) := by
  refine ⟨fun v => ?_, h.nodup, h.behind⟩
  have hmem := h.mem v
  by_cases hva : v = a
  · subst hva
    rw [ha] at hmem
    rw [w.mark_self]
    exact hmem.trans (by simp)
  · rw [w.mark_of_ne _ hva]
    exact hmem

lemma Inside.mark_visiting (h : Inside next w a) (hb : b ∈ next a) :
    Inside next (w.mark a .visiting) b := by
  intro v hv
  by_cases hva : v = a
  · exact hva ▸ .single hb
  · rw [w.mark_of_ne _ hva] at hv
    exact (h v hv).tail hb

theorem visit_spec (hvisit : visit next fuel w a = some (ok, w')) (hkept : Kept next w)
    (hinside : Inside next w a) :
    if ok then Leaves next w w' (Relation.ReflTransGen (Edge next) a) ∧ w'.marks a = some .done
    else Cyclic next a := by
  induction fuel generalizing w a ok w' with
  | zero => cases hvisit
  | succ fuel ih =>
    rw [visit] at hvisit
    cases ha : w.marks a with
    | some mark =>
      rw [ha] at hvisit
      obtain ⟨rfl, rfl⟩ := Prod.mk.inj (Option.some.inj hvisit)
      cases mark with
      | visiting => exact ⟨a, .refl, hinside a ha⟩
      | done => exact ⟨⟨hkept, fun _ => .rfl, fun _ h => h, fun _ h => .inl h⟩, ha⟩
    | none =>
      rw [ha] at hvisit
      obtain ⟨⟨ok', w₁⟩, hrun, hvisit⟩ := Option.map_eq_some_iff.mp hvisit
      have hspec := each_spec ih hrun (hkept.mark_visiting ha) fun b hb =>
        hinside.mark_visiting hb
      cases ok' with
      | false =>
        obtain ⟨rfl, rfl⟩ := Prod.mk.inj hvisit
        obtain ⟨b, hb, v, hreach, hcycle⟩ := hspec
        exact ⟨v, .head hb hreach, hcycle⟩
      | true =>
        obtain ⟨rfl, rfl⟩ := Prod.mk.inj hvisit
        exact ⟨leaves_node ha hspec.1 hspec.2, w₁.mark_self a _⟩

/-- A walk from the start: to the end, with all that can be reached, exactly when no cycle is. -/
theorem visit_start (hvisit : visit next fuel {} a = some (ok, w)) :
    (ok = true ↔ ¬Cyclic next a) ∧ (ok = true → Kept next w ∧
      ∀ v, v ∈ w.order ↔ Relation.ReflTransGen (Edge next) a v) := by
  have hspec := visit_spec hvisit (kept_start next) fun v hv => nomatch hv
  cases ok with
  | false => exact ⟨iff_of_false (by simp) (not_not.mpr hspec), by simp⟩
  | true =>
    obtain ⟨hleaves, hdone⟩ := hspec
    have ha := (hleaves.kept.mem a).mpr hdone
    refine ⟨iff_of_true rfl ?_, fun _ => ⟨hleaves.kept, fun v => ⟨fun hv => ?_, ?_⟩⟩⟩
    · rintro ⟨v, hreach, hcycle⟩
      exact hleaves.kept.acyclic (hleaves.kept.reach ha hreach) hcycle
    · exact (hleaves.new v ((hleaves.kept.mem v).mp hv)).resolve_left (by simp)
    · exact hleaves.kept.reach ha

end DepthFirst

end ArgusBackend
