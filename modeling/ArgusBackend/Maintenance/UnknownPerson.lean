import ArgusBackend.Maintenance.Service

/-!
# An unknown person ends the windows of an environment

A window is ended by the environment it stores, while it may cover cameras of others.

* `Places.Together` : the cameras an input names belong to the environment of its window;
* `terms` : what the requests rely on, with `Follows`, what becomes of a window;
* `unknown_person_uncovered` : if the input of every window is `Together`, no window from before
  covers a camera of the environment once `endForUnknownPerson` has finished; and the scope of the
  windows of guards.
-/

namespace ArgusBackend

namespace Maintenance

/-! ### Cameras and their environments -/

section Places

variable {assignments : List CameraAssignment} {fallback : ℤ} {a : CameraAssignment}

/-- An assigned camera is in its environment. -/
theorem environmentFor_of_mem
    (hsorted : assignments.Pairwise fun a a' => a.cameraId < a'.cameraId) (ha : a ∈ assignments)
    (hpos : 0 < a.environmentId) : environmentFor assignments fallback a.cameraId =
      a.environmentId := by
  have hapart : assignments.Pairwise fun a a' => a.cameraId ≠ a'.cameraId :=
    hsorted.imp fun h => ne_of_lt h
  have hfind : assignments.find? (fun b => b.cameraId = a.cameraId) = some a := by
    rcases hb : assignments.find? (fun b => b.cameraId = a.cameraId) with _ | b
    · have := List.find?_eq_none.1 hb a ha
      simp at this
    · have hmem := List.mem_of_find?_eq_some hb
      have hid : b.cameraId = a.cameraId := by simpa using List.find?_some hb
      rw [hb, List.inj_on_of_nodup_map (List.pairwise_map.2 hapart) hmem ha hid]
  simp only [environmentFor, Table.lookup_foldl_insert ∅ hapart, hfind, Option.some_or]
  rw [if_neg (by omega)]

end Places

namespace Places

variable (places : Places)

theorem sorted_cameraAssignments :
    places.cameraAssignments.Pairwise fun a a' => a.cameraId < a'.cameraId :=
  places.sorted.sublist (List.take_sublist _ _)

/-- A camera that was read as assigned is resolved to its environment. -/
theorem of_read {a : CameraAssignment} (ha : a ∈ places.cameraAssignments)
    (hpos : 0 < a.environmentId) : places.resolved a.cameraId = a.environmentId ∧
      places.environmentOf a.cameraId = a.environmentId :=
  ⟨environmentFor_of_mem places.sorted_cameraAssignments ha hpos,
    environmentFor_of_mem places.sorted (List.mem_of_mem_take ha) hpos⟩

/-- The cameras an input names belong to the environment of its window: the one it names, or else
the one its first camera is taken to be in. -/
def Together (input : MaintenanceDeclareInput) : Prop :=
  ∀ c ∈ input.cameraIds, 0 < c →
    (0 < input.environmentId → places.environmentOf c = input.environmentId) ∧
      (input.environmentId ≤ 0 → ∀ front ∈ input.cameraIds, 0 < front →
        (∀ d ∈ input.cameraIds, 0 < d → front ≤ d) → places.environmentOf c = places.resolved front)

instance (input : MaintenanceDeclareInput) : Decidable (places.Together input) :=
  inferInstanceAs (Decidable (∀ c ∈ input.cameraIds, 0 < c → _ ∧ _))

/-- Every camera of the window is of the environment it stores. -/
def Keeps (w : MaintenanceWindow) : Prop :=
  ∀ c ∈ w.cameraIds, places.environmentOf c = w.environmentId

/-- The windows that are opened are of one environment. -/
def Kept : Note → Prop
  | .opened input _ => places.Together input
  | _ => True

instance : DecidablePred places.Kept
  | .opened input _ => inferInstanceAs (Decidable (places.Together input))
  | .duty .. | .ended .. | .finished .. | .refused .. => instDecidableTrue

variable {places} {input : MaintenanceDeclareInput} {assignments : List CameraAssignment} {c : ℤ}

open MaintenanceService

theorem mem_camerasOf : c ∈ camerasOf input assignments ↔
    0 < c ∧ (c ∈ input.cameraIds ∨ 0 < input.environmentId ∧
      ∃ a ∈ assignments, a.environmentId = input.environmentId ∧ a.cameraId = c) := by
  simp only [camerasOf, List.mem_filter, Ranks.mem_distinct, List.mem_append,
    decide_eq_true_eq]
  split_ifs with h
  · simp [h, and_comm, and_assoc]
  · simp [h, and_comm]

theorem sorted_camerasOf : (camerasOf input assignments).Pairwise (· ≤ ·) :=
  ((Ranks.sorted_distinct _).imp le_of_lt).filter _

/-- The environment of the window that `open` stores. -/
def windowEnvironment (places : Places) (input : MaintenanceDeclareInput) (front : ℤ) : ℤ :=
  if 0 < input.environmentId then input.environmentId else places.resolved front

/-- A window keeps to its environment exactly if the cameras its input names do. -/
theorem together_iff {front : ℤ} {rest : List ℤ}
    (hcameras : camerasOf input places.cameraAssignments = front :: rest) :
    (∀ c ∈ front :: rest, places.environmentOf c = places.windowEnvironment input front) ↔
      places.Together input := by
  have hmem : ∀ c, c ∈ front :: rest ↔ 0 < c ∧ (c ∈ input.cameraIds ∨ 0 < input.environmentId ∧
      ∃ a ∈ places.cameraAssignments, a.environmentId = input.environmentId ∧ a.cameraId = c) :=
    fun c => hcameras ▸ mem_camerasOf
  have hfirst : ∀ c ∈ front :: rest, front ≤ c := by
    have hsorted : (camerasOf input places.cameraAssignments).Pairwise (· ≤ ·) := sorted_camerasOf
    rw [hcameras] at hsorted
    exact fun c hc => (List.mem_cons.1 hc).elim (fun h => h ▸ le_rfl) (List.rel_of_pairwise_cons hsorted)
  by_cases henv : 0 < input.environmentId
  · simp only [windowEnvironment, henv, if_true, Together, true_implies]
    constructor
    · intro h c hc hpos
      exact ⟨h c ((hmem c).2 ⟨hpos, .inl hc⟩), fun hle => by omega⟩
    · intro h c hc
      obtain ⟨hpos, hc | ⟨-, a, ha, henvironment, rfl⟩⟩ := (hmem c).1 hc
      · exact (h c hc hpos).1
      · rw [(places.of_read ha (henvironment ▸ henv)).2, henvironment]
  · -- no environment is named: the window takes the one of its first camera
    have hnamed : ∀ c, c ∈ front :: rest ↔ 0 < c ∧ c ∈ input.cameraIds := fun c => by
      simp [hmem c, henv]
    obtain ⟨hfrontPos, hfront⟩ := (hnamed front).1 List.mem_cons_self
    simp only [windowEnvironment, henv, if_false, Together, false_implies, true_and]
    constructor
    · intro h c hc hpos _ front' hfront' hpos' hleast
      have heq : front' = front :=
        le_antisymm (hleast front hfront hfrontPos) (hfirst front' ((hnamed front').2 ⟨hpos', hfront'⟩))
      rw [heq]
      exact h c ((hnamed c).2 ⟨hpos, hc⟩)
    · intro h c hc
      obtain ⟨hpos, hc⟩ := (hnamed c).1 hc
      exact h c hc hpos (by omega) front hfront hfrontPos fun d hd hd' =>
        hfirst d ((hnamed d).2 ⟨hd', hd⟩)

/-- A camera of a window is one its input names, or one whose environment was read. -/
theorem resolved_of_mem (hc : c ∈ camerasOf input places.cameraAssignments) :
    (c ∈ input.cameraIds ∧ 0 < c) ∨ places.resolved c = places.environmentOf c := by
  obtain ⟨hpos, hc | ⟨henv, a, ha, henvironment, rfl⟩⟩ := mem_camerasOf.1 hc
  · exact .inl ⟨hc, hpos⟩
  · obtain ⟨hresolved, hplace⟩ := places.of_read ha (henvironment ▸ henv)
    exact .inr (hresolved.trans hplace.symm)

end Places

/-! ### What the requests rely on -/

/-- What becomes of a window: it stays as it was declared, and once ended it stays so. -/
structure Follows (w w' : MaintenanceWindow) : Prop where
  id : w'.id = w.id
  environment : w'.environmentId = w.environmentId
  cameras : w'.cameraIds = w.cameraIds
  ends : w'.endsAt = w.endsAt
  ended : w.endedAt ≠ 0 → w'.endedAt ≠ 0

theorem Follows.refl (w : MaintenanceWindow) : Follows w w := ⟨rfl, rfl, rfl, rfl, fun h => h⟩

theorem Follows.trans {w w' w'' : MaintenanceWindow} (h : Follows w w') (h' : Follows w' w'') :
    Follows w w'' :=
  ⟨h'.id.trans h.id, h'.environment.trans h.environment, h'.cameras.trans h.cameras,
    h'.ends.trans h.ends, fun hended => h'.ended (h.ended hended)⟩

/-- A window that is active later was active before. -/
theorem Follows.active {w w' : MaintenanceWindow} (h : Follows w w') {at_ : ℤ}
    (hactive : w'.active at_ = true) : w.active at_ = true := by
  simp only [MaintenanceWindow.active, Bool.and_eq_true, decide_eq_true_eq] at hactive ⊢
  exact ⟨by_contra fun hended => h.ended hended hactive.1, h.ends ▸ hactive.2⟩

/-- The windows of now are the windows of before, and new ones under new ids. -/
structure Later (db db' : Db) : Prop where
  nextId : db.windows.nextId ≤ db'.windows.nextId
  follows : ∀ w' ∈ db'.windows, w'.id < db.windows.nextId → ∃ w ∈ db.windows, Follows w w'

theorem Later.refl (db : Db) : Later db db := ⟨le_rfl, fun w hw _ => ⟨w, hw, .refl w⟩⟩

theorem Later.trans {db db' db'' : Db} (h : Later db db') (h' : Later db' db'') :
    Later db db'' := by
  refine ⟨h.nextId.trans h'.nextId, fun w'' hw'' hid => ?_⟩
  obtain ⟨w', hw', hfollows'⟩ := h'.follows w'' hw'' (hid.trans_le h.nextId)
  obtain ⟨w, hw, hfollows⟩ := h.follows w' hw' (hfollows'.id ▸ hid)
  exact ⟨w, hw, hfollows.trans hfollows'⟩

/-- The window with this id was opened and is ended. -/
def Closed (id : ℕ) (db : Db) : Prop :=
  id < db.windows.nextId ∧ ∀ w ∈ db.windows, w.id = id → w.endedAt ≠ 0

theorem Closed.later {id : ℕ} {db db' : Db} (h : Closed id db) (hlater : Later db db') :
    Closed id db' := by
  refine ⟨h.1.trans_le hlater.nextId, fun w' hw' hid => ?_⟩
  obtain ⟨w, hw, hfollows⟩ := hlater.follows w' hw' (hid ▸ h.1)
  exact hfollows.ended (h.2 w hw (hfollows.id ▸ hid))

/-- No window from before `mark` is active in the environment of the sighting. -/
def Cleared (sighting : UnknownSighting) (mark : ℕ) (db : Db) : Prop :=
  mark ≤ db.windows.nextId ∧ ∀ w ∈ db.windows, w.id < mark → w.active sighting.at_ = true →
    w.environmentId ≠ sighting.environmentId

theorem Cleared.later {sighting : UnknownSighting} {mark : ℕ} {db db' : Db}
    (h : Cleared sighting mark db) (hlater : Later db db') : Cleared sighting mark db' := by
  refine ⟨h.1.trans hlater.nextId, fun w' hw' hid hactive => ?_⟩
  obtain ⟨w, hw, hfollows⟩ := hlater.follows w' hw' (hid.trans_le h.1)
  rw [hfollows.environment]
  exact h.2 w hw (hfollows.id ▸ hid) (hfollows.active hactive)

/-- The cameras of a window that a guard opens are resolved to environments of its duty. -/
def InScope (places : Places) (h : List Note) (declaredBy : ℤ) (role : UserRole)
    (cameraIds : List ℤ) : Prop :=
  role = .guard → ∃ duty, .duty declaredBy duty ∈ h ∧ ∀ c ∈ cameraIds, places.resolved c ∈ duty

theorem InScope.mono {places : Places} {h h' : List Note} {declaredBy : ℤ} {role : UserRole}
    {cameraIds : List ℤ} (hscope : InScope places h declaredBy role cameraIds) (hh : h ⊆ h') :
    InScope places h' declaredBy role cameraIds := fun hrole => by
  obtain ⟨duty, hduty, hmem⟩ := hscope hrole
  exact ⟨duty, hh hduty, hmem⟩

/-- What the window that `open` stores has by its input. -/
structure Declared (places : Places) (input : MaintenanceDeclareInput) (environmentId : ℤ)
    (cameraIds : List ℤ) : Prop where
  together : (∀ c ∈ cameraIds, places.environmentOf c = environmentId) ↔ places.Together input
  named : ∀ c ∈ cameraIds, (c ∈ input.cameraIds ∧ 0 < c) ∨
    places.resolved c = places.environmentOf c

/-- What was noted so far, and the table. -/
abbrev World := List Note × Db

/-- What has to be so before an operation. -/
def need (places : Places) (w : World) : Op → Prop
  | .create input row => InScope places w.1 row.declaredBy row.declaredRole row.cameraIds ∧
      Declared places input row.environmentId row.cameraIds
  | .endWindow id _ at_ => id < w.2.windows.nextId ∧ at_ ≠ 0
  | .finish sighting mark => Cleared sighting mark w.2
  | _ => True

/-- What the answer of an operation tells. -/
def fact (places : Places) (w : World) : (op : Op) → op.Ans → Prop
  | .cameraAssignments, assignments => assignments = places.cameraAssignments
  | .defaultId, id => id = places.defaultId
  | .dutyEnvironments userId, duty => .duty userId duty ∈ w.1
  | .now, now => 0 < now
  | .findById _, found => ∀ window, found = some window → window.id < w.2.windows.nextId
  | .listOpen, windows => windows = w.2.listOpen
  | .endWindow id _ _, _ => Closed id w.2
  | .begin _, mark => mark = w.2.windows.nextId
  | _, _ => True

/-- What the requests rely on while others run. -/
def terms (places : Places) : Terms World Op Op.Ans where
  future w w' := w.1 ⊆ w'.1 ∧ Later w.2 w'.2
  refl w := ⟨List.Subset.refl _, .refl _⟩
  trans h h' := ⟨List.Subset.trans h.1 h'.1, h.2.trans h'.2⟩
  need := need places
  need_mono := by
    intro w w' op hw h
    cases op <;> first
      | exact ⟨h.1.mono hw.1, h.2⟩
      | exact ⟨h.1.trans_le hw.2.nextId, h.2⟩
      | exact Cleared.later h hw.2
      | trivial
  fact := fact places

/-! ### Every request keeps to the terms -/

section Requests

open MaintenanceService ArgusBackend.Task

variable {places : Places} {w : World}

/-- The task keeps to the terms, and what it returns meets `post`. -/
abbrev Meets {α : Type} (places : Places) (post : α → World → Prop) (t : MaintenanceTask α)
    (w : World) : Prop :=
  t.Heeds (terms places) post w

/-- Nothing is asked of the result. -/
abbrev any {α : Type} (_ : α) (_ : World) : Prop := True

theorem meets_ask {α : Type} {op : Op} {f : op.Ans → MaintenanceTask α}
    {post : α → World → Prop} (hneed : need places w op)
    (hf : ∀ ans w', (terms places).future w w' → fact places w' op ans →
      Meets places post (f ans) w') : Meets places post (ask op >>= f) w :=
  heeds_call hneed le_rfl hf

theorem meets_last {op : Op} (hneed : need places w op) : Meets places any (ask op) w :=
  heeds_last hneed le_rfl fun _ _ _ _ _ _ => trivial

theorem meets_refuse {α : Type} {actor : MaintenanceActor} {error : GuardError}
    {post : α → World → Prop} : Meets places post (refuse actor error : MaintenanceTask α) w :=
  meets_ask trivial fun _ _ _ _ => heeds_throw

theorem meets_done {α : Type} {a : α} : Meets places any (pure a : MaintenanceTask α) w :=
  heeds_pure fun _ _ => trivial

theorem meets_then {α β : Type} {t : MaintenanceTask β} {f : β → MaintenanceTask α}
    {post : α → World → Prop} (ht : Meets places any t w)
    (hf : ∀ b w', (terms places).future w w' → Meets places post (f b) w') :
    Meets places post (t >>= f) w :=
  heeds_bind ht fun b w' hw _ => hf b w' hw

theorem meets_each {β : Type} {f : β → MaintenanceTask Unit} {l : List β}
    (hf : ∀ b ∈ l, ∀ w', (terms places).future w w' → Meets places any (f b) w') :
    Meets places any (Task.each f l) w :=
  HeedsWith.mono (heeds_each (D := fun _ _ => True) (fun _ _ _ _ h => h) hf) fun _ _ _ _ => trivial

/-- What passes the scope check is in scope. -/
theorem of_scopeError {duty environments : List ℤ} (h : scopeError duty environments = none) :
    ∀ e ∈ environments, e ∈ duty := by
  unfold scopeError at h
  split_ifs at h with _ hall
  simpa using hall

theorem meets_checkScope {actor : MaintenanceActor} {cameraIds : List ℤ} :
    Meets places (fun _ w' => InScope places w'.1 actor.userId actor.role cameraIds)
      (checkScope actor (cameraIds.map places.resolved)) w := by
  unfold checkScope
  split
  · refine meets_ask trivial fun duty w₁ hw₁ hduty => ?_
    split
    · exact meets_refuse
    · rename_i hscope
      refine heeds_pure fun w₂ hw₂ _ => ⟨duty, hw₂.1 hduty, fun c hc => ?_⟩
      exact of_scopeError hscope _ (List.mem_map_of_mem hc)
  · rename_i hrole
    exact heeds_pure fun _ _ hguard => absurd hguard hrole

theorem meets_open {input : MaintenanceDeclareInput} : Meets places any (open_ input) w := by
  unfold open_
  dsimp only
  split
  · exact meets_refuse
  refine meets_ask trivial fun assignments w₁ _ hassignments => ?_
  refine meets_ask trivial fun fallback w₂ _ hfallback => ?_
  obtain rfl : assignments = places.cameraAssignments := hassignments
  obtain rfl : fallback = places.defaultId := hfallback
  split
  · exact meets_refuse
  rename_i front rest hcameras
  refine heeds_bind meets_checkScope fun _ w₃ _ hscope => ?_
  refine meets_ask trivial fun limits w₄ hw₄ _ => meets_ask trivial fun now w₅ hw₅ _ => ?_
  refine meets_ask trivial fun duress w₆ hw₆ _ => meets_ask trivial fun users w₇ hw₇ _ => ?_
  refine meets_ask ⟨?_, ?_, fun c hc => ?_⟩ fun window w₈ _ _ => ?_
  · exact (((hscope.mono hw₄.1).mono hw₅.1).mono hw₆.1).mono hw₇.1
  · exact Places.together_iff hcameras
  · exact Places.resolved_of_mem (hcameras ▸ hc)
  · refine meets_then (meets_last trivial) fun _ w₉ _ => ?_
    split
    · refine meets_then (meets_ask trivial fun _ _ _ _ => meets_last trivial) fun _ _ _ => ?_
      exact meets_done
    · exact meets_done

theorem meets_viewCheck {cameraId : ℤ} : Meets places any (viewCheck cameraId) w := by
  refine meets_ask trivial fun status _ _ _ => ?_
  split
  · exact meets_ask trivial fun _ _ _ _ => meets_done
  · exact meets_done

theorem meets_collect {α β : Type} {f : β → MaintenanceTask α} {l : List β}
    (hf : ∀ b w', Meets places any (f b) w') : Meets places any (Task.collect f l) w := by
  induction l generalizing w with
  | nil => exact meets_done
  | cons b l ih => exact meets_then (hf b w) fun _ _ _ => meets_then ih fun _ _ _ => meets_done

/-- A window that was closed is ended. -/
theorem meets_close {window : MaintenanceWindow} {reason : MaintenanceEndReason} {actorId : ℤ}
    (hid : window.id < w.2.windows.nextId) :
    Meets places (fun _ w' => Closed window.id w'.2) (close window reason actorId) w := by
  refine meets_ask trivial fun now w₁ hw₁ hnow => ?_
  refine meets_ask ⟨hid.trans_le hw₁.2.nextId, ne_of_gt hnow⟩ fun ended w₂ _ hclosed => ?_
  -- whatever follows, the window stays ended
  suffices hrest : Meets places any _ w₂ from
    HeedsWith.mono hrest fun _ _ hw _ => hclosed.later hw.2
  split
  · refine meets_then (meets_collect fun _ _ => meets_viewCheck) fun checks _ _ => ?_
    dsimp only
    have hfarewell : ∀ (ended : MaintenanceWindow) w', Meets places any (do
        announce ended actorId
        if ended.startedAt ≤ ended.endedAt then
          ask (.publishEnded ended) : MaintenanceTask Unit) w' := fun ended w' => by
      refine meets_then (meets_last trivial) fun _ _ _ => ?_
      split
      · exact meets_last trivial
      · exact meets_done
    split
    · refine meets_ask trivial fun _ _ _ _ => meets_ask trivial fun users _ _ _ => ?_
      exact meets_then (meets_each fun _ _ _ _ => meets_last trivial) fun _ _ _ => hfarewell _ _
    · exact hfarewell _ _
  · exact meets_done

theorem meets_require {actor : MaintenanceActor} {id : ℕ} :
    Meets places (fun window w' => window.id < w'.2.windows.nextId) (require actor id) w := by
  refine meets_ask trivial fun found w₁ _ hfound => ?_
  cases found with
  | none => exact meets_refuse
  | some window => exact heeds_pure fun _ hw => (hfound window rfl).trans_le hw.2.nextId

theorem meets_end {input : MaintenanceEndRequest} : Meets places any (end_ input) w := by
  refine heeds_bind meets_require fun window w₁ _ hid => ?_
  split
  · exact meets_refuse
  split
  · exact meets_refuse
  · have hagain : ∀ w', Meets places any (require input.actor input.id) w' := fun _ =>
      HeedsWith.mono meets_require fun _ _ _ _ => trivial
    split
    · exact heeds_bind (meets_close hid) fun _ w' _ _ => hagain w'
    · exact hagain _

/-- The windows that are closed one after the other. -/
theorem meets_closing {windows : List MaintenanceWindow} {reason : MaintenanceEndReason}
    {p : MaintenanceWindow → Prop} [DecidablePred p]
    (hid : ∀ window ∈ windows, window.id < w.2.windows.nextId) :
    Meets places (fun _ w' => ∀ window ∈ windows, p window → Closed window.id w'.2)
      (Task.each (fun window => if p window then close window reason 0 else pure ()) windows) w := by
  refine heeds_each (D := fun window (w' : World) => p window → Closed window.id w'.2)
    (fun _ _ _ hw hclosed hp => (hclosed hp).later hw.2) fun window hwindow w' hw => ?_
  split
  · exact HeedsWith.mono (meets_close ((hid window hwindow).trans_le hw.2.nextId))
      fun _ _ _ hclosed _ => hclosed
  · rename_i hp
    exact heeds_pure fun _ _ h => absurd h hp

theorem of_listOpen {db : Db} {window : MaintenanceWindow} :
    window ∈ db.listOpen ↔ window ∈ db.windows ∧ window.endedAt = 0 := by
  simp [Db.listOpen, Serial.mem_def]

theorem id_of_listOpen {db : Db} {window : MaintenanceWindow} (h : window ∈ db.listOpen) :
    window.id < db.windows.nextId :=
  db.windows.fresh window (of_listOpen.1 h).1

theorem meets_expireDue {at_ : ℤ} : Meets places any (expireDue at_) w := by
  refine meets_ask trivial fun windows w₁ _ hwindows => ?_
  obtain rfl : windows = w₁.2.listOpen := hwindows
  exact HeedsWith.mono (meets_closing fun _ => id_of_listOpen) fun _ _ _ _ => trivial

/-- When the run of `endForUnknownPerson` has finished the environment is cleared: what it read as
open and active it has closed, and what it did not read so is not active. -/
theorem meets_endForUnknownPerson {sighting : UnknownSighting} :
    Meets places any (endForUnknownPerson sighting) w := by
  refine meets_ask trivial fun mark w₁ _ hmark => ?_
  obtain rfl : mark = w₁.2.windows.nextId := hmark
  refine heeds_bind (Q := fun active w' => ∃ w₂, (terms places).future w₁ w₂ ∧
    (terms places).future w₂ w' ∧
      active = w₂.2.listOpen.filter (·.active sighting.at_)) ?_ fun active w₃ _ hactive => ?_
  · refine meets_ask trivial fun windows w₂ hw₂ hwindows => ?_
    obtain rfl : windows = w₂.2.listOpen := hwindows
    exact heeds_pure fun w₃ hw₃ => ⟨w₂, hw₂, hw₃, rfl⟩
  obtain ⟨w₂, hw₂, hw₃, rfl⟩ := hactive
  simp only [ite_not]
  refine heeds_bind (meets_closing fun window hwindow => ?_) fun _ w₄ hw₄ hclosed => ?_
  · exact (id_of_listOpen (List.mem_of_mem_filter hwindow)).trans_le hw₃.2.nextId
  refine meets_last ⟨(hw₂.2.trans (hw₃.2.trans hw₄.2)).nextId, ?_⟩
  intro window hwindow hid hactive henvironment
  obtain ⟨window₀, hwindow₀, hfollows⟩ := (hw₃.2.trans hw₄.2).follows window hwindow
    (hid.trans_le hw₂.2.nextId)
  have hactive₀ := hfollows.active hactive
  have hopen : window₀.endedAt = 0 := by
    simp only [MaintenanceWindow.active, Bool.and_eq_true, decide_eq_true_eq] at hactive₀
    exact hactive₀.1
  have hended := (hclosed window₀ (List.mem_filter.2 ⟨of_listOpen.2 ⟨hwindow₀, hopen⟩, hactive₀⟩)
    (hfollows.environment ▸ henvironment)).2 window hwindow hfollows.id
  simp [MaintenanceWindow.active, hended] at hactive

theorem meets_program (request : Request) : Meets places any (program request) w := by
  cases request with
  | declare input => exact meets_then meets_open fun _ _ _ => meets_done
  | end_ input => exact meets_then meets_end fun _ _ _ => meets_done
  | expireDue at_ => exact meets_expireDue
  | unknownPerson sighting => exact meets_endForUnknownPerson

end Requests

/-! ### What one operation does -/

variable {places : Places} {env : Outside} {h : List Note} {db : Db} {op : Op}

/-- A window that changes under its id. -/
theorem later_update {id : ℕ} {f : MaintenanceWindow → MaintenanceWindow}
    (hid : ∀ w, (f w).id = w.id) (hf : ∀ w, Follows w (f w)) :
    Later db { windows := db.windows.update id f hid } := by
  refine ⟨le_rfl, fun w' hw' _ => ?_⟩
  obtain ⟨w, hw, rfl⟩ := (Serial.mem_update hid).1 hw'
  refine ⟨w, hw, ?_⟩
  split_ifs
  · exact hf w
  · exact .refl w

theorem later_endWindow {id : ℕ} {reason : MaintenanceEndReason} {at_ : ℤ} (hat : at_ ≠ 0) :
    Later db (db.endWindow id reason at_) := by
  refine later_update _ fun w => ?_
  split_ifs
  · exact ⟨rfl, rfl, rfl, rfl, fun _ => hat⟩
  · exact .refl w

theorem closed_endWindow {id : ℕ} {reason : MaintenanceEndReason} {at_ : ℤ} (hat : at_ ≠ 0)
    (hid : id < db.windows.nextId) : Closed id (db.endWindow id reason at_) := by
  refine ⟨hid, fun w hw hwid => ?_⟩
  simp only [Db.endWindow, Serial.mem_update] at hw
  obtain ⟨w₀, hw₀, rfl⟩ := hw
  by_cases h₀ : w₀.id = id
  · by_cases hopen : w₀.endedAt = 0 <;> simp [h₀, hopen, hat]
  · simp [h₀] at hwid

theorem later_create {input : MaintenanceCreateInput} : Later db (db.create input) := by
  refine ⟨Nat.le_succ _, fun w hw hid => ?_⟩
  rcases (Serial.mem_insert fun _ => rfl).1 hw with hw | rfl
  · exact ⟨w, hw, .refl w⟩
  · exact absurd hid (lt_irrefl db.windows.nextId)

theorem later_effect (hneed : need places (h, db) op) : Later db (effect db op) := by
  cases op <;> first
    | exact .refl db
    | exact later_create
    | exact later_endWindow hneed.2
    | exact later_update _ fun w => ⟨rfl, rfl, rfl, rfl, fun h => h⟩

theorem fact_exec (hneed : need places (h, db) op) :
    fact places (h ++ notes env db op, effect db op) op (answer places env db op) := by
  cases op <;> first
    | trivial
    | rfl
    | exact env.now_pos
    | exact closed_endWindow hneed.2 hneed.1
    | exact List.mem_append_right _ (List.mem_singleton_self _)
    | exact fun w hw => db.windows.fresh w (Serial.mem_of_find hw).1

/-! ### Runs -/

/-- What the notes and the table have in common over a run. -/
structure Tidy (places : Places) (h : List Note) (db : Db) : Prop where
  kept : (∀ n ∈ h, places.Kept n) → ∀ w ∈ db.windows, places.Keeps w
  cleared : ∀ sighting mark, .finished sighting mark ∈ h → Cleared sighting mark db
  opened : ∀ input w, .opened input w ∈ h → Declared places input w.environmentId w.cameraIds ∧
    InScope places h w.declaredBy w.declaredRole w.cameraIds

theorem Follows.keeps {w w' : MaintenanceWindow} (h : Follows w w') (hkeeps : places.Keeps w) :
    places.Keeps w' := by
  unfold Places.Keeps at hkeeps ⊢
  rwa [h.cameras, h.environment]

/-- The windows of an update are those there were. -/
theorem follows_effect (hnew : ∀ input row, op ≠ .create input row)
    (hneed : need places (h, db) op) :
    ∀ w' ∈ (effect db op).windows, ∃ w ∈ db.windows, Follows w w' := by
  intro w' hw'
  refine (later_effect hneed).follows w' hw' ?_
  have hid := (effect db op).windows.fresh w' hw'
  cases op <;> first
    | exact hid
    | exact absurd rfl (hnew _ _)

theorem tidy_exec (htidy : Tidy places h db) (hneed : need places (h, db) op) :
    Tidy places (h ++ notes env db op) (effect db op) := by
  have hlater := later_effect hneed
  refine ⟨fun hkept => ?_, fun sighting mark hfinished => ?_, fun input w hopened => ?_⟩
  · have hkeeps := htidy.kept fun n hn => hkept n (List.mem_append_left _ hn)
    by_cases hnew : ∀ input row, op ≠ .create input row
    · intro w' hw'
      obtain ⟨w, hw, hfollows⟩ := follows_effect hnew hneed w' hw'
      exact hfollows.keeps (hkeeps w hw)
    · obtain ⟨input, row, rfl⟩ : ∃ input row, op = .create input row := by simpa using hnew
      intro w hw
      rcases (Serial.mem_insert fun _ => rfl).1 hw with hw | rfl
      · exact hkeeps w hw
      · exact hneed.2.together.2 (hkept (.opened input (row.row db.windows.nextId))
          (by simp [notes]))
  · rcases List.mem_append.1 hfinished with hold | hnew
    · exact (htidy.cleared sighting mark hold).later hlater
    · cases op <;> simp only [notes, List.mem_singleton, List.not_mem_nil, reduceCtorEq] at hnew
      case endWindow => split at hnew <;> simp at hnew
      case finish =>
        obtain ⟨rfl, rfl⟩ := Note.finished.inj hnew
        exact hneed
  · rcases List.mem_append.1 hopened with hold | hnew
    · obtain ⟨hdeclared, hscope⟩ := htidy.opened input w hold
      exact ⟨hdeclared, hscope.mono (List.subset_append_left _ _)⟩
    · cases op <;> simp only [notes, List.mem_singleton, List.not_mem_nil, reduceCtorEq] at hnew
      case endWindow => split at hnew <;> simp at hnew
      case create =>
        obtain ⟨rfl, rfl⟩ := Note.opened.inj hnew
        exact ⟨hneed.2, hneed.1.mono (List.subset_append_left _ _)⟩

theorem tidy_of_run {db₀ : Db} {p : Pool Db Op Op.Ans}
    (hrun : Run (Step places) (start db₀) h p) (hstart : ∀ w ∈ db₀.windows, places.Keeps w) :
    Tidy places h p.shared := by
  refine (Pool.invariant_of_heeds (T := terms places) (J := fun h db _ => Tidy places h db) hrun
    ?_ ?_ fun request w => meets_program request).elim fun _ h => h
  · exact ⟨fun _ => hstart, by simp, by simp⟩
  · intro h db _ env op htidy hneed
    exact ⟨tidy_exec htidy hneed, fact_exec hneed, List.subset_append_left _ _, later_effect hneed⟩

/-- **No window hides a camera where a stranger is**, if the cameras that the input of each window
names belong together: once `endForUnknownPerson` has finished, none that was there when it began
is active over a camera of the environment.  A window keeps to its environment exactly if its input
does, and the cameras of a guard's window are in environments it is on duty in, as far as those
that the input names were read. -/
theorem unknown_person_uncovered {db₀ : Db} {p : Pool Db Op Op.Ans}
    (hrun : Run (Step places) (start db₀) h p) (hstart : ∀ w ∈ db₀.windows, places.Keeps w) :
    ((∀ n ∈ h, places.Kept n) → ∀ sighting mark, .finished sighting mark ∈ h →
      ∀ w ∈ p.shared.windows, w.id < mark → w.active sighting.at_ = true →
        ∀ c ∈ w.cameraIds, places.environmentOf c ≠ sighting.environmentId) ∧
      ∀ input w, .opened input w ∈ h →
        ((∀ c ∈ w.cameraIds, places.environmentOf c = w.environmentId) ↔ places.Together input) ∧
        (w.declaredRole = .guard →
          (∀ c ∈ input.cameraIds, 0 < c → places.resolved c = places.environmentOf c) →
            ∃ duty, .duty w.declaredBy duty ∈ h ∧
              ∀ c ∈ w.cameraIds, places.environmentOf c ∈ duty) := by
  have htidy := tidy_of_run hrun hstart
  refine ⟨fun hkept sighting mark hfinished w hw hid hactive c hc henvironment => ?_,
    fun input w hopened => ?_⟩
  · refine (htidy.cleared sighting mark hfinished).2 w hw hid hactive ?_
    rw [← htidy.kept hkept w hw c hc, henvironment]
  · obtain ⟨hdeclared, hscope⟩ := htidy.opened input w hopened
    refine ⟨hdeclared.together, fun hguard hread => ?_⟩
    obtain ⟨duty, hduty, hmem⟩ := hscope hguard
    refine ⟨duty, hduty, fun c hc => ?_⟩
    have hresolved : places.resolved c = places.environmentOf c :=
      (hdeclared.named c hc).elim (fun hnamed => hread c hnamed.1 hnamed.2) id
    exact hresolved ▸ hmem c hc

section Examples

/-- Camera 10 is in environment 1, camera 20 in environment 2. -/
def twoPlaces : Places where
  assignments := [⟨10, 1⟩, ⟨20, 2⟩]
  sorted := by simp
  defaultId := 1

/-- A resident declares work on cameras. -/
def declareCameras (cameraIds : List ℤ) : Request :=
  .declare { actor := ⟨7, .resident⟩, cameraIds }

/-- A window is declared over the cameras, and a stranger is seen in environment 2. -/
def stranger (cameraIds : List ℤ) (steps : ℕ) : List (Event Outside Request) :=
  .spawn (declareCameras cameraIds) :: List.replicate 8 (.run 0 {}) ++
    .spawn (.unknownPerson ⟨2, 1⟩) :: List.replicate steps (.run 1 {})

/-- A guard on duty in environment 2 declares camera 20 and a resident camera 10, and then a stranger
is seen in environment 2. -/
def guardAndResident : List (Event Outside Request) :=
  .spawn (.declare { actor := ⟨7, .guard⟩, cameraIds := [20] }) ::
      List.replicate 9 (.run 0 { duty := [2] }) ++
    .spawn (.declare { actor := ⟨8, .resident⟩, cameraIds := [10] }) ::
      List.replicate 8 (.run 1 {}) ++
    .spawn (.unknownPerson ⟨2, 1⟩) :: List.replicate 8 (.run 2 {})

/-- The guard's window ends, the other one stays. -/
theorem unknown_person_uncovered_two : ∃ h p, Run (Step twoPlaces) (start {}) h p ∧
    (∃ w ∈ p.shared.windows.rows, w.id < 3 ∧ w.active 1 = true) ∧
    (∀ w ∈ p.shared.windows, w.id < 3 → w.active 1 = true →
      ∀ c ∈ w.cameraIds, twoPlaces.environmentOf c ≠ 2) ∧
    ∃ input w, .opened input w ∈ h ∧ w.declaredRole = .guard ∧
      ∃ duty, .duty w.declaredBy duty ∈ h ∧ ∀ c ∈ w.cameraIds, twoPlaces.environmentOf c ∈ duty := by
  obtain ⟨⟨p, h⟩, hplay, hfacts⟩ := Option.any_eq_true _ _ |>.1
    (show ((Pool.replay (exec twoPlaces) program (start {}) [] guardAndResident).any fun r =>
      decide (((∀ n ∈ r.2, twoPlaces.Kept n) ∧ .finished ⟨2, 1⟩ 3 ∈ r.2) ∧
        ∃ w ∈ r.1.shared.windows.rows, w.id < 3 ∧ w.active 1 = true) &&
      r.2.any fun n =>
        match n with
        | .opened input w => decide (w.declaredRole = .guard ∧
          ∀ c ∈ input.cameraIds, 0 < c → twoPlaces.resolved c = twoPlaces.environmentOf c)
        | _ => false) = true from by decide +kernel)
  simp only [Bool.and_eq_true, decide_eq_true_eq, List.any_eq_true] at hfacts
  obtain ⟨⟨⟨hkept, hfinished⟩, hstays⟩, n, hn, hguard⟩ := hfacts
  have hrun := Pool.run_of_replay .start hplay
  obtain ⟨huncovered, hopenings⟩ :=
    unknown_person_uncovered hrun fun _ hw => absurd hw List.not_mem_nil
  refine ⟨h, p, hrun, hstays, huncovered hkept ⟨2, 1⟩ 3 hfinished, ?_⟩
  split at hguard
  next input w =>
    obtain ⟨hrole, hread⟩ := of_decide_eq_true hguard
    exact ⟨input, w, hn, hrole, (hopenings input w hn).2 hrole hread⟩
  next => cases hguard

/-- A window over the cameras of two environments outlives a stranger in the second. -/
theorem stranger_hidden : ¬∀ (places : Places) (h : List Note) (p : Pool Db Op Op.Ans),
    Run (Step places) (start {}) h p → ∀ sighting mark, .finished sighting mark ∈ h →
      ∀ w ∈ p.shared.windows, w.id < mark → w.active sighting.at_ = true →
        ∀ c ∈ w.cameraIds, places.environmentOf c ≠ sighting.environmentId := by
  intro hall
  obtain ⟨⟨p, h⟩, hplay, hfacts⟩ := Option.any_eq_true _ _ |>.1
    (show ((Pool.replay (exec twoPlaces) program (start {}) [] (stranger [10, 20] 3)).any fun r =>
      decide (.finished ⟨2, 1⟩ 2 ∈ r.2) && r.1.shared.windows.rows.any fun w =>
        w.active 1 && decide (w.id < 2 ∧ 20 ∈ w.cameraIds)) = true from by decide)
  simp only [Bool.and_eq_true, decide_eq_true_eq, List.any_eq_true] at hfacts
  obtain ⟨hfinished, w, hw, hactive, hid, hc⟩ := hfacts
  exact hall twoPlaces h p (Pool.run_of_replay .start hplay) ⟨2, 1⟩ 2 hfinished w hw hid hactive
    20 hc (by decide)

end Examples

end Maintenance

end ArgusBackend
