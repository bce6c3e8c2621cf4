import ArgusBackend.Tamper.Policy

/-!
# Cameras that are lost together

The groups that `groupsOf` makes of the readings.  `Cuts` says how the readings of an environment
are cut into clusters, whatever the order of equal onsets; the rest follows from it by induction.

* `cuts_clusters` : the clusters of readings in the order of their onsets;
* `alike_of_cuts` : the same readings are cut into the same clusters;
* `groups_found` : what the groups are, and what is left out of them.
-/

namespace ArgusBackend

namespace Tamper

variable {windowS : ℤ}

/-- Readings cut into clusters: each holds what starts within `windowS` of its first reading, and
the next ones start later. -/
inductive Cuts (windowS : ℤ) : List TamperReadingRef → List (List TamperReadingRef) → Prop
  | nil : Cuts windowS [] []
  | cut {start : TamperReadingRef} {near far members : List TamperReadingRef}
      {cs : List (List TamperReadingRef)} :
      members.Perm (start :: near ++ far) →
      (∀ r ∈ near, start.onsetAt ≤ r.onsetAt ∧ r.onsetAt ≤ start.onsetAt + windowS) →
      (∀ r ∈ far, start.onsetAt + windowS < r.onsetAt) → Cuts windowS far cs →
      Cuts windowS members ((start :: near) :: cs)

section Cutting

variable {start : TamperReadingRef} {near far members rest : List TamperReadingRef}

theorem clustersFrom_append (hnear : ∀ r ∈ near, r.onsetAt - start.onsetAt ≤ windowS)
    (hfar : ∀ r ∈ far, windowS < r.onsetAt - start.onsetAt) :
    clustersFrom windowS start members (near ++ far) =
      (members ++ near) :: clusters windowS far := by
  induction near generalizing members with
  | nil =>
    cases far with
    | nil => simp [clustersFrom, clusters]
    | cons r far =>
      have hlate : ¬r.onsetAt - start.onsetAt ≤ windowS := not_le.2 (hfar r List.mem_cons_self)
      simp [clustersFrom, clusters, hlate]
  | cons r near ih =>
    rw [List.cons_append, clustersFrom, if_pos (hnear r List.mem_cons_self),
      ih fun r' hr' => hnear r' (List.mem_cons_of_mem _ hr'), List.append_assoc]
    rfl

/-- In the order of the onsets, what is near stands before what is not. -/
theorem filter_append (hsorted : rest.Pairwise (·.onsetAt ≤ ·.onsetAt)) (bound : ℤ) :
    rest.filter (·.onsetAt ≤ bound) ++ rest.filter (bound < ·.onsetAt) = rest := by
  induction rest with
  | nil => rfl
  | cons r rest ih =>
    obtain ⟨hr, hrest⟩ := List.pairwise_cons.1 hsorted
    by_cases hnear : r.onsetAt ≤ bound
    · simp [hnear, ih hrest]
    · have hlate : ∀ r' ∈ rest, bound < r'.onsetAt := fun r' hr' =>
        (not_le.1 hnear).trans_le (hr r' hr')
      have hnone : rest.filter (·.onsetAt ≤ bound) = [] :=
        List.filter_eq_nil_iff.2 fun r' hr' => by simpa using hlate r' hr'
      have hall : rest.filter (bound < ·.onsetAt) = rest :=
        List.filter_eq_self.2 fun r' hr' => by simpa using hlate r' hr'
      simp [hnear, hnone, hall, not_le.1 hnear]

theorem clusters_cons (hsorted : rest.Pairwise (·.onsetAt ≤ ·.onsetAt)) :
    clusters windowS (start :: rest) =
      (start :: rest.filter (·.onsetAt ≤ start.onsetAt + windowS)) ::
        clusters windowS (rest.filter (start.onsetAt + windowS < ·.onsetAt)) := by
  have hnear : ∀ r ∈ rest.filter (·.onsetAt ≤ start.onsetAt + windowS),
      r.onsetAt - start.onsetAt ≤ windowS := fun r hr => by
    have := (List.mem_filter.1 hr).2
    simp only [decide_eq_true_eq] at this
    omega
  have hfar : ∀ r ∈ rest.filter (start.onsetAt + windowS < ·.onsetAt),
      windowS < r.onsetAt - start.onsetAt := fun r hr => by
    have := (List.mem_filter.1 hr).2
    simp only [decide_eq_true_eq] at this
    omega
  rw [clusters, ← filter_append hsorted (start.onsetAt + windowS)]
  rw [clustersFrom_append hnear hfar, filter_append hsorted]
  rfl

/-- Readings in the order of their onsets are cut into the clusters. -/
theorem cuts_clusters {members : List TamperReadingRef}
    (hsorted : members.Pairwise (·.onsetAt ≤ ·.onsetAt)) :
    Cuts windowS members (clusters windowS members) := by
  induction hlen : members.length using Nat.strong_induction_on generalizing members with
  | _ n ih =>
    cases members with
    | nil => exact .nil
    | cons start rest =>
      obtain ⟨hstart, hrest⟩ := List.pairwise_cons.1 hsorted
      rw [clusters_cons hrest]
      refine .cut ?_ (fun r hr => ?_) (fun r hr => ?_) (ih _ ?_ (hrest.filter _) rfl)
      · rw [List.cons_append, filter_append hrest]
      · obtain ⟨hmem, hnear⟩ := List.mem_filter.1 hr
        exact ⟨hstart r hmem, by simpa using hnear⟩
      · simpa using (List.mem_filter.1 hr).2
      · rw [← hlen]
        exact Nat.lt_succ_of_le (List.length_filter_le _ _)

end Cutting

section Found

variable {members members' : List TamperReadingRef} {cs cs' : List (List TamperReadingRef)}

/-- Every reading is in a cluster, each once. -/
theorem Cuts.perm (h : Cuts windowS members cs) : members.Perm cs.flatten := by
  induction h with
  | nil => exact .nil
  | cut hperm _ _ _ ih => exact hperm.trans (ih.append_left _)

/-- A cluster starts with its first onset, and lasts for the window. -/
theorem Cuts.near (h : Cuts windowS members cs) {c : List TamperReadingRef} (hc : c ∈ cs) :
    ∃ start near, c = start :: near ∧
      ∀ r ∈ near, start.onsetAt ≤ r.onsetAt ∧ r.onsetAt ≤ start.onsetAt + windowS := by
  induction h with
  | nil => cases hc
  | cut _ hnear _ _ ih =>
    rcases List.mem_cons.1 hc with rfl | hc
    · exact ⟨_, _, rfl, hnear⟩
    · exact ih hc

/-- What stands alone in its cluster has a near onset only before its own, in a cluster that was
closed when its own started. -/
theorem Cuts.alone (h : Cuts windowS members cs) {r r' : TamperReadingRef} (hr : [r] ∈ cs)
    (hr' : r' ∈ members) (hne : r' ≠ r) (hafter : r'.onsetAt ≤ r.onsetAt + windowS)
    (hbefore : r.onsetAt ≤ r'.onsetAt + windowS) :
    ∃ start near, start :: near ∈ cs ∧ r' ∈ start :: near ∧ near ≠ [] ∧
      start.onsetAt + windowS < r.onsetAt := by
  induction h with
  | nil => cases hr
  | @cut start near far members cs hperm hnear hfar hcuts ih =>
    have hmem : r' ∈ start :: near ∨ r' ∈ far := List.mem_append.1 (hperm.mem_iff.1 hr')
    rcases List.mem_cons.1 hr with heq | hr
    · -- the first cluster: what comes after it is too late
      obtain ⟨rfl, rfl⟩ : r = start ∧ [] = near := by simpa using heq
      rcases hmem with hmem | hmem
      · exact absurd (List.mem_singleton.1 hmem) hne
      · exact absurd hafter (not_le.2 (hfar r' hmem))
    · have hlate : start.onsetAt + windowS < r.onsetAt :=
        hfar r (hcuts.perm.mem_iff.2 (List.mem_flatten.2 ⟨_, hr, List.mem_singleton_self r⟩))
      rcases hmem with hmem | hmem
      · refine ⟨start, near, List.mem_cons_self, hmem, ?_, hlate⟩
        rintro rfl
        obtain rfl := List.mem_singleton.1 hmem
        exact absurd hbefore (not_le.2 hlate)
      · obtain ⟨start', near', hin, hrest⟩ := ih hr hmem
        exact ⟨start', near', List.mem_cons_of_mem _ hin, hrest⟩

/-- Clusters of the same readings that start with the same onset. -/
def Alike (c c' : List TamperReadingRef) : Prop :=
  c.Perm c' ∧ c.head?.map (·.onsetAt) = c'.head?.map (·.onsetAt)

/-- The readings that are not after a bound. -/
theorem Cuts.filter_eq {start : TamperReadingRef} {near far : List TamperReadingRef}
    (hwindow : 0 ≤ windowS) (hperm : members.Perm (start :: near ++ far))
    (hnear : ∀ r ∈ near, start.onsetAt ≤ r.onsetAt ∧ r.onsetAt ≤ start.onsetAt + windowS)
    (hfar : ∀ r ∈ far, start.onsetAt + windowS < r.onsetAt) :
    (members.filter (·.onsetAt ≤ start.onsetAt + windowS)).Perm (start :: near) ∧
      (members.filter (start.onsetAt + windowS < ·.onsetAt)).Perm far := by
  have hfirst : ∀ r ∈ start :: near, r.onsetAt ≤ start.onsetAt + windowS := by
    intro r hr
    rcases List.mem_cons.1 hr with rfl | hr
    · omega
    · exact (hnear r hr).2
  have hearly : (start :: near).filter (·.onsetAt ≤ start.onsetAt + windowS) = start :: near :=
    List.filter_eq_self.2 fun r hr => by simpa using hfirst r hr
  have hnone : far.filter (·.onsetAt ≤ start.onsetAt + windowS) = [] :=
    List.filter_eq_nil_iff.2 fun r hr => by simpa using hfar r hr
  have hearly' : (start :: near).filter (start.onsetAt + windowS < ·.onsetAt) = [] :=
    List.filter_eq_nil_iff.2 fun r hr => by simpa using hfirst r hr
  have hall : far.filter (start.onsetAt + windowS < ·.onsetAt) = far :=
    List.filter_eq_self.2 fun r hr => by simpa using hfar r hr
  constructor
  · have := hperm.filter (·.onsetAt ≤ start.onsetAt + windowS)
    rwa [List.filter_append, hearly, hnone, List.append_nil] at this
  · have := hperm.filter (start.onsetAt + windowS < ·.onsetAt)
    rwa [List.filter_append, hearly', hall, List.nil_append] at this

/-- The first reading of a cut is the earliest. -/
theorem Cuts.first_le {start : TamperReadingRef} {near far : List TamperReadingRef}
    (hwindow : 0 ≤ windowS)
    (hnear : ∀ r ∈ near, start.onsetAt ≤ r.onsetAt ∧ r.onsetAt ≤ start.onsetAt + windowS)
    (hfar : ∀ r ∈ far, start.onsetAt + windowS < r.onsetAt) {r : TamperReadingRef}
    (hr : r ∈ start :: near ++ far) : start.onsetAt ≤ r.onsetAt := by
  rcases List.mem_append.1 hr with hr | hr
  · rcases List.mem_cons.1 hr with rfl | hr
    · exact le_rfl
    · exact (hnear r hr).1
  · have := hfar r hr
    omega

/-- The same readings are cut into the same clusters. -/
theorem alike_of_cuts (hwindow : 0 ≤ windowS) (h : Cuts windowS members cs)
    (h' : Cuts windowS members' cs') (hsame : members.Perm members') :
    List.Forall₂ Alike cs cs' := by
  induction h generalizing members' cs' with
  | nil =>
    obtain rfl := hsame.nil_eq
    cases h' with
    | nil => exact .nil
    | cut hperm => exact absurd hperm.nil_eq (by simp)
  | @cut start near far members cs hperm hnear hfar hcuts ih =>
    cases h' with
    | nil => exact absurd (hsame.symm.trans hperm).nil_eq (by simp)
    | @cut start' near' far' _ cs' hperm' hnear' hfar' hcuts' =>
      have hboth : (start :: near ++ far).Perm (start' :: near' ++ far') :=
        (hperm.symm.trans hsame).trans hperm'
      have heq : start.onsetAt = start'.onsetAt := le_antisymm
        (Cuts.first_le hwindow hnear hfar (hboth.mem_iff.2 (by simp)))
        (Cuts.first_le hwindow hnear' hfar' (hboth.mem_iff.1 (by simp)))
      obtain ⟨hfirst, hrest⟩ := Cuts.filter_eq hwindow hperm hnear hfar
      obtain ⟨hfirst', hrest'⟩ := Cuts.filter_eq hwindow hperm' hnear' hfar'
      rw [← heq] at hfirst' hrest'
      refine .cons ⟨?_, by simp [heq]⟩ (ih hcuts' ?_)
      · exact (hfirst.symm.trans (hsame.filter _)).trans hfirst'
      · exact (hrest.symm.trans (hsame.filter _)).trans hrest'

end Found

/-! ### The groups -/

section Groups

variable {readings readings' : List TamperReadingRef} {environmentId : ℤ} {g : TamperGroup}
  {c c' : List TamperReadingRef}

/-- The readings of an environment in the order of their onsets. -/
def membersOf (readings : List TamperReadingRef) (environmentId : ℤ) : List TamperReadingRef :=
  (readings.filter (·.environmentId = environmentId)).insertionSort (·.onsetAt ≤ ·.onsetAt)

theorem mem_membersOf {r : TamperReadingRef} :
    r ∈ membersOf readings environmentId ↔ r ∈ readings ∧ r.environmentId = environmentId := by
  simp [membersOf]

theorem cuts_membersOf :
    Cuts windowS (membersOf readings environmentId)
      (clusters windowS (membersOf readings environmentId)) := by
  have : IsTrans TamperReadingRef (·.onsetAt ≤ ·.onsetAt) := ⟨fun _ _ _ => le_trans⟩
  have : Std.Total (fun r r' : TamperReadingRef => r.onsetAt ≤ r'.onsetAt) :=
    ⟨fun r r' => le_total r.onsetAt r'.onsetAt⟩
  exact cuts_clusters (List.pairwise_insertionSort _ _)

theorem groupOf_eq_some : groupOf environmentId c = some g ↔
    ∃ start near, c = start :: near ∧ near ≠ [] ∧
      g = ⟨environmentId, (c.map (·.cameraId)).insertionSort (· ≤ ·), start.onsetAt⟩ := by
  match c with
  | [] => simp [groupOf]
  | [_] => simp [groupOf]
  | first :: second :: rest => simp [groupOf, eq_comm]

theorem exists_groupOf (environmentId : ℤ) (start : TamperReadingRef)
    {near : List TamperReadingRef} (hnear : near ≠ []) :
    ∃ g, groupOf environmentId (start :: near) = some g ∧ g.environmentId = environmentId ∧
      g.firstOnset = start.onsetAt :=
  ⟨_, groupOf_eq_some.2 ⟨start, near, rfl, hnear, rfl⟩, rfl, rfl⟩

/-- The cameras of a group are those of its cluster. -/
theorem mem_cameraIds (hg : groupOf environmentId c = some g) {cameraId : ℤ} :
    cameraId ∈ g.cameraIds ↔ ∃ r ∈ c, r.cameraId = cameraId := by
  obtain ⟨start, near, -, -, rfl⟩ := groupOf_eq_some.1 hg
  simp

theorem groupOf_alike (h : Alike c c') : groupOf environmentId c = groupOf environmentId c' := by
  obtain ⟨hperm, hhead⟩ := h
  have hids : (c.map (·.cameraId)).insertionSort (· ≤ ·) =
      (c'.map (·.cameraId)).insertionSort (· ≤ ·) :=
    ((List.perm_insertionSort _ _).trans ((hperm.map _).trans
      (List.perm_insertionSort _ _).symm)).eq_of_pairwise'
      (List.pairwise_insertionSort _ _) (List.pairwise_insertionSort _ _)
  have hlength := hperm.length_eq
  rcases c with _ | ⟨first, _ | ⟨second, rest⟩⟩ <;>
    rcases c' with _ | ⟨first', _ | ⟨second', rest'⟩⟩ <;>
      simp only [List.length_nil, List.length_cons, Nat.add_eq_zero_iff, Nat.add_right_cancel_iff]
        at hlength <;> try omega
  · rfl
  · rfl
  · have honset : first.onsetAt = first'.onsetAt := by simpa using hhead
    simp only [groupOf, hids, honset]

theorem filterMap_groupOf {cs cs' : List (List TamperReadingRef)} (h : List.Forall₂ Alike cs cs') :
    cs.filterMap (groupOf environmentId) = cs'.filterMap (groupOf environmentId) := by
  induction h with
  | nil => rfl
  | cons hc _ ih => rw [List.filterMap_cons, List.filterMap_cons, groupOf_alike hc, ih]

/-- The groups of the clusters hold no camera that the clusters do not hold. -/
theorem nodup_flatMap_groupOf {cs : List (List TamperReadingRef)}
    (h : (cs.flatten.map (·.cameraId)).Nodup) :
    ((cs.filterMap (groupOf environmentId)).flatMap (·.cameraIds)).Nodup := by
  induction cs with
  | nil => exact List.nodup_nil
  | cons c cs ih =>
    rw [List.flatten_cons, List.map_append, List.nodup_append] at h
    obtain ⟨hc, hcs, hdisjoint⟩ := h
    rw [List.filterMap_cons]
    cases hg : groupOf environmentId c with
    | none => exact ih hcs
    | some g =>
      rw [List.flatMap_cons, List.nodup_append]
      refine ⟨?_, ih hcs, ?_⟩
      · obtain ⟨start, near, -, -, rfl⟩ := groupOf_eq_some.1 hg
        exact ((List.perm_insertionSort _ _).nodup_iff).2 hc
      · rintro cameraId hin cameraId' hin' rfl
        obtain ⟨r, hr, rfl⟩ := (mem_cameraIds hg).1 hin
        obtain ⟨g', hg', hin'⟩ := List.mem_flatMap.1 hin'
        obtain ⟨c', hc', hg'⟩ := List.mem_filterMap.1 hg'
        obtain ⟨r', hr', heq⟩ := (mem_cameraIds hg').1 hin'
        exact hdisjoint _ (List.mem_map_of_mem hr) _
          (List.mem_map_of_mem (List.mem_flatten.2 ⟨_, hc', hr'⟩)) heq.symm

theorem mem_groupsOf : g ∈ groupsOf readings windowS ↔
    ∃ c ∈ clusters windowS (membersOf readings g.environmentId),
      groupOf g.environmentId c = some g := by
  simp only [groupsOf, List.mem_flatMap, List.mem_filterMap, Ranks.mem_distinct]
  constructor
  · rintro ⟨environmentId, -, c, hc, hg⟩
    obtain ⟨start, near, -, -, rfl⟩ := groupOf_eq_some.1 hg
    exact ⟨c, hc, hg⟩
  · rintro ⟨c, hc, hg⟩
    obtain ⟨start, near, rfl, -, -⟩ := groupOf_eq_some.1 hg
    have hmem : start ∈ membersOf readings g.environmentId := cuts_membersOf.perm.mem_iff.2
      (List.mem_flatten.2 ⟨_, hc, List.mem_cons_self⟩)
    obtain ⟨hin, henvironment⟩ := mem_membersOf.1 hmem
    exact ⟨g.environmentId, List.mem_map.2 ⟨start, hin, henvironment⟩, _, hc, hg⟩

theorem groupsOf_perm (hwindow : 0 ≤ windowS) (hperm : readings.Perm readings') :
    groupsOf readings windowS = groupsOf readings' windowS := by
  have henvironments : Ranks.distinct (readings.map (·.environmentId)) =
      Ranks.distinct (readings'.map (·.environmentId)) := by
    unfold Ranks.distinct
    rw [((List.perm_insertionSort _ _).trans ((hperm.map _).trans
      (List.perm_insertionSort _ _).symm)).eq_of_pairwise'
      (List.pairwise_insertionSort _ _) (List.pairwise_insertionSort _ _)]
  unfold groupsOf
  rw [henvironments]
  refine List.flatMap_congr fun environmentId _ => ?_
  have hmembers : (membersOf readings environmentId).Perm (membersOf readings' environmentId) :=
    (List.perm_insertionSort _ _).trans ((hperm.filter _).trans
      (List.perm_insertionSort _ _).symm)
  have hcuts : Cuts windowS (membersOf readings environmentId)
      (clusters windowS (membersOf readings environmentId)) := cuts_membersOf
  exact filterMap_groupOf (alike_of_cuts hwindow hcuts cuts_membersOf hmembers)

theorem mem_of_mem_clusters {r : TamperReadingRef}
    (hc : c ∈ clusters windowS (membersOf readings environmentId)) (hr : r ∈ c) :
    r ∈ readings ∧ r.environmentId = environmentId :=
  mem_membersOf.1 (cuts_membersOf.perm.mem_iff.2 (List.mem_flatten.2 ⟨_, hc, hr⟩))

/-- No camera is in two groups. -/
theorem nodup_cameraIds (hcameras : (readings.map (·.cameraId)).Nodup) :
    ((groupsOf readings windowS).flatMap (·.cameraIds)).Nodup := by
  have hinj : ∀ r ∈ readings, ∀ r' ∈ readings, r.cameraId = r'.cameraId → r = r' :=
    fun r hr r' hr' => List.inj_on_of_nodup_map hcameras hr hr'
  have hmembers (environmentId : ℤ) : ((membersOf readings environmentId).map (·.cameraId)).Nodup :=
    (((List.perm_insertionSort _ _).map _).nodup_iff).2
      (hcameras.sublist ((List.filter_sublist).map _))
  have hclusters (environmentId : ℤ) :
      (((clusters windowS (membersOf readings environmentId)).filterMap
        (groupOf environmentId)).flatMap (·.cameraIds)).Nodup :=
    nodup_flatMap_groupOf (((cuts_membersOf.perm.map _).nodup_iff).1 (hmembers environmentId))
  unfold groupsOf
  rw [List.flatMap_assoc, List.nodup_flatMap]
  refine ⟨fun environmentId _ => hclusters environmentId, ?_⟩
  refine (Ranks.sorted_distinct _).imp fun {e e'} hlt cameraId hin hin' => ?_
  -- a camera of two groups has one reading, so the groups are of one environment
  obtain ⟨g, hg, hin⟩ := List.mem_flatMap.1 hin
  obtain ⟨c, hc, hg⟩ := List.mem_filterMap.1 hg
  obtain ⟨g', hg', hin'⟩ := List.mem_flatMap.1 hin'
  obtain ⟨c', hc', hg'⟩ := List.mem_filterMap.1 hg'
  obtain ⟨r, hr, heq⟩ := (mem_cameraIds hg).1 hin
  obtain ⟨r', hr', heq'⟩ := (mem_cameraIds hg').1 hin'
  obtain ⟨hread, henvironment⟩ := mem_of_mem_clusters hc hr
  obtain ⟨hread', henvironment'⟩ := mem_of_mem_clusters hc' hr'
  obtain rfl := hinj r hread r' hread' (heq.trans heq'.symm)
  exact hlt.ne (henvironment.symm.trans henvironment')

/-- A reading that no group takes stands alone in its cluster. -/
theorem singleton_mem_clusters {r : TamperReadingRef} (hr : r ∈ readings)
    (hout : ∀ g ∈ groupsOf readings windowS, r.cameraId ∉ g.cameraIds) :
    [r] ∈ clusters windowS (membersOf readings r.environmentId) := by
  have hcuts : Cuts windowS (membersOf readings r.environmentId)
      (clusters windowS (membersOf readings r.environmentId)) := cuts_membersOf
  obtain ⟨c, hc, hin⟩ := List.mem_flatten.1 (hcuts.perm.mem_iff.1 (mem_membersOf.2 ⟨hr, rfl⟩))
  obtain ⟨start, near, rfl, -⟩ := cuts_membersOf.near hc
  by_cases hnear : near = []
  · rw [hnear] at hin hc
    rwa [List.mem_singleton.1 hin] at hc ⊢
  · obtain ⟨g, hg, hof, -⟩ := exists_groupOf r.environmentId start hnear
    exact absurd ((mem_cameraIds hg).2 ⟨r, hin, rfl⟩)
      (hout g (mem_groupsOf.2 ⟨start :: near, by rwa [hof], by rwa [hof]⟩))

/-- What the groups are, and what a camera that is in none of them missed: those near to it were
lost with a camera whose window had closed by then. -/
theorem groups_found (readings : List TamperReadingRef) (windowS : ℤ) (hwindow : 0 ≤ windowS)
    (hcameras : (readings.map (·.cameraId)).Nodup) :
    (∀ g ∈ groupsOf readings windowS, 2 ≤ g.cameraIds.length ∧
      ∀ cameraId ∈ g.cameraIds, ∃ r ∈ readings, r.cameraId = cameraId ∧
        r.environmentId = g.environmentId ∧
        g.firstOnset ≤ r.onsetAt ∧ r.onsetAt ≤ g.firstOnset + windowS) ∧
    ((groupsOf readings windowS).flatMap (·.cameraIds)).Nodup ∧
    (∀ r ∈ readings, (∀ g ∈ groupsOf readings windowS, r.cameraId ∉ g.cameraIds) →
      ∀ r' ∈ readings, r'.cameraId ≠ r.cameraId → r'.environmentId = r.environmentId →
        r'.onsetAt ≤ r.onsetAt + windowS → r.onsetAt ≤ r'.onsetAt + windowS →
        ∃ g ∈ groupsOf readings windowS, g.environmentId = r.environmentId ∧
          r'.cameraId ∈ g.cameraIds ∧ g.firstOnset + windowS < r.onsetAt) ∧
    ∀ readings', readings.Perm readings' →
      groupsOf readings' windowS = groupsOf readings windowS := by
  refine ⟨fun g hg => ?_, nodup_cameraIds hcameras, ?_,
    fun readings' hperm => (groupsOf_perm hwindow hperm).symm⟩
  · obtain ⟨c, hc, hgroup⟩ := mem_groupsOf.1 hg
    obtain ⟨start, near, rfl, hnear, heq⟩ := groupOf_eq_some.1 hgroup
    obtain ⟨_, _, hcluster, hin⟩ := cuts_membersOf.near hc
    obtain ⟨rfl, rfl⟩ := List.cons.inj hcluster
    have honset : g.firstOnset = start.onsetAt := by rw [heq]
    refine ⟨?_, fun cameraId hcamera => ?_⟩
    · have hpos := List.length_pos_iff.2 hnear
      rw [heq, List.length_insertionSort, List.length_map, List.length_cons]
      omega
    · obtain ⟨r, hr, rfl⟩ := (mem_cameraIds hgroup).1 hcamera
      obtain ⟨hread, henvironment⟩ := mem_of_mem_clusters hc hr
      refine ⟨r, hread, rfl, henvironment, ?_⟩
      rw [honset]
      rcases List.mem_cons.1 hr with rfl | hr
      · exact ⟨le_rfl, by omega⟩
      · exact hin r hr
  · intro r hr hout r' hr' hne henvironment hafter hbefore
    obtain ⟨start, near, hc, hin, hmany, hlate⟩ :=
      cuts_membersOf.alone (singleton_mem_clusters hr hout)
        (mem_membersOf.2 ⟨hr', henvironment⟩) (fun heq => hne (by rw [heq])) hafter hbefore
    obtain ⟨g, hg, hof, honset⟩ := exists_groupOf r.environmentId start hmany
    exact ⟨g, mem_groupsOf.2 ⟨start :: near, by rwa [hof], by rwa [hof]⟩, hof,
      (mem_cameraIds hg).2 ⟨r', hin, rfl⟩, by rwa [honset]⟩

/-- Three cameras of a home, lost at 0, 30 and 60 s. -/
def chain : List TamperReadingRef :=
  [⟨1, 1, 0⟩, ⟨2, 1, 30⟩, ⟨3, 1, 60⟩]

theorem groups_found_chain : ∃ g ∈ groupsOf chain 30, g.environmentId = 1 ∧
    2 ∈ g.cameraIds ∧ g.firstOnset + 30 < 60 :=
  (groups_found chain 30 (by decide) (by decide)).2.2.1 ⟨3, 1, 60⟩ (by decide) (by decide)
    ⟨2, 1, 30⟩ (by decide) (by decide) rfl (by decide) (by decide)

/-- The third camera of the chain is in no group, though the second one was lost within the window
of it: the window is counted from the first. -/
theorem chain_stranded : (chain.map (·.cameraId)).Nodup ∧ (∀ g ∈ groupsOf chain 30, 3 ∉ g.cameraIds) ∧
    ∃ r ∈ chain, ∃ r' ∈ chain, r.cameraId = 3 ∧ r'.cameraId ≠ 3 ∧
      r'.environmentId = r.environmentId ∧ r'.onsetAt ≤ r.onsetAt + 30 ∧
        r.onsetAt ≤ r'.onsetAt + 30 := by
  decide

end Groups

end Tamper

end ArgusBackend
