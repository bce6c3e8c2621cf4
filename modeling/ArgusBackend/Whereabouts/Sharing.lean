import ArgusBackend.Whereabouts.Answer

/-!
# Who does not share stays out of the answers

Two runs of the service see the same household, the same presence and the same sharers, while
the verdicts of people who do not share are free.  The relation `Alike` between the facts of
the two runs says what every part of an answer may read; each function of the answer is shown
to return the same on facts that are alike, and `gather` to build facts that are alike.
-/

namespace ArgusBackend

namespace Whereabouts

/-! ### Facts that are alike -/

/-- A room an answer may speak of: one without a camera, or that of a verdict that counts. -/
def Spoken (facts : Facts) (room : String) : Prop :=
  (keyOf room).cameraId ≤ 0 ∨
    ∃ userId verdict, verdictFor facts userId = some verdict ∧ verdict.room = room

/-- Two facts that differ at most in the verdicts of people who do not share. -/
structure Alike (facts₁ facts₂ : Facts) : Prop where
  members : facts₁.members = facts₂.members
  located : facts₁.located = facts₂.located
  presence : facts₁.presence = facts₂.presence
  places : facts₁.places = facts₂.places
  nowMs : facts₁.nowMs = facts₂.nowMs
  verdict : ∀ userId, verdictFor facts₁ userId = verdictFor facts₂ userId
  label : ∀ room, Spoken facts₁ room → ∀ english,
    roomLabel room english facts₁ = roomLabel room english facts₂

section Answers

variable {facts₁ facts₂ : Facts} {ask : Ask}

theorem sharesLocation_alike (h : Alike facts₁ facts₂) (userId : ℤ) :
    sharesLocation facts₁ userId = sharesLocation facts₂ userId := by
  simp only [sharesLocation, h.located]

theorem presenceFor_alike (h : Alike facts₁ facts₂) (userId : ℤ) :
    presenceFor facts₁ userId = presenceFor facts₂ userId := by
  simp only [presenceFor, h.presence]

theorem activeMembers_alike (h : Alike facts₁ facts₂) :
    activeMembers facts₁ = activeMembers facts₂ := by
  simp only [activeMembers, h.members]

theorem someoneHidden_alike (h : Alike facts₁ facts₂) (askerId : ℤ) :
    someoneHidden facts₁ askerId = someoneHidden facts₂ askerId := by
  simp only [someoneHidden, h.located, activeMembers_alike h]

/-- The label of a verdict that counts. -/
theorem label_alike (h : Alike facts₁ facts₂) {userId : ℤ} {verdict : RoomVerdict}
    (hverdict : verdictFor facts₂ userId = some verdict) (english : Bool) :
    roomLabel verdict.room english facts₁ = roomLabel verdict.room english facts₂ :=
  h.label _ (.inr ⟨userId, verdict, (h.verdict userId).trans hverdict, rfl⟩) english

theorem entryOf_alike (h : Alike facts₁ facts₂) (member : Member) (english : Bool) :
    entryOf member facts₁ english = entryOf member facts₂ english := by
  simp only [entryOf, sharesLocation_alike h, presenceFor_alike h, h.verdict, h.nowMs]
  cases hverdict : verdictFor facts₂ member.userId with
  | none => rfl
  | some verdict => simp only [Option.map_some, label_alike h hverdict]

theorem unseenText_alike (h : Alike facts₁ facts₂) (member : Member) (english : Bool) :
    unseenText member facts₁ english = unseenText member facts₂ english := by
  simp only [unseenText, sharesLocation_alike h, presenceFor_alike h, h.nowMs]

theorem personText_alike (h : Alike facts₁ facts₂) (member : Member) (english : Bool) :
    personText member facts₁ english = personText member facts₂ english := by
  simp only [personText, h.verdict, h.nowMs, unseenText_alike h]
  cases hverdict : verdictFor facts₂ member.userId with
  | none => rfl
  | some verdict => simp only [label_alike h hverdict]

theorem personAnswer_alike (h : Alike facts₁ facts₂) :
    personAnswer ask facts₁ = personAnswer ask facts₂ := by
  simp only [personAnswer, activeMembers_alike h, personText_alike h, entryOf_alike h]

/-! ### Rooms -/

theorem roomStep_alike (h : Alike facts₁ facts₂) (role : String) :
    roomStep ask facts₁ role = roomStep ask facts₂ role := by
  funext rooms member
  simp only [roomStep, h.verdict, h.nowMs, entryOf_alike h]

theorem mem_alter {β : Type} {key : String} {f : Option β → β} {entry : String × β} :
    ∀ {map : List (String × β)}, entry ∈ alter key f map → entry.1 = key ∨ entry ∈ map
  | [], hentry => by
      rw [alter, List.mem_singleton] at hentry
      exact .inl (by rw [hentry])
  | (k, v) :: rest, hentry => by
      unfold alter at hentry
      split_ifs at hentry with hlt heq
      · rcases List.mem_cons.1 hentry with rfl | hrest
        · exact .inl rfl
        · exact .inr hrest
      · rcases List.mem_cons.1 hentry with rfl | hrest
        · exact .inl heq.symm
        · exact .inr (List.mem_cons_of_mem _ hrest)
      · rcases List.mem_cons.1 hentry with rfl | hrest
        · exact .inr List.mem_cons_self
        · exact (mem_alter hrest).imp_right (List.mem_cons_of_mem _)

/-- The rooms that the loop collects are rooms of verdicts that count. -/
theorem roomStep_spoken {facts : Facts} {role : String} {rooms : Rooms} {member : Member}
    (hrooms : ∀ entry ∈ rooms.byRoom, Spoken facts entry.1) :
    ∀ entry ∈ (roomStep ask facts role rooms member).byRoom, Spoken facts entry.1 := by
  unfold roomStep
  by_cases hasker : member.userId = ask.askerId
  · simpa only [hasker, if_true] using hrooms
  simp only [hasker, if_false]
  cases hverdict : verdictFor facts member.userId with
  | none => exact hrooms
  | some verdict =>
      by_cases hrole : (keyOf verdict.room).role = role
      · simp only [hrole, ne_eq, not_true_eq_false, if_false]
        intro entry hentry
        rcases mem_alter hentry with hroom | hold
        · exact .inr ⟨_, verdict, hverdict, hroom.symm⟩
        · exact hrooms entry hold
      · simpa only [ne_eq, hrole, not_false_eq_true, if_true] using hrooms

theorem rooms_spoken {facts : Facts} {role : String} :
    ∀ (members : List Member) {rooms : Rooms},
      (∀ entry ∈ rooms.byRoom, Spoken facts entry.1) →
      ∀ entry ∈ (members.foldl (roomStep ask facts role) rooms).byRoom, Spoken facts entry.1
  | [], _, hrooms => hrooms
  | _ :: members, _, hrooms => rooms_spoken members (roomStep_spoken hrooms)

theorem roomText_alike (h : Alike facts₁ facts₂) {weakest : List (String × Certainty)}
    {text : String} {entry : String × List Member} (hentry : Spoken facts₁ entry.1) :
    roomText ask facts₁ weakest text entry = roomText ask facts₂ weakest text entry := by
  simp only [roomText, h.label entry.1 hentry]

theorem roomTexts_alike (h : Alike facts₁ facts₂) {weakest : List (String × Certainty)} :
    ∀ {entries : List (String × List Member)} {text : String},
      (∀ entry ∈ entries, Spoken facts₁ entry.1) →
      entries.foldl (roomText ask facts₁ weakest) text =
        entries.foldl (roomText ask facts₂ weakest) text
  | [], _, _ => by simp only [List.foldl_nil]
  | entry :: entries, text, hentries => by
      rw [List.foldl_cons, List.foldl_cons,
        roomText_alike h (hentries entry List.mem_cons_self)]
      exact roomTexts_alike h fun other hother =>
        hentries other (List.mem_cons_of_mem _ hother)

/-- The roles that can be asked for. -/
def knownRoles : List String :=
  ["living", "kitchen", "office", "garage", "register", "storage", "entrance"]

theorem roomRoleOf_known {spoken role : String} (hrole : roomRoleOf spoken = some role) :
    role ∈ knownRoles := by
  have hsynonyms : ∀ synonym ∈ kRoomSynonyms, synonym.2 ∈ knownRoles := by decide
  have hlabels : ∀ words ∈ kRoomLabels, words.role ∈ knownRoles := by decide
  unfold roomRoleOf at hrole
  dsimp only at hrole
  split at hrole
  · next synonym hfound =>
      cases hrole
      exact hsynonyms synonym (List.mem_of_find?_eq_some hfound)
  · obtain ⟨words, hfound, rfl⟩ := Option.map_eq_some_iff.1 hrole
    exact hlabels words (List.mem_of_find?_eq_some hfound)

/-- No known role reads as a camera. -/
theorem keyOf_known {role : String} (hrole : role ∈ knownRoles) :
    (keyOf ("0:" ++ role)).cameraId ≤ 0 := by
  have hall : ∀ role ∈ knownRoles, (keyOf ("0:" ++ role)).cameraId ≤ 0 := by decide
  exact hall role hrole

theorem roomAnswer_alike (h : Alike facts₁ facts₂) :
    roomAnswer ask facts₁ = roomAnswer ask facts₂ := by
  unfold roomAnswer
  cases hrole : roomRoleOf ask.room with
  | none => rfl
  | some role =>
      have hspoken : ∀ entry ∈ ((activeMembers facts₂).foldl (roomStep ask facts₂ role)
          ⟨[], [], []⟩).byRoom, Spoken facts₁ entry.1 := by
        rw [← roomStep_alike h role]
        exact rooms_spoken _ (by simp)
      simp only [activeMembers_alike h, roomStep_alike h role, someoneHidden_alike h,
        h.label _ (.inl (keyOf_known (roomRoleOf_known hrole))), roomTexts_alike h hspoken]

/-! ### The household -/

theorem householdStep_alike (h : Alike facts₁ facts₂) :
    householdStep ask facts₁ = householdStep ask facts₂ := by
  funext house member
  simp only [householdStep, entryOf_alike h, presenceFor_alike h, h.verdict]
  cases hverdict : verdictFor facts₂ member.userId with
  | none => rfl
  | some verdict => simp only [label_alike h hverdict]

theorem householdAnswer_alike (h : Alike facts₁ facts₂) :
    householdAnswer ask facts₁ = householdAnswer ask facts₂ := by
  simp only [householdAnswer, activeMembers_alike h, householdStep_alike h]

theorem answer_alike (h : Alike facts₁ facts₂) : answer ask facts₁ = answer ask facts₂ := by
  simp only [answer, personAnswer_alike h, roomAnswer_alike h, householdAnswer_alike h]

end Answers

/-! ### What `gather` puts into the facts -/

/-- The verdict that counts for a user, the first one. -/
def Dependencies.verdictOf (dependencies : Dependencies) (userId : ℤ) : Option RoomVerdict :=
  (dependencies.verdicts.getD []).find? (·.userId = userId)

/-- The verdicts of those who do not share are gone, and all of them when nobody knows who
shares. -/
theorem find?_shared (located : Option (Finset ℤ)) (verdicts : List RoomVerdict) (userId : ℤ) :
    (shared located verdicts).find? (·.userId = userId) =
      match located with
      | none => none
      | some ids => if userId ∈ ids then verdicts.find? (·.userId = userId) else none := by
  cases located with
  | none => rfl
  | some ids =>
      simp only [shared, List.find?_filter]
      split_ifs with hmem
      · congr 1
        funext verdict
        by_cases huser : verdict.userId = userId <;> simp [huser, hmem]
      · rw [List.find?_eq_none]
        intro verdict _
        by_cases huser : verdict.userId = userId <;> simp [huser, hmem]

theorem verdictFor_gather {dependencies : Dependencies} {facts : Facts}
    (hgather : gather dependencies = some facts) (userId : ℤ) :
    verdictFor facts userId =
      match facts.located with
      | none => none
      | some ids => if userId ∈ ids then dependencies.verdictOf userId else none := by
  unfold gather at hgather
  cases hmembers : dependencies.members with
  | none => simp [hmembers] at hgather
  | some members =>
      simp only [hmembers, Option.some.injEq] at hgather
      subst hgather
      simp only [verdictFor, sharesLocation, find?_shared, Dependencies.verdictOf]
      cases dependencies.located with
      | none => simp
      | some ids => by_cases hmem : userId ∈ ids <;> simp [hmem]

section Cameras

variable {nameOf : ℤ → String}

theorem addCamera_named {cameras : List Camera} {verdict : RoomVerdict}
    (hnamed : ∀ camera ∈ cameras, camera.name = nameOf camera.id) :
    ∀ camera ∈ addCamera nameOf cameras verdict, camera.name = nameOf camera.id := by
  intro camera hcamera
  unfold addCamera at hcamera
  dsimp only at hcamera
  split_ifs at hcamera
  · exact hnamed camera hcamera
  · rcases List.mem_append.1 hcamera with hold | hnew
    · exact hnamed camera hold
    · rw [List.mem_singleton.1 hnew]

theorem addCamera_subset (cameras : List Camera) (verdict : RoomVerdict) :
    cameras ⊆ addCamera nameOf cameras verdict := by
  unfold addCamera
  dsimp only
  split_ifs
  · exact fun _ h => h
  · exact List.subset_append_left _ _

theorem addCamera_holds (nameOf : ℤ → String) (cameras : List Camera) {verdict : RoomVerdict}
    (hcamera : 0 < (keyOf verdict.room).cameraId) :
    ∃ camera ∈ addCamera nameOf cameras verdict, camera.id = (keyOf verdict.room).cameraId := by
  unfold addCamera
  dsimp only
  split_ifs with hskip
  · obtain ⟨camera, hmem, hid⟩ := List.any_eq_true.1 (hskip.resolve_left (by omega))
    exact ⟨camera, hmem, by simpa using hid⟩
  · exact ⟨_, List.mem_append_right _ List.mem_cons_self, rfl⟩

theorem cameras_named : ∀ (verdicts : List RoomVerdict) {cameras : List Camera},
    (∀ camera ∈ cameras, camera.name = nameOf camera.id) →
    ∀ camera ∈ verdicts.foldl (addCamera nameOf) cameras, camera.name = nameOf camera.id
  | [], _, hnamed => hnamed
  | _ :: verdicts, _, hnamed => cameras_named verdicts (addCamera_named hnamed)

theorem cameras_subset : ∀ (verdicts : List RoomVerdict) (cameras : List Camera),
    cameras ⊆ verdicts.foldl (addCamera nameOf) cameras
  | [], _ => fun _ h => h
  | verdict :: verdicts, cameras => fun _ h =>
      cameras_subset verdicts _ (addCamera_subset cameras verdict h)

theorem cameras_hold (nameOf : ℤ → String) : ∀ {verdicts : List RoomVerdict} (cameras : List Camera)
    {verdict : RoomVerdict}, verdict ∈ verdicts → 0 < (keyOf verdict.room).cameraId →
    ∃ camera ∈ verdicts.foldl (addCamera nameOf) cameras,
      camera.id = (keyOf verdict.room).cameraId
  | first :: verdicts, cameras, verdict, hmem, hcamera => by
      rcases List.mem_cons.1 hmem with rfl | hrest
      · obtain ⟨camera, hheld, hid⟩ := addCamera_holds nameOf cameras hcamera
        exact ⟨camera, cameras_subset verdicts _ hheld, hid⟩
      · exact cameras_hold nameOf (addCamera nameOf cameras first) hrest hcamera

/-- The camera that is looked up for a verdict carries the name it was given. -/
theorem find?_cameras {verdicts : List RoomVerdict} {verdict : RoomVerdict}
    (hmem : verdict ∈ verdicts) (hcamera : 0 < (keyOf verdict.room).cameraId) :
    (verdicts.foldl (addCamera nameOf) []).find? (·.id = (keyOf verdict.room).cameraId) =
      some ⟨(keyOf verdict.room).cameraId, nameOf (keyOf verdict.room).cameraId⟩ := by
  obtain ⟨held, hheld, hid⟩ := cameras_hold nameOf [] hmem hcamera
  cases hfind : (verdicts.foldl (addCamera nameOf) []).find?
      (·.id = (keyOf verdict.room).cameraId) with
  | none => exact absurd hid (by simpa using List.find?_eq_none.1 hfind held hheld)
  | some camera =>
      have hcameraId : camera.id = (keyOf verdict.room).cameraId := by
        simpa using List.find?_some hfind
      have hname : camera.name = nameOf camera.id :=
        cameras_named verdicts (by simp) camera (List.mem_of_find?_eq_some hfind)
      rw [← hcameraId, ← hname]

end Cameras

/-! ### Two runs -/

/-- Two runs of `gather` agree on everything but the verdicts of people who do not share: on
the verdict that counts for each user in the located set, and on the name of its camera. -/
structure AgreeOnSharers (run₁ run₂ : Dependencies) (facts₁ facts₂ : Facts) : Prop where
  members : facts₁.members = facts₂.members
  presence : facts₁.presence = facts₂.presence
  places : facts₁.places = facts₂.places
  located : facts₁.located = facts₂.located
  nowMs : facts₁.nowMs = facts₂.nowMs
  verdicts : ∀ ids, facts₁.located = some ids → ∀ userId ∈ ids,
    run₁.verdictOf userId = run₂.verdictOf userId
  names : ∀ ids, facts₁.located = some ids → ∀ userId ∈ ids, ∀ verdict,
    run₁.verdictOf userId = some verdict → 0 < (keyOf verdict.room).cameraId →
    run₁.nameOf (keyOf verdict.room).cameraId = run₂.nameOf (keyOf verdict.room).cameraId

/-- The label of a verdict that counts, from the name of its camera. -/
theorem roomPart_gather {dependencies : Dependencies} {facts : Facts}
    (hgather : gather dependencies = some facts) {userId : ℤ} {verdict : RoomVerdict}
    (hverdict : verdictFor facts userId = some verdict)
    (hcamera : 0 < (keyOf verdict.room).cameraId) (english : Bool) :
    roomPart (keyOf verdict.room) english facts.cameras =
      roomPart (keyOf verdict.room) english
        [⟨(keyOf verdict.room).cameraId, dependencies.nameOf (keyOf verdict.room).cameraId⟩] := by
  have hmem : verdict ∈ facts.verdicts := by
    unfold verdictFor at hverdict
    split_ifs at hverdict
    exact List.mem_of_find?_eq_some hverdict
  have hcameras : facts.cameras = facts.verdicts.foldl (addCamera dependencies.nameOf) [] := by
    unfold gather at hgather
    split at hgather
    · cases hgather
    · cases hgather
      rfl
  simp only [roomPart, hcameras, find?_cameras hmem hcamera, List.find?_cons_of_pos,
    decide_true]

theorem gather_alike {run₁ run₂ : Dependencies} {facts₁ facts₂ : Facts}
    (hgather₁ : gather run₁ = some facts₁) (hgather₂ : gather run₂ = some facts₂)
    (hagree : AgreeOnSharers run₁ run₂ facts₁ facts₂) : Alike facts₁ facts₂ := by
  have hverdict : ∀ userId, verdictFor facts₁ userId = verdictFor facts₂ userId := by
    intro userId
    rw [verdictFor_gather hgather₁, verdictFor_gather hgather₂, ← hagree.located]
    cases hlocated : facts₁.located with
    | none => rfl
    | some ids =>
        by_cases hmem : userId ∈ ids
        · simp only [hmem, if_true, hagree.verdicts ids hlocated userId hmem]
        · simp only [hmem, if_false]
  refine ⟨hagree.members, hagree.located, hagree.presence, hagree.places, hagree.nowMs,
    hverdict, fun room hspoken english => ?_⟩
  by_cases hcamera : 0 < (keyOf room).cameraId
  · obtain ⟨userId, verdict, hfound, rfl⟩ := hspoken.resolve_left (by omega)
    have hname : run₁.nameOf (keyOf verdict.room).cameraId =
        run₂.nameOf (keyOf verdict.room).cameraId := by
      have hread := hfound
      rw [verdictFor_gather hgather₁] at hread
      cases hlocated : facts₁.located with
      | none => simp [hlocated] at hread
      | some ids =>
          simp only [hlocated] at hread
          split_ifs at hread with hmem
          exact hagree.names ids hlocated userId hmem verdict hread hcamera
    simp only [roomLabel, roomPart_gather hgather₁ hfound hcamera,
      roomPart_gather hgather₂ ((hverdict userId).symm.trans hfound) hcamera, hname,
      hagree.places]
  · simp only [roomLabel, roomPart, gt_iff_lt, hcamera, if_false, hagree.places]

/-- What people who do not share are seen doing does not reach any answer: two gathered facts
that agree on the household and on the verdicts of those who share give the same reply to every
ask, and the service gives the same reply to every request. -/
theorem answers_hide_unshared {run₁ run₂ : Dependencies} {facts₁ facts₂ : Facts}
    (hgather₁ : gather run₁ = some facts₁) (hgather₂ : gather run₂ = some facts₂)
    (hagree : AgreeOnSharers run₁ run₂ facts₁ facts₂) :
    (∀ ask, answer ask facts₁ = answer ask facts₂) ∧
      ∀ request, serve request run₁ = serve request run₂ := by
  have halike := gather_alike hgather₁ hgather₂ hagree
  refine ⟨fun ask => answer_alike halike, fun request => ?_⟩
  simp only [serve, hgather₁, hgather₂, answer_alike halike]

/-- A household of two: the first shares and is seen by camera 7, the second does not. -/
def twoMembers (other : Option RoomVerdict) : Dependencies where
  members := some [⟨1, "Ana", true⟩, ⟨2, "Luis", true⟩]
  verdicts := some (other.toList ++ [⟨1, "3:camera:7", 4 / 5, 1000, .face⟩])
  located := some {1}
  presence := some [⟨2, .home, 0⟩]
  places := none
  cameraName := some fun id => if id = 7 then "porch" else "cellar"
  clockMs := 2000

/-- Where the second member is seen makes no difference. -/
theorem answers_hide_unshared_two :
    ∃ facts₁ facts₂, gather (twoMembers none) = some facts₁ ∧
      gather (twoMembers (some ⟨2, "3:camera:9", 1, 1500, .voice⟩)) = some facts₂ ∧
      ∀ ask, answer ask facts₁ = answer ask facts₂ := by
  refine ⟨_, _, rfl, rfl, (@answers_hide_unshared (twoMembers none)
    (twoMembers (some ⟨2, "3:camera:9", 1, 1500, .voice⟩)) _ _ rfl rfl ?_).1⟩
  refine ⟨rfl, rfl, rfl, rfl, rfl, fun ids hids userId hmem => ?_,
    fun ids hids userId hmem verdict _ _ => rfl⟩
  have hone : userId = 1 := by
    have hset : ({1} : Finset ℤ) = ids := Option.some.inj hids
    simpa [← hset] using hmem
  subst hone
  simp [Dependencies.verdictOf, twoMembers]

end Whereabouts

end ArgusBackend
