import ArgusBackend.Response.Wire

/-!
# The checkpoint of an observation

What an observation has decided so far is stored as JSON with its row, and read when the observation
is taken up again.

* `checkpointToJson`, `checkpointFromJson` : the two directions;
* `rewriteChecks` : what the encounter phase changes in a stored checkpoint;
* `checkpoint_survives` : what is read is what was stored.
-/

namespace ArgusBackend

namespace Guard

open Response (Json)

/-- What is known of a visitor. -/
structure GuardVisitor where
  name : String := ""
  category : String := ""
  visits : Int32 := 0
  weekdays : List Int32 := []
  usualHour : Int32 := -1
  companion : Bool := false
  deriving DecidableEq

/-- Something is known. -/
def GuardVisitor.present (visitor : GuardVisitor) : Bool :=
  visitor.name ≠ "" || visitor.category ≠ ""

/-- What was said with a visitor. -/
structure DialogueResult where
  greeted : Bool := false
  greetingText : String := ""
  greetingStatus : String := ""
  greetingDetail : String := ""
  listened : Bool := false
  heardText : String := ""
  replied : Bool := false
  replyText : String := ""
  repairPending : Bool := false
  listenAfterReply : Bool := false
  turns : Int32 := 0
  resumable : Bool := false
  retryAt : Int64 := 0
  deriving DecidableEq

/-- A tool that was used. -/
structure GuardToolLog where
  kind : String := ""
  status : String := ""
  deriving DecidableEq

/-- What the assessment came to. -/
structure GuardAssessmentResult where
  performed : Bool := false
  valid : Bool := false
  veto : Bool := false
  mode : String := ""
  threat : String := ""
  caption : String := ""
  summary : String := ""
  tags : List String := []
  announceText : String := ""
  toolRounds : Int32 := 0
  toolLogs : List GuardToolLog := []
  deriving DecidableEq

/-- How far the work on an observation has come. -/
structure ObservationCheckpoint where
  encounterChecks : Int32 := 0
  areaInUse : Bool := false
  passerby : Bool := false
  expectedArea : Bool := false
  cameraRole : String := ""
  outdoor : Bool := false
  familyInside : Bool := false
  visitor : GuardVisitor := {}
  reasons : List String := []
  holdsComputed : Bool := false
  quietHold : Bool := false
  budgetHold : Bool := false
  groupedInto : Int64 := -1
  visitCount : Int32 := 0
  expectedGuest : Bool := false
  guestId : Int64 := 0
  guestOneTime : Bool := false
  hardFloor : Bool := false
  observedOnly : Bool := false
  effectsDenied : Bool := false
  effectsStarted : Bool := false
  weapon : Bool := false
  lateAssessed : Bool := false
  lateRaised : Bool := false
  stale : Bool := false
  policyDanger : String := ""
  guestFloor : String := ""
  danger : String := ""
  greetingStatus : String := ""
  greetingDetail : String := ""
  dialogue : DialogueResult := {}
  assessment : GuardAssessmentResult := {}
  deriving DecidableEq

/-! ### Writing -/

/-- The JSON of a visitor. -/
def visitorToJson (visitor : GuardVisitor) : Json :=
  .obj [("name", .str visitor.name), ("category", .str visitor.category),
    ("visits", .int visitor.visits.toInt),
    ("weekdays", .arr (visitor.weekdays.map fun day => .int day.toInt)),
    ("usualHour", .int visitor.usualHour.toInt), ("companion", .bool visitor.companion)]

/-- The JSON of a dialogue. -/
def dialogueToJson (dialogue : DialogueResult) : Json :=
  .obj [("greeted", .bool dialogue.greeted), ("greetingText", .str dialogue.greetingText),
    ("listened", .bool dialogue.listened), ("heardText", .str dialogue.heardText),
    ("replied", .bool dialogue.replied), ("replyText", .str dialogue.replyText),
    ("repairPending", .bool dialogue.repairPending),
    ("listenAfterReply", .bool dialogue.listenAfterReply), ("turns", .int dialogue.turns.toInt)]

/-- The JSON of a tool. -/
def toolLogToJson (log : GuardToolLog) : Json :=
  .obj [("kind", .str log.kind), ("status", .str log.status)]

/-- The JSON of an assessment. -/
def assessmentToJson (assessment : GuardAssessmentResult) : Json :=
  .obj [("performed", .bool assessment.performed), ("valid", .bool assessment.valid),
    ("veto", .bool assessment.veto), ("mode", .str assessment.mode),
    ("threat", .str assessment.threat), ("caption", .str assessment.caption),
    ("summary", .str assessment.summary), ("announceText", .str assessment.announceText),
    ("toolRounds", .int assessment.toolRounds.toInt),
    ("tags", .arr (assessment.tags.map .str)),
    ("toolLogs", .arr (assessment.toolLogs.map toolLogToJson))]

/-- `GuardService::checkpointToJson` -/
def checkpointToJson (checkpoint : ObservationCheckpoint) : Json :=
  .obj ([("encounterChecks", .int checkpoint.encounterChecks.toInt),
    ("areaInUse", .bool checkpoint.areaInUse), ("passerby", .bool checkpoint.passerby),
    ("expectedArea", .bool checkpoint.expectedArea), ("cameraRole", .str checkpoint.cameraRole),
    ("outdoor", .bool checkpoint.outdoor), ("familyInside", .bool checkpoint.familyInside),
    ("reasons", .arr (checkpoint.reasons.map .str)),
    ("holdsComputed", .bool checkpoint.holdsComputed), ("quietHold", .bool checkpoint.quietHold),
    ("budgetHold", .bool checkpoint.budgetHold),
    ("groupedInto", .int checkpoint.groupedInto.toInt),
    ("visitCount", .int checkpoint.visitCount.toInt),
    ("expectedGuest", .bool checkpoint.expectedGuest), ("guestId", .int checkpoint.guestId.toInt),
    ("guestOneTime", .bool checkpoint.guestOneTime), ("hardFloor", .bool checkpoint.hardFloor),
    ("observedOnly", .bool checkpoint.observedOnly),
    ("effectsDenied", .bool checkpoint.effectsDenied),
    ("effectsStarted", .bool checkpoint.effectsStarted), ("weapon", .bool checkpoint.weapon),
    ("lateAssessed", .bool checkpoint.lateAssessed), ("lateRaised", .bool checkpoint.lateRaised),
    ("stale", .bool checkpoint.stale), ("policyDanger", .str checkpoint.policyDanger),
    ("guestFloor", .str checkpoint.guestFloor), ("danger", .str checkpoint.danger),
    ("greetingStatus", .str checkpoint.greetingStatus),
    ("greetingDetail", .str checkpoint.greetingDetail),
    ("dialogue", dialogueToJson checkpoint.dialogue),
    ("assessment", assessmentToJson checkpoint.assessment)] ++
    if checkpoint.visitor.present then [("visitor", visitorToJson checkpoint.visitor)] else [])

/-! ### Reading -/

section Reading

variable (json : Json) (key : String)

/-- A Boolean member, or false. -/
def boolAt : Except Json.Error Bool := (json.get key (.bool false)).asBool

/-- A text member, or the empty text. -/
def textAt : Except Json.Error String := (json.get key (.str "")).asString

/-- A member of 32 bits, or a given number. -/
def intAt (fallback : ℤ) : Except Json.Error Int32 := do
  let value ← (json.get key (.int fallback)).asInt
  return .ofInt value

/-- A member of 64 bits, or a given number. -/
def int64At (fallback : ℤ) : Except Json.Error Int64 := do
  let value ← (json.get key (.int fallback)).asInt64
  return .ofInt value

/-- The strings of a list. -/
def textsAt : List String :=
  (json.field key).items.filterMap fun
    | .str value => some value
    | _ => none

end Reading

/-- The items that are an `int`, as such. -/
def weekdaysOf (json : Json) : List Int32 :=
  json.items.filterMap fun
    | .int day => if Json.isInt (.int day) then some (.ofInt day) else none
    | _ => none

/-- The visitor of a JSON. -/
def visitorFromJson (json : Json) : Except Json.Error GuardVisitor :=
  if !json.isObject then .ok {}
  else do
    return {
      name := ← textAt json "name"
      category := ← textAt json "category"
      visits := ← intAt json "visits" 0
      weekdays := weekdaysOf (json.field "weekdays")
      usualHour := ← intAt json "usualHour" (-1)
      companion := ← boolAt json "companion" }

/-- The dialogue of a JSON. -/
def dialogueFromJson (json : Json) : Except Json.Error DialogueResult :=
  if !json.isObject then .ok {}
  else do
    return {
      greeted := ← boolAt json "greeted"
      greetingText := ← textAt json "greetingText"
      listened := ← boolAt json "listened"
      heardText := ← textAt json "heardText"
      replied := ← boolAt json "replied"
      replyText := ← textAt json "replyText"
      repairPending := ← boolAt json "repairPending"
      listenAfterReply := ← boolAt json "listenAfterReply"
      turns := ← intAt json "turns" 0 }

/-- The tool of a JSON. -/
def toolLogFromJson (json : Json) : Except Json.Error GuardToolLog := do
  return { kind := ← textAt json "kind", status := ← textAt json "status" }

/-- The assessment of a JSON. -/
def assessmentFromJson (json : Json) : Except Json.Error GuardAssessmentResult :=
  if !json.isObject then .ok {}
  else do
    return {
      performed := ← boolAt json "performed"
      valid := ← boolAt json "valid"
      veto := ← boolAt json "veto"
      mode := ← textAt json "mode"
      threat := ← textAt json "threat"
      caption := ← textAt json "caption"
      summary := ← textAt json "summary"
      announceText := ← textAt json "announceText"
      toolRounds := ← intAt json "toolRounds" 0
      tags := textsAt json "tags"
      toolLogs := ← ((json.field "toolLogs").items.filter Json.isObject).mapM toolLogFromJson }

/-- `GuardService::checkpointFromJson` -/
def checkpointFromJson (json : Json) : Except Json.Error ObservationCheckpoint :=
  if !json.isObject then .ok {}
  else do
    return {
      encounterChecks := ← intAt json "encounterChecks" 0
      areaInUse := ← boolAt json "areaInUse"
      passerby := ← boolAt json "passerby"
      expectedArea := ← boolAt json "expectedArea"
      cameraRole := ← textAt json "cameraRole"
      outdoor := ← boolAt json "outdoor"
      familyInside := ← boolAt json "familyInside"
      visitor := ← visitorFromJson (json.field "visitor")
      reasons := textsAt json "reasons"
      holdsComputed := ← boolAt json "holdsComputed"
      quietHold := ← boolAt json "quietHold"
      budgetHold := ← boolAt json "budgetHold"
      groupedInto := ← int64At json "groupedInto" (-1)
      visitCount := ← intAt json "visitCount" 0
      expectedGuest := ← boolAt json "expectedGuest"
      guestId := ← int64At json "guestId" 0
      guestOneTime := ← boolAt json "guestOneTime"
      hardFloor := ← boolAt json "hardFloor"
      observedOnly := ← boolAt json "observedOnly"
      effectsDenied := ← boolAt json "effectsDenied"
      effectsStarted := ← boolAt json "effectsStarted"
      weapon := ← boolAt json "weapon"
      lateAssessed := ← boolAt json "lateAssessed"
      lateRaised := ← boolAt json "lateRaised"
      stale := ← boolAt json "stale"
      policyDanger := ← textAt json "policyDanger"
      guestFloor := ← textAt json "guestFloor"
      danger := ← textAt json "danger"
      greetingStatus := ← textAt json "greetingStatus"
      greetingDetail := ← textAt json "greetingDetail"
      dialogue := ← dialogueFromJson (json.field "dialogue")
      assessment := ← assessmentFromJson (json.field "assessment") }

/-- What the encounter phase makes of the checkpoint that is to be stored. -/
def rewriteChecks (json : Json) (encounterChecks : ℤ) : Json :=
  (if json.isObject then json else .obj []).set "encounterChecks" (.int encounterChecks)

/-! ### What is read is what was written -/

section Fields

variable {json : Json} {key : String}

theorem boolAt_eq {b : Bool} (h : json.get key (.bool false) = .bool b) :
    boolAt json key = .ok b := by
  rw [boolAt, h, Json.asBool]

theorem textAt_eq {value : String} (h : json.get key (.str "") = .str value) :
    textAt json key = .ok value := by
  rw [textAt, h, Json.asString]

theorem intAt_eq {fallback : ℤ} {value : Int32} (h : json.get key (.int fallback) = .int value.toInt) :
    intAt json key fallback = .ok value := by
  have hrange : -2 ^ 31 ≤ value.toInt ∧ value.toInt < 2 ^ 31 := ⟨value.le_toInt, value.toInt_lt⟩
  rw [intAt, h, Json.asInt, if_pos hrange]
  exact congrArg Except.ok (Int32.ofInt_toInt value)

theorem int64At_eq {fallback : ℤ} {value : Int64}
    (h : json.get key (.int fallback) = .int value.toInt) :
    int64At json key fallback = .ok value := by
  rw [int64At, h, Json.asInt64]
  exact congrArg Except.ok (Int64.ofInt_toInt value)

theorem textsAt_eq {values : List String} (h : json.field key = .arr (values.map .str)) :
    textsAt json key = values := by
  rw [textsAt, h, Json.items, List.filterMap_map]
  exact List.filterMap_some

theorem weekdaysOf_eq (days : List Int32) :
    weekdaysOf (.arr (days.map fun day => .int day.toInt)) = days := by
  rw [weekdaysOf, Json.items, List.filterMap_map]
  refine (List.filterMap_congr fun day _ => ?_).trans List.filterMap_some
  have hrange : Json.isInt (.int day.toInt) = true :=
    Bool.and_eq_true_iff.2 ⟨decide_eq_true day.le_toInt, decide_eq_true day.toInt_lt⟩
  simp [hrange]

end Fields

theorem visitor_survives (visitor : GuardVisitor) :
    visitorFromJson (visitorToJson visitor) = .ok visitor := by
  have hname : textAt (visitorToJson visitor) "name" = .ok visitor.name := textAt_eq rfl
  have hcategory : textAt (visitorToJson visitor) "category" = .ok visitor.category := textAt_eq rfl
  have hvisits : intAt (visitorToJson visitor) "visits" 0 = .ok visitor.visits := intAt_eq rfl
  have hhour : intAt (visitorToJson visitor) "usualHour" (-1) = .ok visitor.usualHour :=
    intAt_eq rfl
  have hcompanion : boolAt (visitorToJson visitor) "companion" = .ok visitor.companion :=
    boolAt_eq rfl
  have hdays : (visitorToJson visitor).field "weekdays" =
      .arr (visitor.weekdays.map fun day => .int day.toInt) := rfl
  rw [visitorFromJson, hname, hcategory, hvisits, hhour, hcompanion, hdays, weekdaysOf_eq]
  rfl

theorem dialogue_survives (dialogue : DialogueResult) :
    dialogueFromJson (dialogueToJson dialogue) =
      .ok { dialogue with
        greetingStatus := "", greetingDetail := "", resumable := false, retryAt := 0 } := by
  have hturns : intAt (dialogueToJson dialogue) "turns" 0 = .ok dialogue.turns := intAt_eq rfl
  rw [dialogueFromJson, hturns]
  rfl

theorem toolLog_survives (log : GuardToolLog) : toolLogFromJson (toolLogToJson log) = .ok log := rfl

theorem toolLogs_survive (logs : List GuardToolLog) :
    ((logs.map toolLogToJson).filter Json.isObject).mapM toolLogFromJson = .ok logs := by
  induction logs with
  | nil => rfl
  | cons log logs ih =>
    rw [List.map_cons, List.filter_cons_of_pos (by rfl), List.mapM_cons, toolLog_survives, ih]
    rfl

theorem assessment_survives (assessment : GuardAssessmentResult) :
    assessmentFromJson (assessmentToJson assessment) = .ok assessment := by
  have hrounds : intAt (assessmentToJson assessment) "toolRounds" 0 = .ok assessment.toolRounds :=
    intAt_eq rfl
  have htags : textsAt (assessmentToJson assessment) "tags" = assessment.tags := textsAt_eq rfl
  have hlogs : ((assessmentToJson assessment).field "toolLogs").items =
      assessment.toolLogs.map toolLogToJson := rfl
  rw [assessmentFromJson, hrounds, htags, hlogs, toolLogs_survive]
  rfl

/-- What is read of a checkpoint: how far the greeting got is not stored with its dialogue. -/
def kept (checkpoint : ObservationCheckpoint) : ObservationCheckpoint :=
  { checkpoint with
    dialogue := { checkpoint.dialogue with
      greetingStatus := "", greetingDetail := "", resumable := false, retryAt := 0 } }

theorem field_visitor (checkpoint : ObservationCheckpoint) :
    (checkpointToJson checkpoint).field "visitor" =
      if checkpoint.visitor.present then visitorToJson checkpoint.visitor else .null := by
  by_cases hpresent : checkpoint.visitor.present = true
  · rw [if_pos hpresent, checkpointToJson, if_pos hpresent]
    rfl
  · rw [if_neg hpresent, checkpointToJson, if_neg hpresent]
    rfl

theorem checkpoint_roundtrip {checkpoint : ObservationCheckpoint}
    (hvisitor : checkpoint.visitor.present = true ∨ checkpoint.visitor = {}) :
    checkpointFromJson (checkpointToJson checkpoint) = .ok (kept checkpoint) := by
  have hchecks : intAt (checkpointToJson checkpoint) "encounterChecks" 0 =
      .ok checkpoint.encounterChecks := intAt_eq rfl
  have hgrouped : int64At (checkpointToJson checkpoint) "groupedInto" (-1) =
      .ok checkpoint.groupedInto := int64At_eq rfl
  have hvisits : intAt (checkpointToJson checkpoint) "visitCount" 0 = .ok checkpoint.visitCount :=
    intAt_eq rfl
  have hguest : int64At (checkpointToJson checkpoint) "guestId" 0 = .ok checkpoint.guestId :=
    int64At_eq rfl
  have hreasons : textsAt (checkpointToJson checkpoint) "reasons" = checkpoint.reasons :=
    textsAt_eq rfl
  have hread : visitorFromJson ((checkpointToJson checkpoint).field "visitor") =
      .ok checkpoint.visitor := by
    rw [field_visitor]
    split_ifs with hpresent
    · exact visitor_survives _
    · rw [hvisitor.resolve_left hpresent]
      rfl
  have hdialogue : (checkpointToJson checkpoint).field "dialogue" =
      dialogueToJson checkpoint.dialogue := rfl
  have hassessment : (checkpointToJson checkpoint).field "assessment" =
      assessmentToJson checkpoint.assessment := rfl
  rw [checkpointFromJson, hchecks, hgrouped, hvisits, hguest, hreasons, hread, hdialogue,
    dialogue_survives, hassessment, assessment_survives]
  rfl

/-! ### The rewrite of the encounter phase -/

section Rewrite

variable {fields : List (String × Json)} {json value : Json} {key key' : String}

theorem find?_replaced (hne : key' ≠ key) :
    (fields.map fun f => if f.1 = key then (key, value) else f).find? (·.1 = key') =
      fields.find? (·.1 = key') := by
  induction fields with
  | nil => rfl
  | cons f fields ih =>
    by_cases hf : f.1 = key
    · simp [hf, hne.symm, ih]
    · by_cases hkey : f.1 = key' <;> simp [hf, hkey, hne, ih]

/-- Setting a field leaves the others. -/
theorem find?_set (hne : key' ≠ key) :
    ∃ fields', (Json.obj fields).set key value = .obj fields' ∧
      fields'.find? (·.1 = key') = fields.find? (·.1 = key') := by
  by_cases hany : fields.any (·.1 = key) = true
  · exact ⟨_, by rw [Json.set, if_pos hany], find?_replaced hne⟩
  · refine ⟨_, by rw [Json.set, if_neg hany], ?_⟩
    rw [List.find?_append, List.find?_singleton]
    simp [hne.symm]

theorem set_field (hobject : json.isObject = true) (hne : key' ≠ key) :
    (json.set key value).field key' = json.field key' ∧
      ∀ fallback, (json.set key value).get key' fallback = json.get key' fallback := by
  cases json with
  | obj fields =>
    obtain ⟨fields', hset, hfind⟩ := @find?_set fields value key key' hne
    rw [hset]
    exact ⟨by simp only [Json.field, hfind], fun fallback => by simp only [Json.get, hfind]⟩
  | _ => cases hobject

theorem find?_replaced_self (hany : fields.any (·.1 = key) = true) :
    (fields.map fun f => if f.1 = key then (key, value) else f).find? (·.1 = key) =
      some (key, value) := by
  induction fields with
  | nil => cases hany
  | cons f fields ih =>
    by_cases hf : f.1 = key
    · simp [hf]
    · simp only [List.any_cons, hf, decide_false, Bool.false_or] at hany
      simp [hf, ih hany]

theorem set_self (hobject : json.isObject = true) : (json.set key value).field key = value := by
  cases json with
  | obj fields =>
    by_cases hany : fields.any (·.1 = key) = true
    · rw [Json.set, if_pos hany, Json.field, find?_replaced_self hany]
      rfl
    · have hnone : fields.find? (·.1 = key) = none :=
        List.find?_eq_none.2 fun f hf hkey => hany (List.any_eq_true.2 ⟨f, hf, hkey⟩)
      rw [Json.set, if_neg hany, Json.field, List.find?_append, hnone]
      simp
  | _ => cases hobject

/-- The rewrite of what is stored is what would be stored with the new count. -/
theorem rewrite_checkpointToJson (checkpoint : ObservationCheckpoint) (encounterChecks : Int32) :
    rewriteChecks (checkpointToJson checkpoint) encounterChecks.toInt =
      checkpointToJson { checkpoint with encounterChecks } := by
  rw [checkpointToJson, checkpointToJson]
  dsimp only
  split_ifs with hpresent <;> rfl

end Rewrite

/-- What is read of a stored checkpoint is what was stored, and the encounter phase changes its
count of sightings and nothing else. -/
theorem checkpoint_survives :
    (∀ checkpoint : ObservationCheckpoint,
      checkpoint.visitor.present = true ∨ checkpoint.visitor = {} →
        checkpointFromJson (checkpointToJson checkpoint) = .ok (kept checkpoint) ∧
        ∀ encounterChecks : Int32,
          checkpointFromJson (rewriteChecks (checkpointToJson checkpoint) encounterChecks.toInt) =
            .ok { kept checkpoint with encounterChecks }) ∧
    ∀ (json : Json) (encounterChecks : ℤ), json.isObject = true →
      (rewriteChecks json encounterChecks).field "encounterChecks" = .int encounterChecks ∧
      ∀ key, key ≠ "encounterChecks" →
        (rewriteChecks json encounterChecks).field key = json.field key ∧
        ∀ fallback, (rewriteChecks json encounterChecks).get key fallback = json.get key fallback := by
  refine ⟨fun checkpoint hvisitor => ⟨checkpoint_roundtrip hvisitor, fun encounterChecks => ?_⟩,
    fun json encounterChecks hobject => ?_⟩
  · rw [rewrite_checkpointToJson]
    have hvisitor' : { checkpoint with encounterChecks }.visitor.present = true ∨
        { checkpoint with encounterChecks }.visitor = {} := hvisitor
    exact checkpoint_roundtrip hvisitor'
  · rw [rewriteChecks, if_pos hobject]
    exact ⟨set_self hobject, fun key hne => ⟨(set_field hobject hne).1, fun fallback =>
      (set_field hobject hne).2 fallback⟩⟩

/-- The checkpoint of a regular visitor who was greeted and assessed, and has been grouped. -/
def visitorCheckpoint : ObservationCheckpoint where
  visitor := { name := "Ana", category := "courier", visits := 4, weekdays := [1, 4], usualHour := 9 }
  reasons := ["known_visitor", "daytime"]
  groupedInto := 7
  visitCount := 4
  stale := true
  danger := "low"
  dialogue := { greeted := true, greetingText := "hello", turns := 2 }
  assessment := { performed := true, valid := true, tags := ["parcel"]
                  toolLogs := [⟨"camera", "ok"⟩, ⟨"history", "failed"⟩], toolRounds := 2 }

theorem checkpoint_survives_visitor :
    checkpointFromJson (rewriteChecks (checkpointToJson visitorCheckpoint) 3) =
        .ok { visitorCheckpoint with encounterChecks := 3 } ∧
      (rewriteChecks (checkpointToJson visitorCheckpoint) 3).field "assessment" =
        (checkpointToJson visitorCheckpoint).field "assessment" :=
  ⟨(checkpoint_survives.1 visitorCheckpoint (.inl (by decide))).2 3,
    ((checkpoint_survives.2 _ 3 (by decide +kernel)).2 "assessment" (by decide)).1⟩

end Guard

end ArgusBackend
