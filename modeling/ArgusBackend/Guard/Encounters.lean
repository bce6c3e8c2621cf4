import ArgusBackend.Guard.Checkpoint
import ArgusBackend.Guard.Policy
import ArgusBackend.Library.Chronicles

/-!
# Encounters

An observation belongs to an encounter: to an open one that matches it by person, by signature or by
camera, or to a new one.  `commitEncounterPhase` finds it and counts the sighting, in one
transaction, and stores the count with the observation.

* `matchEncounter` : the encounter that an observation belongs to;
* `commitEncounterPhase` : the transaction;
* `after` : what a list of events leaves, and the sightings it counts;
* `sightings_counted` : which runs count every sighting of every encounter.
-/

namespace ArgusBackend

namespace Guard

namespace Encounters

open Response (Json)

/-! ### Signatures -/

namespace Base64

/-- The six bits of a character. -/
def valueOf (character : Char) : Option ℕ :=
  if 'A' ≤ character ∧ character ≤ 'Z' then some (character.toNat - 65)
  else if 'a' ≤ character ∧ character ≤ 'z' then some (character.toNat - 97 + 26)
  else if '0' ≤ character ∧ character ≤ '9' then some (character.toNat - 48 + 52)
  else if character = '+' then some 62
  else if character = '/' then some 63
  else none

/-- The bytes of four characters. -/
def decodeBlock (characters : List Char) : Option (List ℕ) := do
  let block ← characters.foldlM (fun block character =>
    if character = '=' then some (block * 64) else (valueOf character).map (block * 64 + ·)) 0
  let padding := characters.count '='
  return [block / 65536 % 256] ++ (if padding < 2 then [block / 256 % 256] else []) ++
    if padding < 1 then [block % 256] else []

/-- The bytes of whole blocks. -/
def decode : List Char → Option (List ℕ)
  | [] => some []
  | a :: b :: c :: d :: rest => do
    let bytes ← decodeBlock [a, b, c, d]
    let more ← decode rest
    return bytes ++ more
  | _ => none

end Base64

/-- How alike two appearances are. -/
def signatureSimilarity (left right : String) : ℚ :=
  match Base64.decode left.toList, Base64.decode right.toList with
  | some leftBytes, some rightBytes =>
    if leftBytes = [] ∨ leftBytes.length ≠ rightBytes.length then 0
    else
      let shared := (List.zipWith min leftBytes rightBytes).sum
      let total := max leftBytes.sum rightBytes.sum
      if 0 < total then (shared : ℚ) / total else 0
  | _, _ => 0

/-! ### Matching -/

/-- What matching looks at of an encounter. -/
structure GuardEncounterCandidate where
  id : ℤ
  personId : ℤ
  signature : String
  lastCameraId : ℤ
  lastSeen : ℤ
  deriving DecidableEq

/-- The person and the appearance that an encounter is looked for. -/
structure GuardEncounterMatchSpec where
  personId : ℤ := 0
  signature : String := ""
  cameraId : ℤ := 0
  bestScore : ℚ := 0
  now : ℤ := 0
  windowS : ℤ := 0
  continuityWindowS : ℤ := 0
  minSimilarity : ℚ := 0
  createIfUnmatched : Bool := false
  deriving DecidableEq

/-- What the candidates so far have left. -/
structure MatchState where
  best : Option ℤ := none
  bestSimilarity : ℚ
  continuity : Option ℤ := none
  continuitySeen : ℤ := 0

section Matching

variable (spec : GuardEncounterMatchSpec)

/-- The part of the loop that looks at the signature and the camera of a candidate. -/
def MatchState.consider (m : MatchState) (candidate : GuardEncounterCandidate) : MatchState :=
  let similarity := signatureSimilarity spec.signature candidate.signature
  let m := if spec.signature ≠ "" ∧ m.bestSimilarity ≤ similarity then
      { m with bestSimilarity := similarity, best := some candidate.id }
    else m
  if 0 < spec.cameraId ∧ candidate.lastCameraId = spec.cameraId ∧
      spec.now - candidate.lastSeen ≤ spec.continuityWindowS ∧
      m.continuitySeen ≤ candidate.lastSeen then
    { m with continuitySeen := candidate.lastSeen, continuity := some candidate.id }
  else m

/-- The encounter that fits, among those that are left. -/
def matchFrom (m : MatchState) : List GuardEncounterCandidate → Option ℤ
  | [] => m.best.or m.continuity
  | candidate :: rest =>
    if spec.windowS < spec.now - candidate.lastSeen then matchFrom m rest
    else if 0 < spec.personId then
      if candidate.personId = spec.personId then some candidate.id else matchFrom m rest
    else matchFrom (m.consider spec candidate) rest

/-- `guard_policy::matchEncounter` -/
def matchEncounter (candidates : List GuardEncounterCandidate) : Option ℤ :=
  matchFrom spec { bestSimilarity := spec.minSimilarity } candidates

end Matching

/-! ### The tables -/

/-- The states of an encounter. -/
inductive EncounterState where
  | observing | verifying | challenging | listening | interpreting | resolved | escalating
  | degraded | closed
  deriving DecidableEq

/-- A row of the encounters. -/
structure GuardEncounter where
  id : ℤ
  personId : ℤ
  signature : String
  state : EncounterState := .observing
  checks : ℤ := 0
  bestCameraId : ℤ
  bestScore : ℚ
  firstSeen : ℤ
  lastSeen : ℤ
  deriving DecidableEq

/-- How far the work on an observation has come. -/
structure InboxRow where
  stage : ℤ := 0
  incidentId : ℤ := 0
  encounterId : ℤ := 0
  danger : String := ""
  checkpoint : Json := .obj []
  updatedAt : ℤ := 0

/-- The encounters and the inbox of the observations. -/
structure EncounterStore where
  /-- in the order of their ids -/
  encounters : List GuardEncounter := []
  /-- the last id that was given -/
  sequence : ℕ := 0
  inbox : String → Option InboxRow := fun _ => none

namespace EncounterStore

variable (s : EncounterStore)

/-- `OPEN_ENCOUNTERS` -/
def openEncounters (since : ℤ) : List GuardEncounter :=
  ((s.encounters.filter fun e => e.state ≠ .closed && since ≤ e.lastSeen).insertionSort
    fun e e' => e'.lastSeen ≤ e.lastSeen).take 50

/-- `INSERT_ENCOUNTER`, and the id that it gives. -/
def insertEncounter (personId : ℤ) (signature : String) (bestCameraId : ℤ) (bestScore : ℚ)
    (at_ : ℤ) : ℤ × EncounterStore :=
  let id : ℤ := s.sequence + 1
  (id, { s with
    sequence := s.sequence + 1
    encounters := s.encounters ++
      [{ id, personId, signature, bestCameraId, bestScore, firstSeen := at_, lastSeen := at_ }] })

/-- `TOUCH_ENCOUNTER`, and the counts that it returns. -/
def touchEncounter (bestCameraId : ℤ) (bestScore : ℚ) (lastSeen id : ℤ) : List ℤ × EncounterStore :=
  ((s.encounters.filter fun e => e.id = id && e.state ≠ .closed).map (·.checks + 1),
    { s with encounters := s.encounters.map fun e =>
        if e.id = id && e.state ≠ .closed then
          { e with checks := e.checks + 1, bestCameraId, bestScore, lastSeen }
        else e })

/-- `CLOSE_ENCOUNTERS_FOR_PERSON` -/
def closeForPerson (closeAt personId : ℤ) : EncounterStore :=
  { s with encounters := s.encounters.map fun e =>
      if e.personId = personId && e.state ≠ .closed then
        { e with state := .closed, lastSeen := closeAt }
      else e }

/-- `CLOSE_STALE_ENCOUNTERS` -/
def closeStale (olderThan : ℤ) : EncounterStore :=
  { s with encounters := s.encounters.map fun e =>
      if e.state ≠ .closed && e.lastSeen < olderThan then { e with state := .closed } else e }

/-- `UPDATE_ENCOUNTER_STATE_REVISION` -/
def transition (encounterId : ℤ) (toState : EncounterState) : EncounterStore :=
  { s with encounters := s.encounters.map fun e =>
      if e.id = encounterId && e.state ≠ .closed then { e with state := toState } else e }

/-- `INSERT_INBOX`, which leaves the row of an event that has one. -/
def insertInbox (eventId : String) : EncounterStore :=
  { s with inbox := fun id =>
      if id = eventId then (s.inbox eventId).or (some {}) else s.inbox id }

/-- `ADVANCE_INBOX` -/
def advanceInbox (eventId : String) (row : InboxRow) : EncounterStore :=
  { s with inbox := fun id =>
      if id = eventId then (s.inbox eventId).map fun _ => row else s.inbox id }

end EncounterStore

/-! ### The transaction -/

/-- The columns that an advance sets in the inbox. -/
structure GuardObservationAdvanceInput where
  eventId : String := ""
  stage : ℤ := 0
  incidentId : ℤ := 0
  danger : String := ""
  checkpoint : Json := .obj []
  at_ : ℤ := 0

/-- The columns of a new encounter. -/
structure GuardEncounterCreateInput where
  personId : ℤ := 0
  signature : String := ""
  bestCameraId : ℤ := 0
  bestScore : ℚ := 0
  at_ : ℤ := 0

/-- What a further sighting sets. -/
structure GuardEncounterTouchInput where
  bestCameraId : ℤ := 0
  bestScore : ℚ := 0
  lastSeen : ℤ := 0

/-- What one transaction is to do. -/
structure GuardEncounterPhaseInput where
  create : Bool := false
  encounterIdToTouch : ℤ := 0
  createInput : GuardEncounterCreateInput := {}
  touchInput : GuardEncounterTouchInput := {}
  closeForPerson : Bool := false
  closePersonId : ℤ := 0
  closeAt : ℤ := 0
  advance : GuardObservationAdvanceInput := {}
  matchSpec : Option GuardEncounterMatchSpec := none

/-- What it has done. -/
structure GuardEncounterPhaseResult where
  encounterId : ℤ := 0
  encounterChecks : ℤ := 0
  closed : List GuardEncounter := []
  created : Bool := false
  committed : Bool := false
  deriving DecidableEq

/-- What matching looks at of a row. -/
def GuardEncounter.candidate (encounter : GuardEncounter) : GuardEncounterCandidate :=
  { id := encounter.id, personId := encounter.personId, signature := encounter.signature
    lastCameraId := encounter.bestCameraId, lastSeen := encounter.lastSeen }

/-- The open encounter that an observation belongs to. -/
def EncounterStore.matched (s : EncounterStore) (spec : GuardEncounterMatchSpec) : Option ℤ :=
  matchEncounter spec ((s.openEncounters (spec.now - spec.windowS)).map (·.candidate))

/-- The encounter of an observation that has yet to be matched. -/
def placeMatch (spec : GuardEncounterMatchSpec) (s : EncounterStore) :
    GuardEncounterPhaseResult × EncounterStore :=
  let (result, s) : GuardEncounterPhaseResult × EncounterStore :=
    match s.matched spec with
    | some id =>
      let (touched, s') := s.touchEncounter spec.cameraId spec.bestScore spec.now id
      match touched with
      | checks :: _ => ({ encounterId := id, encounterChecks := checks }, s')
      | [] => ({}, s')
    | none => ({}, s)
  if result.encounterId = 0 ∧ spec.createIfUnmatched then
    let (id, s) := s.insertEncounter spec.personId spec.signature spec.cameraId spec.bestScore
      spec.now
    ({ encounterId := id, encounterChecks := 1, created := true }, s)
  else (result, s)

/-- The encounter of an observation. -/
def place (input : GuardEncounterPhaseInput) (s : EncounterStore) :
    GuardEncounterPhaseResult × EncounterStore :=
  match input.matchSpec with
  | some spec => placeMatch spec s
  | none =>
    if input.create then
      let (id, s) := s.insertEncounter input.createInput.personId input.createInput.signature
        input.createInput.bestCameraId input.createInput.bestScore input.createInput.at_
      ({ encounterId := id, encounterChecks := 1, created := true }, s)
    else if 0 < input.encounterIdToTouch then
      let (touched, s) := s.touchEncounter input.touchInput.bestCameraId
        input.touchInput.bestScore input.touchInput.lastSeen input.encounterIdToTouch
      ({ encounterId := input.encounterIdToTouch, encounterChecks := touched.headD 0 }, s)
    else ({}, s)

/-- `GuardRepository::commitEncounterPhase`; a transaction that does not commit leaves the store. -/
def commitEncounterPhase (input : GuardEncounterPhaseInput) (commits : Bool) (s : EncounterStore) :
    GuardEncounterPhaseResult × EncounterStore :=
  if commits then
    let (result, placed) := place input s
    let closes := input.closeForPerson ∧ 0 < input.closePersonId
    let closed := if closes then
        placed.encounters.filter fun e => e.personId = input.closePersonId && e.state ≠ .closed
      else []
    let settled := if closes then placed.closeForPerson input.closeAt input.closePersonId else placed
    ({ result with closed, committed := true },
      settled.advanceInbox input.advance.eventId
        { stage := input.advance.stage, incidentId := input.advance.incidentId
          encounterId := result.encounterId, danger := input.advance.danger
          checkpoint := rewriteChecks input.advance.checkpoint result.encounterChecks
          updatedAt := input.advance.at_ })
  else ({}, s)

/-! ### What an observation does with its count -/

/-- `unknownVisit` of `applyObservation` -/
def unknownVisit (hasUnknown : Bool) (encounterId encounterChecks : ℤ) : Bool :=
  hasUnknown && 0 < encounterId && encounterChecks = 1

/-- `observedOnly` of `applyObservation` -/
def observedOnly (stagingEnabled hasUnknown floored : Bool) (danger : GuardDanger)
    (encounterChecks loiterChecks : ℤ) : Bool :=
  stagingEnabled && hasUnknown && !floored && danger < .high && encounterChecks < loiterChecks

/-! ### Runs -/

/-- An observation is received, or committed when it is to be matched; and what else changes
encounters. -/
inductive EncounterEvent where
  | receive (eventId : String)
  | commit (spec : GuardEncounterMatchSpec) (input : GuardEncounterPhaseInput) (commits : Bool)
  | closeStale (olderThan : ℤ)
  | transition (encounterId : ℤ) (toState : EncounterState)

/-- An observation that was committed to an encounter: the count in the result, and the one in the
checkpoint that is stored with it. -/
structure Sighting where
  encounterId : ℤ
  encounterChecks : ℤ
  /-- the observation has a row in the inbox -/
  received : Bool
  stored : Option Json

/-- What an event leaves, and the sighting that it counts. -/
def EncounterStore.step (s : EncounterStore) : EncounterEvent → EncounterStore × List Sighting
  | .receive eventId => (s.insertInbox eventId, [])
  | .commit spec input commits =>
    let (result, s') := commitEncounterPhase { input with matchSpec := some spec } commits s
    (s', if result.committed ∧ result.encounterId ≠ 0 then
        [{ encounterId := result.encounterId, encounterChecks := result.encounterChecks
           received := (s.inbox input.advance.eventId).isSome
           stored := (s'.inbox input.advance.eventId).map (·.checkpoint.field "encounterChecks") }]
      else [])
  | .closeStale olderThan => (s.closeStale olderThan, [])
  | .transition encounterId toState => (s.transition encounterId toState, [])

/-- What a list of events leaves, and the sightings that it counts. -/
def after (events : List EncounterEvent) : EncounterStore × List Sighting :=
  events.foldl (fun r e => ((r.1.step e).1, r.2 ++ (r.1.step e).2)) ({}, [])

/-- The sightings of an encounter so far. -/
def seen (h : List Sighting) (encounterId : ℤ) : ℕ := h.countP (·.encounterId = encounterId)

/-- The sightings of every encounter are counted from 1, and so they are in the checkpoint of every
observation that was received. -/
def Counted (h : List Sighting) : Prop :=
  Chronicle (fun before n => n.encounterChecks = seen before n.encounterId + 1 ∧
    (n.received = true → n.stored = some (.int (seen before n.encounterId + 1)))) h

/-- The first sighting of an encounter is a visit, and an unknown visitor is only observed in those
before the last of `loiterChecks`. -/
def Staged (h : List Sighting) : Prop :=
  Chronicle (fun before n => ∀ hasUnknown : Bool,
    (unknownVisit hasUnknown n.encounterId n.encounterChecks = true ↔
      hasUnknown = true ∧ 0 < n.encounterId ∧ seen before n.encounterId = 0) ∧
    ∀ (stagingEnabled floored : Bool) (danger : GuardDanger) (loiterChecks : ℤ),
      observedOnly stagingEnabled hasUnknown floored danger n.encounterChecks loiterChecks = true ↔
        stagingEnabled = true ∧ hasUnknown = true ∧ floored = false ∧ danger < .high ∧
          seen before n.encounterId < loiterChecks - 1) h

/-- An observation that belongs to no open encounter. -/
def Unmatched (s : EncounterStore) : EncounterEvent → Prop
  | .commit spec _ true => s.matched spec = none
  | _ => True

/-- The ids are those that were given, and a row counts the sightings after the first. -/
structure EncounterStore.Sound (s : EncounterStore) (h : List Sighting) : Prop where
  nodup : (s.encounters.map (·.id)).Nodup
  checks : ∀ e ∈ s.encounters, e.checks + 1 = seen h e.id
  pos : ∀ e ∈ s.encounters, 0 < e.id
  rows : ∀ e ∈ s.encounters, e.id ≤ s.sequence
  notes : ∀ n ∈ h, n.encounterId ≤ s.sequence

section Matching

variable {spec : GuardEncounterMatchSpec} {m : MatchState} {s : EncounterStore} {h : List Sighting}
  {candidates : List GuardEncounterCandidate} {id : ℤ}

theorem MatchState.best_consider {candidate : GuardEncounterCandidate}
    (hm : (m.consider spec candidate).best = some id) : m.best = some id ∨ candidate.id = id := by
  unfold MatchState.consider at hm
  dsimp only at hm
  split_ifs at hm <;> first | exact .inl hm | exact .inr (Option.some.inj hm)

theorem MatchState.continuity_consider {candidate : GuardEncounterCandidate}
    (hm : (m.consider spec candidate).continuity = some id) :
    m.continuity = some id ∨ candidate.id = id := by
  unfold MatchState.consider at hm
  dsimp only at hm
  split_ifs at hm <;> first | exact .inl hm | exact .inr (Option.some.inj hm)

/-- What is found is a candidate. -/
theorem matchFrom_mem (hfound : matchFrom spec m candidates = some id) :
    m.best = some id ∨ m.continuity = some id ∨ ∃ c ∈ candidates, c.id = id := by
  induction candidates generalizing m with
  | nil =>
    rcases Option.or_eq_some_iff.1 hfound with hbest | ⟨-, hcontinuity⟩
    · exact .inl hbest
    · exact .inr (.inl hcontinuity)
  | cons candidate rest ih =>
    have hlater {m' : MatchState} (hrest : matchFrom spec m' rest = some id)
        (hbest : m'.best = some id → m.best = some id ∨ candidate.id = id)
        (hcontinuity : m'.continuity = some id → m.continuity = some id ∨ candidate.id = id) :
        m.best = some id ∨ m.continuity = some id ∨ ∃ c ∈ candidate :: rest, c.id = id := by
      rcases ih hrest with h | h | ⟨c, hc, heq⟩
      · exact (hbest h).imp_right fun heq => .inr ⟨candidate, List.mem_cons_self, heq⟩
      · exact .inr ((hcontinuity h).imp_right fun heq => ⟨candidate, List.mem_cons_self, heq⟩)
      · exact .inr (.inr ⟨c, List.mem_cons_of_mem _ hc, heq⟩)
    rw [matchFrom] at hfound
    split_ifs at hfound with hold hperson hsame
    · exact hlater hfound .inl .inl
    · exact .inr (.inr ⟨candidate, List.mem_cons_self, Option.some.inj hfound⟩)
    · exact hlater hfound .inl .inl
    · exact hlater hfound MatchState.best_consider MatchState.continuity_consider

/-- An observation is matched to an open encounter. -/
theorem open_of_matched (hmatched : s.matched spec = some id) :
    ∃ e ∈ s.encounters, e.id = id ∧ e.state ≠ .closed := by
  rcases matchFrom_mem hmatched with h | h | ⟨c, hc, rfl⟩
  · cases h
  · cases h
  · obtain ⟨e, he, rfl⟩ := List.mem_map.1 hc
    have hopen := List.mem_of_mem_take he
    rw [List.mem_insertionSort] at hopen
    obtain ⟨hmem, hstate⟩ := List.mem_filter.1 hopen
    exact ⟨e, hmem, rfl, (by simpa using hstate : e.state ≠ .closed ∧ _).1⟩

end Matching

section Steps

variable {spec : GuardEncounterMatchSpec} {s s' : EncounterStore} {h : List Sighting} {id : ℤ}
  {n : Sighting}

/-- A write that leaves the ids and the counts. -/
theorem EncounterStore.Sound.of_map (hS : s.Sound h) (f : GuardEncounter → GuardEncounter)
    (hf : ∀ e, (f e).id = e.id ∧ (f e).checks = e.checks) (hseq : s'.sequence = s.sequence)
    (hmap : s'.encounters = s.encounters.map f) : s'.Sound h := by
  have hids : s'.encounters.map (·.id) = s.encounters.map (·.id) := by
    rw [hmap, List.map_map]
    exact List.map_congr_left fun e _ => (hf e).1
  refine ⟨hids ▸ hS.nodup, ?_, ?_, ?_, hseq ▸ hS.notes⟩
  all_goals
    rw [hmap]
    intro e' he'
    obtain ⟨e, he, rfl⟩ := List.mem_map.1 he'
    rw [(hf e).1]
  · rw [(hf e).2]
    exact hS.checks e he
  · exact hS.pos e he
  · exact hseq ▸ hS.rows e he

theorem seen_concat (h : List Sighting) (n : Sighting) (id : ℤ) :
    seen (h ++ [n]) id = seen h id + if n.encounterId = id then 1 else 0 := by
  simp [seen, List.countP_append, List.countP_cons]

/-- An id that has not been given has no sightings. -/
theorem EncounterStore.Sound.seen_new (hS : s.Sound h) (hid : s.sequence < id) : seen h id = 0 := by
  refine List.countP_eq_zero.2 fun n hn heq => ?_
  have := hS.notes n hn
  simp only [decide_eq_true_eq] at heq
  omega

/-- A new encounter has one sighting. -/
theorem EncounterStore.Sound.insert (hS : s.Sound h) {personId : ℤ} {signature : String}
    {bestCameraId : ℤ} {bestScore : ℚ} {at_ : ℤ} (hn : n.encounterId = s.sequence + 1) :
    (s.insertEncounter personId signature bestCameraId bestScore at_).2.Sound (h ++ [n]) := by
  have hseen : seen h (s.sequence + 1) = 0 := hS.seen_new (by omega)
  refine ⟨?_, ?_, ?_, ?_, ?_⟩
  · simp only [EncounterStore.insertEncounter, List.map_append, List.map_cons, List.map_nil]
    refine List.nodup_append.2 ⟨hS.nodup, List.nodup_singleton _, ?_⟩
    intro id hid id' hid' heq
    obtain ⟨e, he, rfl⟩ := List.mem_map.1 hid
    have := hS.rows e he
    rw [List.mem_singleton] at hid'
    omega
  all_goals simp only [EncounterStore.insertEncounter, List.mem_append, List.mem_singleton]
  · rintro e (he | rfl)
    · have hle := hS.rows e he
      rw [seen_concat, hn, if_neg (by omega), hS.checks e he]
      rfl
    · rw [seen_concat, hn, if_pos rfl, hseen]
      rfl
  · rintro e (he | rfl)
    · exact hS.pos e he
    · simp only
      omega
  · rintro e (he | rfl)
    · have := hS.rows e he
      push_cast
      omega
    · simp
  · rintro n' (hn' | rfl)
    · have := hS.notes n' hn'
      push_cast
      omega
    · rw [hn]
      simp

/-- The rows with an id of their own. -/
theorem filter_id {l : List GuardEncounter} {e : GuardEncounter} (hnodup : (l.map (·.id)).Nodup)
    (he : e ∈ l) (hopen : e.state ≠ .closed) :
    l.filter (fun e' => e'.id = e.id && e'.state ≠ .closed) = [e] := by
  refine List.perm_singleton.1 ((List.perm_ext_iff_of_nodup (hnodup.of_map.filter _)
    (List.nodup_singleton e)).2 fun e' => ?_)
  rw [List.mem_filter, List.mem_singleton]
  constructor
  · rintro ⟨he', hid⟩
    simp only [Bool.and_eq_true, decide_eq_true_eq] at hid
    exact List.inj_on_of_nodup_map hnodup he' he hid.1
  · rintro rfl
    exact ⟨he, by simp [hopen]⟩

/-- The count that a touch returns, and the row that it leaves. -/
theorem EncounterStore.Sound.touch (hS : s.Sound h) {e : GuardEncounter} (he : e ∈ s.encounters)
    (hopen : e.state ≠ .closed) (bestCameraId : ℤ) (bestScore : ℚ) (lastSeen : ℤ)
    (hn : n.encounterId = e.id) :
    (s.touchEncounter bestCameraId bestScore lastSeen e.id).1 = [e.checks + 1] ∧
      (s.touchEncounter bestCameraId bestScore lastSeen e.id).2.Sound (h ++ [n]) := by
  have hids : (s.touchEncounter bestCameraId bestScore lastSeen e.id).2.encounters.map (·.id) =
      s.encounters.map (·.id) := by
    simp only [EncounterStore.touchEncounter, List.map_map]
    refine List.map_congr_left fun e' _ => ?_
    simp only [Function.comp_apply]
    split_ifs <;> rfl
  refine ⟨?_, hids ▸ hS.nodup, ?_, ?_, ?_, ?_⟩
  · rw [EncounterStore.touchEncounter, filter_id hS.nodup he hopen]
    rfl
  · intro e₁ he₁
    obtain ⟨e', he', rfl⟩ := List.mem_map.1 he₁
    have hbefore := hS.checks e' he'
    by_cases heq : e'.id = e.id
    · obtain rfl : e' = e := List.inj_on_of_nodup_map hS.nodup he' he heq
      simp only [hopen, ne_eq, not_false_eq_true, decide_true, Bool.and_self, if_true, seen_concat,
        hn]
      push_cast
      omega
    · simp only [heq, decide_false, Bool.false_and, Bool.false_eq_true, if_false, seen_concat, hn,
        Ne.symm heq]
      omega
  · intro e₁ he₁
    obtain ⟨e', he', rfl⟩ := List.mem_map.1 he₁
    have := hS.pos e' he'
    split_ifs <;> exact this
  · intro e₁ he₁
    obtain ⟨e', he', rfl⟩ := List.mem_map.1 he₁
    have := hS.rows e' he'
    split_ifs <;> exact this
  · intro n' hn'
    rcases List.mem_append.1 hn' with hn' | hn'
    · exact hS.notes n' hn'
    · rw [List.mem_singleton.1 hn', hn]
      exact hS.rows e he

/-- What the placing of an observation leaves: a new encounter, one more sighting of an open one, or
nothing. -/
theorem placeMatch_spec (hS : s.Sound h) (spec : GuardEncounterMatchSpec) (received : Bool)
    (stored : Option Json) :
    let (result, s') := placeMatch spec s
    (result.encounterId = 0 ∧ s'.Sound h ∧ s.matched spec = none) ∨
      (result.encounterId ≠ 0 ∧
        s'.Sound (h ++ [⟨result.encounterId, result.encounterChecks, received, stored⟩]) ∧
        ((s.matched spec = none ∧ result.encounterChecks = 1 ∧ seen h result.encounterId = 0) ∨
          (s.matched spec ≠ none ∧ result.encounterChecks = seen h result.encounterId))) := by
  cases hmatched : s.matched spec with
  | none =>
    by_cases hcreate : spec.createIfUnmatched = true
    · have hplace : placeMatch spec s = ({ encounterId := s.sequence + 1, encounterChecks := 1
                                           created := true },
          (s.insertEncounter spec.personId spec.signature spec.cameraId spec.bestScore
            spec.now).2) := by
        simp [placeMatch, hmatched, hcreate, EncounterStore.insertEncounter]
      rw [hplace]
      have hpos : (s.sequence + 1 : ℤ) ≠ 0 := by omega
      exact .inr ⟨hpos, hS.insert rfl, .inl ⟨rfl, rfl, hS.seen_new (by simp)⟩⟩
    · have hplace : placeMatch spec s = ({}, s) := by simp [placeMatch, hmatched, hcreate]
      rw [hplace]
      exact .inl ⟨rfl, hS, rfl⟩
  | some id =>
    obtain ⟨e, he, rfl, hopen⟩ := open_of_matched hmatched
    obtain ⟨htouched, hS'⟩ := hS.touch he hopen spec.cameraId spec.bestScore spec.now
      (n := ⟨e.id, e.checks + 1, received, stored⟩) rfl
    have hid : e.id ≠ 0 := (hS.pos e he).ne'
    have hplace : placeMatch spec s = ({ encounterId := e.id, encounterChecks := e.checks + 1 },
        (s.touchEncounter spec.cameraId spec.bestScore spec.now e.id).2) := by
      simp [placeMatch, hmatched, htouched, hid]
    rw [hplace]
    exact .inr ⟨hid, hS', .inr ⟨by simp, hS.checks e he⟩⟩

/-- The closing of a person's encounters and the row of the inbox leave ids and counts. -/
theorem EncounterStore.Sound.settle (hS : s.Sound h) (closeAt personId : ℤ) :
    (s.closeForPerson closeAt personId).Sound h := by
  refine hS.of_map _ (fun e => ?_) rfl rfl
  split_ifs <;> exact ⟨rfl, rfl⟩

theorem EncounterStore.Sound.advance (hS : s.Sound h) (eventId : String) (row : InboxRow) :
    (s.advanceInbox eventId row).Sound h :=
  ⟨hS.nodup, hS.checks, hS.pos, hS.rows, hS.notes⟩

/-- The placing of an observation leaves the inbox. -/
theorem placeMatch_inbox (s : EncounterStore) (spec : GuardEncounterMatchSpec) :
    (placeMatch spec s).2.inbox = s.inbox := by
  unfold placeMatch
  cases s.matched spec with
  | none =>
    dsimp only
    split_ifs <;> rfl
  | some id =>
    dsimp only
    cases (s.touchEncounter spec.cameraId spec.bestScore spec.now id).1 <;> dsimp only <;>
      split_ifs <;> rfl

/-- What is stored with an observation that was received is the count in the result. -/
theorem stored_checks {eventId : String} (hreceived : (s.inbox eventId).isSome = true)
    (row : InboxRow) (checkpoint : Json) (checks : ℤ) :
    ((s.advanceInbox eventId { row with checkpoint := rewriteChecks checkpoint checks }).inbox
      eventId).map (·.checkpoint.field "encounterChecks") = some (.int checks) := by
  obtain ⟨before, hbefore⟩ := Option.isSome_iff_exists.1 hreceived
  have hobject : ((if checkpoint.isObject then checkpoint else .obj []).isObject) = true := by
    split_ifs with hobject
    · exact hobject
    · rfl
  simp only [EncounterStore.advanceInbox, if_true, hbefore, Option.map_some, Option.some.injEq]
  exact set_self hobject

/-- The sighting that a commit counts. -/
theorem step_commit (hS : s.Sound h) (spec : GuardEncounterMatchSpec)
    (input : GuardEncounterPhaseInput) :
    ((s.step (.commit spec input true)).2 = [] ∧ (s.step (.commit spec input true)).1.Sound h ∧
        s.matched spec = none) ∨
      ∃ n, (s.step (.commit spec input true)).2 = [n] ∧
        (s.step (.commit spec input true)).1.Sound (h ++ [n]) ∧
        (n.received = true → n.stored = some (.int n.encounterChecks)) ∧
        ((s.matched spec = none ∧ n.encounterChecks = 1 ∧ seen h n.encounterId = 0) ∨
          (s.matched spec ≠ none ∧ n.encounterChecks = seen h n.encounterId)) := by
  have hplace : place { input with matchSpec := some spec } s = placeMatch spec s := rfl
  have hspec := fun received stored => placeMatch_spec hS spec received stored
  have hinbox := placeMatch_inbox s spec
  rcases hresult : placeMatch spec s with ⟨result, placed⟩
  rw [hresult] at hspec hinbox
  dsimp only at hspec hinbox
  simp only [EncounterStore.step, commitEncounterPhase, hplace, hresult, if_true, true_and]
  by_cases hzero : result.encounterId = 0
  · obtain ⟨-, hplaced, hmatched⟩ := (hspec false none).resolve_right fun h => h.1 hzero
    refine .inl ⟨by simp [hzero], ?_, hmatched⟩
    split_ifs
    · exact (hplaced.settle _ _).advance _ _
    · exact hplaced.advance _ _
  · refine .inr ⟨_, if_pos hzero, ?_, ?_, ?_⟩
    · obtain ⟨-, hplaced, -⟩ := (hspec _ _).resolve_left fun h => hzero h.1
      split_ifs
      · exact (hplaced.settle _ _).advance _ _
      · exact hplaced.advance _ _
    · intro hreceived
      refine stored_checks ?_ ⟨_, _, _, _, .null, _⟩ _ _
      -- neither the placing nor the closing touches the inbox
      rw [← hreceived, ← hinbox]
      split_ifs <;> rfl
    · exact ((hspec false none).resolve_left fun h => hzero h.1).2.2

/-- What an event keeps, and the sighting that it counts. -/
theorem step_spec (hS : s.Sound h) (event : EncounterEvent) :
    (s.step event).1.Sound (h ++ (s.step event).2) ∧
      (Unmatched s event → ∀ n ∈ (s.step event).2, (s.step event).2 = [n] ∧
        n.encounterChecks = seen h n.encounterId + 1 ∧
          (n.received = true → n.stored = some (.int (seen h n.encounterId + 1)))) ∧
      (¬Unmatched s event → ∃ n, (s.step event).2 = [n] ∧
        n.encounterChecks = seen h n.encounterId) := by
  have hquiet {s' : EncounterStore} (hstep : s.step event = (s', [])) (hS' : s'.Sound h)
      (hunmatched : Unmatched s event) :
      (s.step event).1.Sound (h ++ (s.step event).2) ∧
        (Unmatched s event → ∀ n ∈ (s.step event).2, (s.step event).2 = [n] ∧
          n.encounterChecks = seen h n.encounterId + 1 ∧
            (n.received = true → n.stored = some (.int (seen h n.encounterId + 1)))) ∧
        (¬Unmatched s event → ∃ n, (s.step event).2 = [n] ∧
          n.encounterChecks = seen h n.encounterId) := by
    rw [hstep, List.append_nil]
    exact ⟨hS', fun _ n hn => absurd hn List.not_mem_nil, fun hno => absurd hunmatched hno⟩
  cases event with
  | receive eventId =>
    exact hquiet rfl ⟨hS.nodup, hS.checks, hS.pos, hS.rows, hS.notes⟩ trivial
  | commit spec input commits =>
    cases commits with
    | false => exact hquiet rfl hS trivial
    | true =>
      rcases step_commit hS spec input with ⟨hnone, hS', hmatched⟩ |
        ⟨n, hnote, hS', hstored, hcount⟩
      · exact hquiet (Prod.ext rfl hnone) hS' hmatched
      · rw [hnote]
        refine ⟨hS', fun hunmatched n' hn' => ?_, fun hmatched => ?_⟩
        · obtain rfl := List.mem_singleton.1 hn'
          rcases hcount with ⟨-, hone, hseen⟩ | ⟨hmatched, -⟩
          · refine ⟨rfl, by rw [hone, hseen]; rfl, fun hreceived => ?_⟩
            rw [hstored hreceived, hone, hseen]
            rfl
          · exact absurd hunmatched hmatched
        · rcases hcount with ⟨hnone, -⟩ | ⟨-, hcount⟩
          · exact absurd hnone hmatched
          · exact ⟨n, rfl, hcount⟩
  | closeStale olderThan =>
    refine hquiet rfl (hS.of_map _ (fun e => ?_) rfl rfl) trivial
    split_ifs <;> exact ⟨rfl, rfl⟩
  | transition encounterId toState =>
    refine hquiet rfl (hS.of_map _ (fun e => ?_) rfl rfl) trivial
    split_ifs <;> exact ⟨rfl, rfl⟩

end Steps

section Runs

variable {events : List EncounterEvent}

theorem after_concat (events : List EncounterEvent) (event : EncounterEvent) :
    after (events ++ [event]) = (((after events).1.step event).1,
      (after events).2 ++ ((after events).1.step event).2) := by
  rw [after, List.foldl_concat]
  rfl

theorem sound_after (events : List EncounterEvent) :
    (after events).1.Sound (after events).2 := by
  induction events using List.reverseRecOn with
  | nil => exact ⟨List.nodup_nil, fun _ he => absurd he List.not_mem_nil, fun _ he =>
      absurd he List.not_mem_nil, fun _ he => absurd he List.not_mem_nil, fun _ hn =>
      absurd hn List.not_mem_nil⟩
  | append_singleton events event ih =>
    rw [after_concat]
    exact (step_spec ih event).1

theorem counted_iff (events : List EncounterEvent) :
    Counted (after events).2 ↔
      Chronicle (fun before event => Unmatched (after before).1 event) events := by
  induction events using List.reverseRecOn with
  | nil => exact iff_of_true Chronicle.nil Chronicle.nil
  | append_singleton events event ih =>
    obtain ⟨-, hunmatched, hmatched⟩ := step_spec (sound_after events) event
    rw [after_concat]
    constructor
    · intro hcounted
      refine (ih.1 hcounted.of_append).concat ?_
      by_contra hno
      obtain ⟨n, hnote, hcount⟩ := hmatched hno
      rw [hnote] at hcounted
      have := hcounted.of_concat.2.1
      omega
    · intro hall
      obtain ⟨hbefore, hlast⟩ := hall.of_concat
      cases hnotes : ((after events).1.step event).2 with
      | nil =>
        rw [List.append_nil]
        exact ih.2 hbefore
      | cons n rest =>
        obtain ⟨hone, hcount⟩ := hunmatched hlast n (hnotes ▸ List.mem_cons_self)
        rw [← hnotes, hone]
        exact Chronicle.concat (ih.2 hbefore) hcount

theorem staged_of_counted {h : List Sighting} (hcounted : Counted h) : Staged h := by
  intro before n rest heq hasUnknown
  have hcount := (hcounted before n rest heq).1
  have hfirst : n.encounterChecks = 1 ↔ seen before n.encounterId = 0 := by omega
  refine ⟨by simp [unknownVisit, hfirst, and_assoc], fun stagingEnabled floored danger loiter => ?_⟩
  have hbrief : n.encounterChecks < loiter ↔ seen before n.encounterId < loiter - 1 := by omega
  simp [observedOnly, hbrief, and_assoc]

/-- Every sighting is counted exactly if none of the observations belongs to an encounter that was
open: the second sighting of an encounter is counted as its first.  Where they are counted, the first
is the visit, and a visitor is observed in those before the last of `loiterChecks`. -/
theorem sightings_counted (events : List EncounterEvent) :
    (Counted (after events).2 ↔
      Chronicle (fun before event => Unmatched (after before).1 event) events) ∧
    (Counted (after events).2 → Staged (after events).2) :=
  ⟨counted_iff events, staged_of_counted⟩

/-- Somebody is received as event `a` and seen at 2000 by camera 9, and again by this camera as event
`b`. -/
def visits (again : ℤ) : List EncounterEvent :=
  [.receive "a", .commit { cameraId := 9, now := 2000, windowS := 60, continuityWindowS := 60
                           createIfUnmatched := true } { advance := { eventId := "a" } } true,
    .receive "b", .commit { cameraId := 9, now := again, windowS := 60, continuityWindowS := 60
                            createIfUnmatched := true } { advance := { eventId := "b" } } true]

/-- Who comes back an hour later is in a new encounter, and both are stored as first sightings. -/
example : (after (visits 5600)).2.map (fun n => (n.encounterId, n.stored)) =
    [(1, some (.int 1)), (2, some (.int 1))] := by rfl

theorem second_sighting : ¬Counted (after (visits 2010)).2 ∧
    (after (visits 2010)).2.map (fun n => (n.encounterId, n.encounterChecks)) =
      [(1, 1), (1, 1)] := by
  have hnotes : (after (visits 2010)).2.map (fun n => (n.encounterId, n.encounterChecks)) =
      [(1, 1), (1, 1)] := by decide +kernel
  refine ⟨fun hcounted => ?_, hnotes⟩
  obtain ⟨n, rest, hsplit, hfirst, hrest⟩ := List.map_eq_cons_iff.1 hnotes
  obtain ⟨n', rest, rfl, hsecond, hrest⟩ := List.map_eq_cons_iff.1 hrest
  obtain rfl := List.map_eq_nil_iff.1 hrest
  have hcount := (hcounted [n] n' [] hsplit).1
  simp only [Prod.mk.injEq] at hfirst hsecond
  rw [hsecond.1, hsecond.2, seen, List.countP_singleton, hfirst.1] at hcount
  simp at hcount

end Runs

end Encounters

end Guard

end ArgusBackend
