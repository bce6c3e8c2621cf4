import ArgusBackend.Whereabouts.Names
import Mathlib.Data.Rat.Defs
import Mathlib.Algebra.Order.Field.Rat
import Mathlib.Data.Finset.Basic

/-!
# Where somebody is

`whereabouts.cc`: what the guard answers when the owner asks where a person is, who is in a
room, or where everybody is.  `gather` puts the facts together, `answer` reads them.

* A confidence is a rational number: the source only compares it and passes it on.
* The structured value is a record with the keys of the JSON object; a key that is not set is
  `none`.
-/

namespace ArgusBackend

namespace Whereabouts

/-! ### Facts -/

/-- A member of the household. -/
structure Member where
  userId : ℤ
  name : String
  active : Bool
  deriving DecidableEq, Repr

/-- Whether someone is at home. -/
inductive PresenceState where
  | unknown | home | away
  deriving DecidableEq, Repr

/-- The state of a member, and since when. -/
structure Presence where
  userId : ℤ
  state : PresenceState
  since : ℤ
  deriving DecidableEq, Repr

/-- An environment of the household. -/
structure Place where
  id : ℤ
  name : String
  deriving DecidableEq, Repr

/-- A camera and its name. -/
structure Camera where
  id : ℤ
  name : String
  deriving DecidableEq, Repr

/-- How someone was placed in a room. -/
inductive EvidenceKind where
  | face | radarBox | voice | ble
  deriving DecidableEq, Repr

/-- `RoomVerdict` -/
structure RoomVerdict where
  userId : ℤ
  room : String
  confidence : ℚ
  updatedMs : ℤ
  strongest : EvidenceKind
  deriving DecidableEq, Repr

/-- `WhereaboutsFacts`; `located` is `none` when it is not known who shares a location. -/
structure Facts where
  members : List Member
  verdicts : List RoomVerdict
  located : Option (Finset ℤ)
  presence : List Presence
  places : List Place
  cameras : List Camera
  nowMs : ℤ

/-- `WhereaboutsAsk` -/
structure Ask where
  askerId : ℤ
  lang : String
  person : String
  room : String
  deriving DecidableEq, Repr

/-- The answer is to be in English. -/
def Ask.english (ask : Ask) : Bool := ask.lang = "en"

/-- `WhereaboutsCertainty`, surest first -/
inductive Certainty where
  | sure | fairly | unsure
  deriving DecidableEq, Repr

/-- The value of the enumerator, which the source compares. -/
def Certainty.value : Certainty → ℕ
  | .sure => 0
  | .fairly => 1
  | .unsure => 2

/-! ### The reply -/

/-- What an entry says of a verdict. -/
structure SeenEntry where
  room : String
  place : String
  confidence : ℚ
  certainty : String
  evidence : String
  updatedAt : ℤ
  deriving DecidableEq, Repr

/-- What an entry says of a presence. -/
structure PresenceEntry where
  presence : String
  presenceSince : ℤ
  deriving DecidableEq, Repr

/-- One object of `people` -/
structure Entry where
  userId : ℤ
  name : String
  sharesLocation : Bool
  seen : Option SeenEntry
  presence : Option PresenceEntry
  deriving DecidableEq, Repr

/-- The answer as data. -/
structure Structured where
  room : Option String
  people : Option (List Entry)
  deriving DecidableEq, Repr

/-- `WhereaboutsVoiceReply` -/
structure Reply where
  ok : Bool
  text : String
  code : String
  structured : Structured
  deriving DecidableEq, Repr

/-! ### Words -/

/-- The milliseconds of a second. -/
def kMsPerSecond : ℤ := 1000

/-- The seconds of a minute. -/
def kSecondsPerMinute : ℤ := 60

/-- The minutes from which hours are said. -/
def kHoursFromMinutes : ℤ := 120

/-- The minutes of an hour. -/
def kMinutesPerHour : ℤ := 60

/-- The milliseconds for which evidence is of just now. -/
def kFreshMs : ℤ := 60000

/-- The milliseconds after which evidence is worth less. -/
def kStaleMs : ℤ := 120000

/-- The confidence from which an answer is sure. -/
def kSureShare : ℚ := 3 / 4

/-- The confidence from which an answer is fairly sure. -/
def kFairShare : ℚ := 1 / 2

/-- A kind of room in both languages. -/
structure RoomWords where
  role : String
  es : String
  en : String

/-- What the kinds of room are called. -/
def kRoomLabels : List RoomWords :=
  [⟨"living", "en la sala", "in the living room"⟩, ⟨"kitchen", "en la cocina", "in the kitchen"⟩,
   ⟨"office", "en la oficina", "in the office"⟩, ⟨"garage", "en el garaje", "in the garage"⟩,
   ⟨"register", "en la caja", "at the register"⟩,
   ⟨"storage", "en el depósito", "in the storage room"⟩,
   ⟨"entrance", "en la entrada", "at the entrance"⟩]

/-- `kRoomSynonyms`: what is spoken, with the role of the room. -/
def kRoomSynonyms : List (String × String) :=
  [("sala", "living"), ("sala de estar", "living"), ("salon", "living"), ("living", "living"),
   ("living room", "living"), ("lounge", "living"), ("cocina", "kitchen"),
   ("kitchen", "kitchen"), ("oficina", "office"), ("estudio", "office"), ("despacho", "office"),
   ("office", "office"), ("study", "office"), ("garaje", "garage"), ("garage", "garage"),
   ("cochera", "garage"), ("deposito", "storage"), ("almacen", "storage"),
   ("bodega", "storage"), ("storage", "storage"), ("storage room", "storage"),
   ("storeroom", "storage"), ("caja", "register"), ("register", "register"),
   ("entrada", "entrance"), ("recibidor", "entrance"), ("entrance", "entrance")]

/-- The words that may come before the name of a room. -/
def kArticles : List String :=
  ["la ", "el ", "los ", "las ", "the ", "mi ", "my ", "our ", "nuestra ", "nuestro "]

/-- What tells rooms apart: the environment and the kind of room, or the camera. -/
structure RoomKey where
  environmentId : ℤ
  role : String
  cameraId : ℤ
  deriving DecidableEq, Repr

/-- `numberOf`: zero when a character is not a digit. -/
def numberOf (text : List Char) : ℤ :=
  if text.all Char.isDigit then text.foldl (fun value c => value * 10 + (c.toNat - 48 : ℕ)) 0
  else 0

/-- What a room begins with that is a camera. -/
def kCameraPrefix : List Char := "camera:".toList

/-- `keyOf`: a room is a role, `environment:role` or `environment:camera:id`. -/
def keyOf (room : String) : RoomKey :=
  match room.toList.findIdx? (· = ':') with
  | none => ⟨0, room, 0⟩
  | some colon =>
      let rest := room.toList.drop (colon + 1)
      if kCameraPrefix.isPrefixOf rest then
        ⟨numberOf (room.toList.take colon), "", numberOf (rest.drop kCameraPrefix.length)⟩
      else ⟨numberOf (room.toList.take colon), String.ofList rest, 0⟩

/-- The words in the language of the answer. -/
def pick (english : Bool) (es en : String) : String := if english then en else es

/-- The first letter is a capital. -/
def capitalized (text : String) : String :=
  match text.toList with
  | [] => text
  | c :: rest => String.ofList (c.toUpper :: rest)

/-- `joinNames` -/
def joinNames (names : List String) (english : Bool) : String :=
  match names with
  | [] => ""
  | [name] => name
  | [name, last] => name ++ (if english then " and " else " y ") ++ last
  | name :: names => name ++ ", " ++ joinNames names english

/-- How long ago something was. -/
def agoOf (ageMs : ℤ) (english : Bool) : String :=
  if ageMs < kFreshMs then pick english "ahora mismo" "just now"
  else
    let minutes := (ageMs.tdiv kMsPerSecond).tdiv kSecondsPerMinute
    if minutes ≥ kHoursFromMinutes then
      pick english ("hace " ++ toString (minutes.tdiv kMinutesPerHour) ++ " h")
        (toString (minutes.tdiv kMinutesPerHour) ++ " h ago")
    else pick english ("hace " ++ toString minutes ++ " min") (toString minutes ++ " min ago")

/-- How long something has lasted. -/
def durationOf (seconds : ℤ) : String :=
  let minutes := max 1 (seconds.tdiv kSecondsPerMinute)
  if minutes ≥ kHoursFromMinutes then toString (minutes.tdiv kMinutesPerHour) ++ " h"
  else toString minutes ++ " min"

/-- The words for the kind of evidence. -/
def sourceOf (kind : EvidenceKind) (english : Bool) : String :=
  match kind with
  | .face => pick english "por la cámara" "from the camera"
  | .radarBox =>
      pick english "por un sensor de presencia y la cámara" "from a presence sensor and the camera"
  | .voice => pick english "por su voz" "from their voice"
  | .ble => pick english "por su teléfono" "from their phone"

/-- The words for the certainty. -/
def certaintyWords (certainty : Certainty) (english : Bool) : String :=
  match certainty with
  | .sure => pick english "Estoy seguro" "I am sure"
  | .fairly => pick english "Estoy bastante seguro" "I am fairly sure"
  | .unsure => pick english "No estoy muy seguro" "I am not very sure"

/-- The certainty in the data. -/
def certaintyName : Certainty → String
  | .sure => "sure"
  | .fairly => "fairly"
  | .unsure => "unsure"

/-- The kind of evidence in the data. -/
def evidenceKindToString : EvidenceKind → String
  | .face => "face"
  | .radarBox => "radarBox"
  | .voice => "voice"
  | .ble => "ble"

/-- The state in the data. -/
def presenceStateToString : PresenceState → String
  | .home => "home"
  | .away => "away"
  | .unknown => "unknown"

/-- An answer that says why there is none. -/
def failure (text code : String) : Reply := ⟨false, text, code, ⟨none, none⟩⟩

/-! ### Lookups -/

/-- `sharesLocation`: true as long as it is not known who shares. -/
def sharesLocation (facts : Facts) (userId : ℤ) : Bool :=
  match facts.located with
  | none => true
  | some located => userId ∈ located

/-- `verdictFor` -/
def verdictFor (facts : Facts) (userId : ℤ) : Option RoomVerdict :=
  if sharesLocation facts userId then facts.verdicts.find? (·.userId = userId) else none

/-- The presence of a member. -/
def presenceFor (facts : Facts) (userId : ℤ) : Option Presence :=
  facts.presence.find? (·.userId = userId)

/-- The members who can be asked about. -/
def activeMembers (facts : Facts) : List Member :=
  facts.members.filter fun member => member.active && 0 < member.userId && member.name ≠ ""

/-- `roomRoleOf` -/
def roomRoleOf (spoken : String) : Option String :=
  let whole := folded spoken.toList
  let named := match kArticles.find? fun article => article.toList.isPrefixOf whole with
    | some article => whole.drop article.toList.length
    | none => whole
  match kRoomSynonyms.find? fun synonym => synonym.1.toList = named with
  | some synonym => some synonym.2
  | none => (kRoomLabels.find? fun words => words.role.toList = named).map (·.role)

/-- What `roomLabel` says of the room itself. -/
def roomPart (key : RoomKey) (english : Bool) (cameras : List Camera) : String :=
  if key.cameraId > 0 then
    let name := match cameras.find? (·.id = key.cameraId) with
      | some camera => if camera.name = "" then toString key.cameraId else camera.name
      | none => toString key.cameraId
    pick english ("cerca de la cámara " ++ name) ("near the " ++ name ++ " camera")
  else
    match kRoomLabels.find? (·.role = key.role) with
    | some words => if english then words.en else words.es
    | none => pick english ("en " ++ key.role) ("in " ++ key.role)

/-- What `roomLabel` says of the place, when there are several. -/
def placePart (key : RoomKey) (english : Bool) (places : List Place) : String :=
  if places.length > 1 ∧ key.environmentId > 0 then
    match places.find? (·.id = key.environmentId) with
    | some place =>
        if place.name = "" then ""
        else pick english (" de " ++ place.name) (" at " ++ place.name)
    | none => ""
  else ""

/-- `roomLabel` -/
def roomLabel (room : String) (english : Bool) (facts : Facts) : String :=
  roomPart (keyOf room) english facts.cameras ++ placePart (keyOf room) english facts.places

/-- `certaintyOf`: one step less sure when the verdict is stale. -/
def certaintyOf (confidence : ℚ) (ageMs : ℤ) : Certainty :=
  let certainty :=
    if confidence ≥ kSureShare then Certainty.sure
    else if confidence ≥ kFairShare then .fairly
    else .unsure
  if ageMs > kStaleMs ∧ certainty ≠ .unsure then
    if certainty = .sure then .fairly else .unsure
  else certainty

/-- The certainty of a verdict at a moment. -/
def certaintyOfVerdict (verdict : RoomVerdict) (nowMs : ℤ) : Certainty :=
  certaintyOf verdict.confidence (max 0 (nowMs - verdict.updatedMs))

/-- The sentence that says how sure a verdict is, and by what. -/
def evidenceSentence (verdict : RoomVerdict) (nowMs : ℤ) (english : Bool) : String :=
  certaintyWords (certaintyOfVerdict verdict nowMs) english ++ ": " ++
    sourceOf verdict.strongest english ++ ", " ++
    agoOf (max 0 (nowMs - verdict.updatedMs)) english ++ "."

/-! ### Answers -/

/-- `entryOf` -/
def entryOf (member : Member) (facts : Facts) (english : Bool) : Entry where
  userId := member.userId
  name := member.name
  sharesLocation := sharesLocation facts member.userId
  seen := (verdictFor facts member.userId).map fun verdict =>
    { room := verdict.room
      place := roomLabel verdict.room english facts
      confidence := verdict.confidence
      certainty := certaintyName (certaintyOfVerdict verdict facts.nowMs)
      evidence := evidenceKindToString verdict.strongest
      updatedAt := verdict.updatedMs.tdiv kMsPerSecond }
  presence := (presenceFor facts member.userId).map fun presence =>
    { presence := presenceStateToString presence.state
      presenceSince := presence.since }

/-- What `personAnswer` says of a member without a verdict. -/
def unseenText (member : Member) (facts : Facts) (english : Bool) : String :=
  let shares := sharesLocation facts member.userId
  let nowS := facts.nowMs.tdiv kMsPerSecond
  match presenceFor facts member.userId with
  | some ⟨_, .home, _⟩ =>
      pick english (member.name ++ " está en casa, pero no sé en qué parte.")
          (member.name ++ " is home, but I do not know where in the house.") ++
        if shares then ""
        else pick english " No comparte su ubicación dentro de casa."
          " They do not share their location inside the house."
  | some ⟨_, .away, since⟩ =>
      if since > 0 ∧ since ≤ nowS then
        pick english
          (member.name ++ " no está en casa desde hace " ++ durationOf (nowS - since) ++ ".")
          (member.name ++ " has been away for " ++ durationOf (nowS - since) ++ ".")
      else pick english (member.name ++ " no está en casa.") (member.name ++ " is not home.")
  | _ =>
      if shares then
        pick english ("No sé dónde está " ++ member.name ++ " ahora mismo.")
          ("I do not know where " ++ member.name ++ " is right now.")
      else
        pick english ("No sé dónde está " ++ member.name ++ ": no comparte su ubicación con Argus.")
          ("I do not know where " ++ member.name ++
            " is: they do not share their location with Argus.")

/-- What `personAnswer` says of a member. -/
def personText (member : Member) (facts : Facts) (english : Bool) : String :=
  match verdictFor facts member.userId with
  | some verdict =>
      let place := roomLabel verdict.room english facts
      pick english (member.name ++ " está " ++ place ++ ". ") (member.name ++ " is " ++ place ++ ". ")
        ++ evidenceSentence verdict facts.nowMs english
  | none => unseenText member facts english

/-- `personAnswer`.  The match names a member (`matchName_exact`), so that the last branch is
never taken. -/
def personAnswer (ask : Ask) (facts : Facts) : Reply :=
  let members := activeMembers facts
  let names := members.map (·.name)
  let found := matchName names ask.person
  match found.kind with
  | .missing =>
      failure (pick ask.english ("No conozco a nadie de casa llamado " ++ ask.person ++ ".")
        ("I do not know anyone at home called " ++ ask.person ++ ".")) "unknown_person"
  | .ambiguous =>
      let candidates := found.hits.map fun index => names.getD index ""
      failure (pick ask.english ("¿A quién te refieres? " ++ joinNames candidates false ++ ".")
        ("Who do you mean? " ++ joinNames candidates true ++ ".")) "ambiguous_person"
  | .exact =>
      match found.hits.head?.bind fun index => members[index]? with
      | some member =>
          ⟨true, personText member facts ask.english, "",
            ⟨none, some [entryOf member facts ask.english]⟩⟩
      | none => failure "" ""

/-- `map[key]` is read and written, in a map that is kept in the order of its keys. -/
def alter {β : Type} (key : String) (f : Option β → β) : List (String × β) → List (String × β)
  | [] => [(key, f none)]
  | (k, v) :: rest =>
      if key < k then (key, f none) :: (k, v) :: rest
      else if key = k then (k, f (some v)) :: rest
      else (k, v) :: alter key f rest

/-- What the loop of `roomAnswer` has collected. -/
structure Rooms where
  byRoom : List (String × List Member)
  weakest : List (String × Certainty)
  people : List Entry

/-- One member in the loop of `roomAnswer` -/
def roomStep (ask : Ask) (facts : Facts) (role : String) (rooms : Rooms) (member : Member) :
    Rooms :=
  if member.userId = ask.askerId then rooms
  else
    match verdictFor facts member.userId with
    | none => rooms
    | some verdict =>
        if (keyOf verdict.room).role ≠ role then rooms
        else
          let certainty := certaintyOfVerdict verdict facts.nowMs
          { byRoom := alter verdict.room (fun found => found.getD [] ++ [member]) rooms.byRoom
            weakest := alter verdict.room
              (fun current => match current with
                | none => certainty
                | some weak => if certainty.value > weak.value then certainty else weak)
              rooms.weakest
            people := rooms.people ++ [entryOf member facts ask.english] }

/-- What `roomAnswer` adds to its text for one room. -/
def roomText (ask : Ask) (facts : Facts) (weakest : List (String × Certainty)) (text : String)
    (entry : String × List Member) : String :=
  let names := entry.2.map (·.name)
  let place := roomLabel entry.1 ask.english facts
  let spaced := if text = "" then text else text ++ " "
  let sentence :=
    if ask.english then
      capitalized place ++ (if names.length = 1 then " is " else " are ") ++ joinNames names true
        ++ ". "
    else
      capitalized place ++ (if names.length = 1 then " está " else " están ") ++
        joinNames names false ++ ". "
  spaced ++ sentence ++
    certaintyWords (((weakest.find? (·.1 = entry.1)).map (·.2)).getD .unsure) ask.english ++ "."

/-- `someoneHidden` -/
def someoneHidden (facts : Facts) (askerId : ℤ) : Bool :=
  match facts.located with
  | none => false
  | some located =>
      (activeMembers facts).any fun member =>
        member.userId ≠ askerId && !decide (member.userId ∈ located)

/-- `roomAnswer` -/
def roomAnswer (ask : Ask) (facts : Facts) : Reply :=
  match roomRoleOf ask.room with
  | none =>
      failure (pick ask.english ("No sé qué habitación es " ++ ask.room ++ ".")
        ("I do not know which room " ++ ask.room ++ " is.")) "unknown_room"
  | some role =>
      let rooms := (activeMembers facts).foldl (roomStep ask facts role) ⟨[], [], []⟩
      let nobody :=
        if rooms.byRoom = [] then
          let place := roomLabel ("0:" ++ role) ask.english facts
          pick ask.english ("No detecto a nadie de casa " ++ place ++ ".")
            ("I do not detect anyone from home " ++ place ++ ".")
        else ""
      let said := rooms.byRoom.foldl (roomText ask facts rooms.weakest) nobody
      let hidden :=
        if someoneHidden facts ask.askerId then
          pick ask.english " Solo cuento a quien comparte su ubicación."
            " I only count those who share their location."
        else ""
      ⟨true, said ++ hidden, "", ⟨some role, some rooms.people⟩⟩

/-- What the loop of `householdAnswer` has collected. -/
structure Household where
  home : List String
  away : List String
  unknown : List String
  people : List Entry

/-- One member in the loop of `householdAnswer` -/
def householdStep (ask : Ask) (facts : Facts) (house : Household) (member : Member) :
    Household :=
  if member.userId = ask.askerId then house
  else
    let house := { house with people := house.people ++ [entryOf member facts ask.english] }
    match verdictFor facts member.userId with
    | some verdict =>
        { house with home := house.home ++
            [member.name ++ " (" ++ roomLabel verdict.room ask.english facts ++ ")"] }
    | none =>
        match presenceFor facts member.userId with
        | some ⟨_, .home, _⟩ => { house with home := house.home ++ [member.name] }
        | some ⟨_, .away, _⟩ => { house with away := house.away ++ [member.name] }
        | _ => { house with unknown := house.unknown ++ [member.name] }

/-- One list of `householdAnswer`, after the text so far. -/
def listed (text opening : String) (names : List String) (english : Bool) : String :=
  if names = [] then text
  else text ++ (if text = "" then "" else " ") ++ opening ++ joinNames names english ++ "."

/-- `householdAnswer` -/
def householdAnswer (ask : Ask) (facts : Facts) : Reply :=
  let house := (activeMembers facts).foldl (householdStep ask facts) ⟨[], [], [], []⟩
  let home := listed "" (pick ask.english "En casa: " "Home: ") house.home ask.english
  let away := listed home (pick ask.english "Fuera: " "Away: ") house.away ask.english
  let unknown := listed away
    (pick ask.english "No sé dónde están: " "I do not know where they are: ") house.unknown
    ask.english
  let text :=
    if unknown = "" then
      pick ask.english "No hay nadie más en casa registrado en Argus."
        "There is nobody else at home registered in Argus."
    else unknown
  ⟨true, text, "", ⟨none, some house.people⟩⟩

/-- `answer` -/
def answer (ask : Ask) (facts : Facts) : Reply :=
  if folded ask.person.toList ≠ [] then personAnswer ask facts
  else if folded ask.room.toList ≠ [] then roomAnswer ask facts
  else householdAnswer ask facts

/-! ### The service -/

/-- What the dependencies of the service answer while it gathers: `none` for one that is not
set, and for members or sharers that are not known. -/
structure Dependencies where
  members : Option (List Member)
  verdicts : Option (List RoomVerdict)
  located : Option (Finset ℤ)
  presence : Option (List Presence)
  places : Option (List Place)
  cameraName : Option (ℤ → String)
  clockMs : ℤ

/-- The name a camera has in the facts. -/
def Dependencies.nameOf (dependencies : Dependencies) (id : ℤ) : String :=
  match dependencies.cameraName with
  | some cameraName => cameraName id
  | none => ""

/-- The verdicts that `gather` keeps: none as long as it is not known who shares. -/
def shared (located : Option (Finset ℤ)) (verdicts : List RoomVerdict) : List RoomVerdict :=
  match located with
  | none => []
  | some located => verdicts.filter fun verdict => verdict.userId ∈ located

/-- One verdict in the loop of `gather` over the cameras -/
def addCamera (nameOf : ℤ → String) (cameras : List Camera) (verdict : RoomVerdict) :
    List Camera :=
  let key := keyOf verdict.room
  if key.cameraId ≤ 0 ∨ cameras.any (·.id = key.cameraId) then cameras
  else cameras ++ [⟨key.cameraId, nameOf key.cameraId⟩]

/-- `gather` -/
def gather (dependencies : Dependencies) : Option Facts :=
  match dependencies.members with
  | none => none
  | some members =>
      let verdicts := shared dependencies.located (dependencies.verdicts.getD [])
      some
        { members
          verdicts
          located := dependencies.located
          presence := dependencies.presence.getD []
          places := dependencies.places.getD []
          cameras := verdicts.foldl (addCamera dependencies.nameOf) []
          nowMs := dependencies.clockMs }

/-- `WhereaboutsVoiceRequest` -/
structure Request where
  userId : ℤ
  role : String
  lang : String
  person : String
  room : String

/-- `WhereaboutsService::answer` -/
def serve (request : Request) (dependencies : Dependencies) : Reply :=
  let english := request.lang = "en"
  if request.role ≠ "owner" then
    failure (pick english "Solo el dueño de casa puede preguntar dónde está alguien."
      "Only the owner can ask where someone is.") "forbidden"
  else
    match gather dependencies with
    | none =>
        failure (pick english "Ahora no puedo saber dónde está nadie."
          "I cannot tell where anyone is right now.") "whereabouts_unavailable"
    | some facts => answer ⟨request.userId, request.lang, request.person, request.room⟩ facts

end Whereabouts

end ArgusBackend
