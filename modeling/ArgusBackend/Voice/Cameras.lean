import ArgusBackend.Library.Runs
import Mathlib.Data.Int.Notation
import Mathlib.Data.List.Basic

/-!
# One conversation a camera

A wake opens a conversation on a camera, and a hop moves one to another camera of the room.  Both
ask first whether the camera is occupied, under the lock of the manager, and take it in a later
step.

* `Watch.act` : one locked block or one atomic access at a time;
* `Hop.Sound` : what a hop has made sure of;
* `apart_iff` : the conversations stay apart exactly when every camera is still free as it is taken;
* `one_conversation_a_camera` : every run.
-/

namespace ArgusBackend

namespace Voice

namespace Cameras

/-- What is known of a camera. -/
structure WatchCameraInfo where
  name : String := ""
  talk : Bool := false
  deriving DecidableEq, Repr

/-- A camera to hop to. -/
structure CameraHop where
  cameraId : ℤ
  name : String := ""
  deriving DecidableEq, Repr

/-- What the rooms, the cameras and the ears answer at a moment; the ears may be missing. -/
structure Outside where
  roommates : ℤ → List ℤ
  cameraInfo : ℤ → Option WatchCameraInfo
  listening : Option (ℤ → Bool)

/-- One turn of the loop of `chooseHop`. -/
def chooses (env : Outside) (occupied : ℤ → Bool) (camera mate : ℤ) : Option CameraHop :=
  if mate = camera then none
  else
    match env.cameraInfo mate with
    | none => none
    | some info =>
      if !info.talk then none
      else if env.listening.any fun listening => !listening mate then none
      else if occupied mate then none
      else some { cameraId := mate, name := info.name }

/-- How far the hop of a conversation has come.  `asked` and `seen` are what the outside answered
when the hop asked for the roommates and when it chose. -/
inductive Hop where
  | idle
  | choosing (camera : ℤ) (asked : Outside) (mates : List ℤ)
  | chosen (camera : ℤ) (asked seen : Outside) (next : CameraHop)

/-- A conversation, and its hop. -/
structure Conversation where
  cameraId_ : ℤ
  closed_ : Bool := false
  hop : Hop := .idle

/-- How far the worker has come with a wake. -/
inductive Wake where
  | idle
  | checked (cameraId : ℤ)
  deriving DecidableEq, Repr

/-- The conversations and the wake. -/
structure Watch where
  live_ : List Conversation := []
  wake : Wake := .idle

/-- What happens, one question or one change at a time. -/
inductive Event where
  /-- `onWake` asks whether the camera is occupied -/
  | wake (cameraId : ℤ)
  /-- the wake opens no conversation -/
  | refuse
  /-- `live_[id] = conversation` -/
  | take
  /-- a hop reads its camera and asks for the roommates -/
  | ask (i : ℕ) (env : Outside)
  /-- it looks at the next roommate -/
  | look (i : ℕ) (env : Outside)
  /-- `cameraId_.store(next->cameraId)` -/
  | move (i : ℕ)
  /-- `closed_.exchange(true)` -/
  | close (i : ℕ)

namespace Watch

/-- `onCamera` finds a conversation. -/
def occupied (w : Watch) (cameraId : ℤ) : Bool :=
  w.live_.any fun v => !v.closed_ && v.cameraId_ = cameraId

/-- A conversation is changed. -/
def put (w : Watch) (i : ℕ) (v : Conversation) : Watch := { w with live_ := w.live_.set i v }

/-- The hop looks at the next camera. -/
def look (w : Watch) (env : Outside) : Hop → Option Hop
  | .choosing _ _ [] => some .idle
  | .choosing camera asked (mate :: mates) =>
    match chooses env w.occupied camera mate with
    | none => some (.choosing camera asked mates)
    | some next => some (.chosen camera asked env next)
  | _ => none

/-- What an event does; `none` if it does not fit. -/
def act (w : Watch) : Event → Option Watch
  | .wake cameraId =>
    match w.wake with
    | .idle => some (if w.occupied cameraId then w else { w with wake := .checked cameraId })
    | .checked _ => none
  | .refuse =>
    match w.wake with
    | .idle => none
    | .checked _ => some { w with wake := .idle }
  | .take =>
    match w.wake with
    | .idle => none
    | .checked cameraId =>
      some { live_ := w.live_ ++ [{ cameraId_ := cameraId }], wake := .idle }
  | .ask i env =>
    match w.live_[i]? with
    | some ⟨camera, closed, .idle⟩ =>
      some (w.put i ⟨camera, closed, .choosing camera env (env.roommates camera)⟩)
    | _ => none
  | .look i env =>
    match w.live_[i]? with
    | none => none
    | some v => (w.look env v.hop).map fun hop => w.put i { v with hop }
  | .move i =>
    match w.live_[i]? with
    | some ⟨_, closed, .chosen _ _ _ next⟩ => some (w.put i ⟨next.cameraId, closed, .idle⟩)
    | _ => none
  | .close i => (w.live_[i]?).map fun v => w.put i { v with closed_ := true }

/-- A run keeps its events and the states in which they come. -/
abbrev Runs : List (Watch × Event) → Watch → Prop :=
  Run (fun w notes w' => ∃ event, w.act event = some w' ∧ notes = [(w, event)]) {}

/-- No two open conversations hold one camera. -/
def Apart (w : Watch) : Prop :=
  ∀ (i j : ℕ) (v v' : Conversation), w.live_[i]? = some v → w.live_[j]? = some v' →
    v.closed_ = false → v'.closed_ = false → v.cameraId_ = v'.cameraId_ → i = j

/-- The camera is not occupied, by a conversation other than the `i`th. -/
def Vacant (w : Watch) (i : ℕ) (cameraId : ℤ) : Prop :=
  ∀ (j : ℕ) (v : Conversation), w.live_[j]? = some v → v.closed_ = false →
    v.cameraId_ = cameraId → i = j

/-- A camera that is taken is still vacant, as it was when it was asked for. -/
def Keeps (w : Watch) : Event → Prop
  | .take => ∀ cameraId, w.wake = .checked cameraId → w.occupied cameraId = false
  | .move i => ∀ (camera camera' : ℤ) (asked seen : Outside) (next : CameraHop),
      w.live_[i]? = some ⟨camera', false, .chosen camera asked seen next⟩ →
        w.Vacant i next.cameraId
  | _ => True

end Watch

/-- A hop goes from the camera of its conversation to a roommate that can talk and listens. -/
def Hop.Sound (cameraId : ℤ) : Hop → Prop
  | .idle => True
  | .choosing camera asked mates => camera = cameraId ∧ ∀ mate ∈ mates, mate ∈ asked.roommates camera
  | .chosen camera asked seen next =>
    camera = cameraId ∧ next.cameraId ≠ cameraId ∧ next.cameraId ∈ asked.roommates camera ∧
      (∃ info, seen.cameraInfo next.cameraId = some info ∧ info.talk = true) ∧
      ∀ listening, seen.listening = some listening → listening next.cameraId = true

namespace Watch

section Steps

variable {w w' : Watch} {event : Event} {v : Conversation} {i : ℕ} {env : Outside}
  {camera mate cameraId : ℤ} {next : CameraHop} {hop hop' : Hop}

/-! ### Hops -/

theorem chooses_spec {occupied : ℤ → Bool} (h : chooses env occupied camera mate = some next) :
    next.cameraId = mate ∧ mate ≠ camera ∧
      (∃ info, env.cameraInfo mate = some info ∧ info.talk = true) ∧
      ∀ listening, env.listening = some listening → listening mate = true := by
  unfold chooses at h
  split at h
  next => cases h
  next hsame =>
    split at h
    next => cases h
    next info hinfo =>
      split_ifs at h with htalk hlistening
      obtain rfl := Option.some.inj h
      refine ⟨rfl, hsame, ⟨info, hinfo, by simpa using htalk⟩, fun listening hears => ?_⟩
      rw [hears] at hlistening
      simpa using hlistening

theorem look_sound (hsound : hop.Sound cameraId) (hlook : w.look env hop = some hop') :
    hop'.Sound cameraId := by
  unfold look at hlook
  split at hlook
  next => exact Option.some.inj hlook ▸ trivial
  next camera asked mate mates =>
    obtain ⟨rfl, hmates⟩ := hsound
    split at hlook
    next =>
      obtain rfl := Option.some.inj hlook
      exact ⟨rfl, fun mate hmate => hmates mate (List.mem_cons_of_mem _ hmate)⟩
    next next hchooses =>
      obtain ⟨heq, hne, hinfo, hlistening⟩ := chooses_spec hchooses
      obtain rfl := Option.some.inj hlook
      rw [← heq] at hne hinfo hlistening
      exact ⟨rfl, hne, heq ▸ hmates mate List.mem_cons_self, hinfo, hlistening⟩
  next => cases hlook

/-- What holds of every hop of a conversation. -/
def Sound (w : Watch) : Prop := ∀ v ∈ w.live_, v.hop.Sound v.cameraId_

theorem Sound.put (hsound : w.Sound) (hv : v.hop.Sound v.cameraId_) : (w.put i v).Sound := by
  intro v' hv'
  rcases List.mem_or_eq_of_mem_set hv' with hv' | rfl
  · exact hsound v' hv'
  · exact hv

theorem sound_act (hsound : w.Sound) (hact : w.act event = some w') : w'.Sound := by
  cases event with
  | wake cameraId =>
    simp only [act] at hact
    split at hact
    next =>
      obtain rfl := Option.some.inj hact
      split_ifs
      · exact hsound
      · exact hsound
    next => cases hact
  | refuse =>
    simp only [act] at hact
    split at hact
    next => cases hact
    next => exact Option.some.inj hact ▸ hsound
  | take =>
    simp only [act] at hact
    split at hact
    next => cases hact
    next cameraId =>
      -- the new conversation has no hop yet
      obtain rfl := Option.some.inj hact
      intro v hv
      rcases List.mem_append.1 hv with hv | hv
      · exact hsound v hv
      · rw [List.mem_singleton.1 hv]
        trivial
  | ask i env =>
    simp only [act] at hact
    split at hact
    next camera closed hi =>
      exact Option.some.inj hact ▸ hsound.put ⟨rfl, fun mate hmate => hmate⟩
    next => cases hact
  | look i env =>
    simp only [act] at hact
    split at hact
    next => cases hact
    next v hi =>
      obtain ⟨hop, hlook, rfl⟩ := Option.map_eq_some_iff.1 hact
      exact hsound.put (look_sound (hsound v (List.mem_of_getElem? hi)) hlook)
  | move i =>
    simp only [act] at hact
    split at hact
    next => exact Option.some.inj hact ▸ hsound.put trivial
    next => cases hact
  | close i =>
    obtain ⟨v, hi, rfl⟩ := Option.map_eq_some_iff.1 hact
    exact hsound.put (hsound v (List.mem_of_getElem? hi))

/-- Where a hop moves its conversation. -/
theorem move_sound (hsound : w.Sound) (hact : w.act (.move i) = some w') :
    ∃ v asked seen next, w.live_[i]? = some v ∧ v.hop = .chosen v.cameraId_ asked seen next ∧
      w' = w.put i ⟨next.cameraId, v.closed_, .idle⟩ ∧ v.hop.Sound v.cameraId_ := by
  simp only [act] at hact
  split at hact
  next cameraId closed camera asked seen next hi =>
    have hhop := hsound _ (List.mem_of_getElem? hi)
    obtain rfl : camera = cameraId := hhop.1
    exact ⟨_, asked, seen, next, hi, rfl, (Option.some.inj hact).symm, hhop⟩
  next => cases hact

/-! ### Cameras -/

theorem occupied_eq_false : w.occupied cameraId = false ↔
    ∀ (j : ℕ) (v : Conversation), w.live_[j]? = some v → v.closed_ = false →
      v.cameraId_ ≠ cameraId := by
  simp only [occupied, List.any_eq_false, Bool.and_eq_true, Bool.not_eq_true',
    decide_eq_true_eq, not_and]
  constructor
  · exact fun h j v hj => h v (List.mem_of_getElem? hj)
  · intro h v hv
    obtain ⟨j, hj⟩ := List.getElem?_of_mem hv
    exact h j v hj

/-- A conversation changes. -/
theorem apart_put (hapart : w.Apart) (hi : w.live_[i]? = some v) (v' : Conversation) :
    (w.put i v').Apart ↔ (v'.closed_ = false → w.Vacant i v'.cameraId_) := by
  have hself : (w.put i v').live_[i]? = some v' :=
    List.getElem?_set_self (List.getElem?_eq_some_iff.1 hi).1
  have hothers {j : ℕ} (hij : i ≠ j) : (w.put i v').live_[j]? = w.live_[j]? :=
    List.getElem?_set_ne hij
  constructor
  · intro h hopen j u hj hopen' hcamera
    by_cases hij : i = j
    · exact hij
    · exact h i j v' u hself ((hothers hij).trans hj) hopen hopen' hcamera.symm
  · intro h j k u u' hj hk hopen hopen' hcamera
    by_cases hij : i = j
    · subst hij
      obtain rfl := Option.some.inj (hself.symm.trans hj)
      by_cases hik : i = k
      · exact hik
      · exact h hopen k u' ((hothers hik).symm.trans hk) hopen' hcamera.symm
    · rw [hothers hij] at hj
      by_cases hik : i = k
      · subst hik
        obtain rfl := Option.some.inj (hself.symm.trans hk)
        exact (h hopen' j u hj hopen hcamera).symm
      · rw [hothers hik] at hk
        exact hapart j k u u' hj hk hopen hopen' hcamera

/-- A conversation that stays where it is stays apart from the others. -/
theorem apart_stay (hapart : w.Apart) (hi : w.live_[i]? = some v) {v' : Conversation}
    (hcamera : v'.cameraId_ = v.cameraId_) (hclosed : v'.closed_ = false → v.closed_ = false) :
    (w.put i v').Apart := by
  refine (apart_put hapart hi v').2 fun hopen j u hj hopen' heq => ?_
  exact hapart i j v u hi hj (hclosed hopen) hopen' (hcamera.symm.trans heq.symm)

theorem getElem?_concat {vs : List Conversation} {u : Conversation} {j : ℕ}
    (h : (vs ++ [u])[j]? = some v) : vs[j]? = some v ∨ (j = vs.length ∧ v = u) := by
  rw [List.getElem?_append] at h
  split_ifs at h with hlt
  · exact .inl h
  · obtain ⟨hj, rfl⟩ := List.getElem?_eq_some_iff.1 h
    rw [List.length_singleton] at hj
    exact .inr ⟨by omega, List.getElem_singleton hj⟩

theorem apart_take (hapart : w.Apart) :
    ({ live_ := w.live_ ++ [{ cameraId_ := cameraId }], wake := .idle } : Watch).Apart ↔
      w.occupied cameraId = false := by
  rw [occupied_eq_false]
  constructor
  · intro h j v hj hopen hcamera
    have hlt : j < w.live_.length := (List.getElem?_eq_some_iff.1 hj).1
    have hsame := h j w.live_.length v { cameraId_ := cameraId }
      ((List.getElem?_append_left hlt).trans hj) List.getElem?_concat_length hopen rfl hcamera
    omega
  · intro h j k v v' hj hk hopen hopen' hcamera
    rcases getElem?_concat hj with hj | ⟨rfl, rfl⟩ <;>
      rcases getElem?_concat hk with hk | ⟨rfl, rfl⟩
    · exact hapart j k v v' hj hk hopen hopen' hcamera
    · exact absurd hcamera (h j v hj hopen)
    · exact absurd hcamera.symm (h k v' hk hopen')
    · rfl

/-- One step. -/
theorem apart_act (hapart : w.Apart) (hact : w.act event = some w') :
    w'.Apart ↔ w.Keeps event := by
  cases event with
  | wake cameraId =>
    simp only [act] at hact
    split at hact
    next =>
      obtain rfl := Option.some.inj hact
      split_ifs
      · exact iff_of_true hapart trivial
      · exact iff_of_true hapart trivial
    next => cases hact
  | refuse =>
    simp only [act] at hact
    split at hact
    next => cases hact
    next => exact iff_of_true (Option.some.inj hact ▸ hapart) trivial
  | take =>
    simp only [act] at hact
    split at hact
    next => cases hact
    next cameraId hwake =>
      obtain rfl := Option.some.inj hact
      rw [apart_take hapart, Keeps, hwake]
      constructor
      · rintro h _ ⟨⟩
        exact h
      · exact fun h => h cameraId rfl
  | ask i env =>
    simp only [act] at hact
    split at hact
    next camera closed hi =>
      exact iff_of_true (Option.some.inj hact ▸ apart_stay hapart hi rfl fun h => h) trivial
    next => cases hact
  | look i env =>
    simp only [act] at hact
    split at hact
    next => cases hact
    next v hi =>
      obtain ⟨hop, -, rfl⟩ := Option.map_eq_some_iff.1 hact
      exact iff_of_true (apart_stay hapart hi rfl fun h => h) trivial
  | move i =>
    simp only [act] at hact
    split at hact
    next cameraId closed camera asked seen next hi =>
      obtain rfl := Option.some.inj hact
      rw [apart_put hapart hi]
      constructor
      · intro h camera₁ camera₂ asked₁ seen₁ next₁ hi₁
        cases hi.symm.trans hi₁
        exact h rfl
      · rintro h rfl
        exact h camera cameraId asked seen next hi
    next => cases hact
  | close i =>
    obtain ⟨v, hi, rfl⟩ := Option.map_eq_some_iff.1 hact
    exact iff_of_true (apart_stay hapart hi rfl fun h => nomatch h) trivial

end Steps

end Watch

/-! ### Runs -/

namespace Watch

variable {h : List (Watch × Event)} {w : Watch}

theorem Runs.sound (hrun : Runs h w) : w.Sound := by
  refine Run.invariant (J := fun _ w => w.Sound) hrun (fun v hv => nomatch hv) ?_
  rintro h w notes w' hsound ⟨event, hact, -⟩
  exact sound_act hsound hact

/-- The conversations stay apart exactly when every camera is still vacant as it is taken. -/
theorem apart_iff (hrun : Runs h w) :
    (∀ n ∈ h, n.1.Keeps n.2) ↔ (∀ n ∈ h, n.1.Apart) ∧ w.Apart := by
  induction hrun with
  | start =>
    refine iff_of_true (fun n hn => nomatch hn) ⟨fun n hn => (nomatch hn), ?_⟩
    exact fun i j v v' hi => nomatch hi
  | next _ hstep ih =>
    obtain ⟨event, hact, rfl⟩ := hstep
    simp only [List.mem_append, List.mem_singleton, or_imp, forall_and, forall_eq]
    constructor
    · rintro ⟨hold, hnew⟩
      obtain ⟨hall, hapart⟩ := ih.1 hold
      exact ⟨⟨hall, hapart⟩, (apart_act hapart hact).2 hnew⟩
    · rintro ⟨⟨hall, hapart⟩, hapart'⟩
      exact ⟨ih.2 ⟨hall, hapart⟩, (apart_act hapart hact).1 hapart'⟩

end Watch

open Watch

/-- No two open conversations hold one camera, as long as every camera is still vacant when a wake
or a hop takes it; and a hop only goes to another camera, of the roommates, that talks and
listens. -/
theorem one_conversation_a_camera {h : List (Watch × Event)} {w : Watch} (hrun : Runs h w) :
    ((∀ n ∈ h, n.1.Keeps n.2) ↔ (∀ n ∈ h, n.1.Apart) ∧ w.Apart) ∧
    ∀ i w', w.act (.move i) = some w' → ∃ v asked seen next, w.live_[i]? = some v ∧
      v.hop = .chosen v.cameraId_ asked seen next ∧
      w' = w.put i ⟨next.cameraId, v.closed_, .idle⟩ ∧
      next.cameraId ≠ v.cameraId_ ∧ next.cameraId ∈ asked.roommates v.cameraId_ ∧
      (∃ info, seen.cameraInfo next.cameraId = some info ∧ info.talk = true) ∧
      ∀ listening, seen.listening = some listening → listening next.cameraId = true := by
  refine ⟨apart_iff hrun, fun i w' hact => ?_⟩
  obtain ⟨v, asked, seen, next, hi, hhop, hw', hsound⟩ := move_sound (Runs.sound hrun) hact
  rw [hhop] at hsound
  exact ⟨v, asked, seen, next, hi, hhop, hw', hsound.2⟩

/-- Two cameras in one room, both listening and able to talk. -/
def room : Outside where
  roommates _ := [1, 2]
  cameraInfo _ := some { talk := true }
  listening := some fun _ => true

/-- The conversation of camera 1 has found camera 2 free and is about to move there. -/
def hopping : Watch := { live_ := [⟨1, false, .chosen 1 room room { cameraId := 2 }⟩] }

/-- It moves there, and the next wake on camera 1 opens another one. -/
theorem one_conversation_hop :
    Watch.Apart { live_ := [⟨2, false, .idle⟩, ⟨1, false, .idle⟩] } ∧
      hopping.act (.move 0) = some { live_ := [⟨2, false, .idle⟩] } ∧ 2 ∈ room.roommates 1 := by
  have hchosen : Runs _ hopping :=
    ((((Run.start.next ⟨.wake 1, rfl, rfl⟩).next ⟨.take, rfl, rfl⟩).next
      ⟨.ask 0 room, rfl, rfl⟩).next ⟨.look 0 room, rfl, rfl⟩).next ⟨.look 0 room, rfl, rfl⟩
  refine ⟨?_, rfl, ?_⟩
  · have hrun : Runs _ { live_ := [⟨2, false, .idle⟩, ⟨1, false, .idle⟩], wake := .idle } :=
      ((hchosen.next ⟨.move 0, rfl, rfl⟩).next ⟨.wake 1, rfl, rfl⟩).next ⟨.take, rfl, rfl⟩
    refine ((one_conversation_a_camera hrun).1.1 ?_).2
    simp only [List.nil_append, List.cons_append, List.forall_mem_cons]
    refine ⟨trivial, ?_, trivial, trivial, trivial, ?_, trivial, ?_, nofun⟩
    · rintro _ ⟨⟩
      rfl
    · rintro camera camera' asked seen next ⟨⟩ j v hj - -
      -- there is no other conversation
      have hlt : j < 1 := (List.getElem?_eq_some_iff.1 hj).1
      omega
    · rintro _ ⟨⟩
      rfl
  · obtain ⟨v, asked, seen, next, hi, hhop, -, -, hmates, -⟩ :=
      (one_conversation_a_camera hchosen).2 0 _ rfl
    cases hi
    cases hhop
    exact hmates

/-- A wake finds camera 2 free, the conversation of camera 1 moves there, and the wake takes it. -/
theorem two_cameras_taken : ∃ h w, Runs h w ∧ ¬w.Apart := by
  have hrun : ∃ h, Runs h { live_ := [⟨2, false, .idle⟩, ⟨2, false, .idle⟩], wake := .idle } :=
    ⟨_, (((((((Run.start.next ⟨.wake 1, rfl, rfl⟩).next ⟨.take, rfl, rfl⟩).next
      ⟨.wake 2, rfl, rfl⟩).next ⟨.ask 0 room, rfl, rfl⟩).next ⟨.look 0 room, rfl, rfl⟩).next
      ⟨.look 0 room, rfl, rfl⟩).next ⟨.move 0, rfl, rfl⟩).next ⟨.take, rfl, rfl⟩⟩
  obtain ⟨h, hrun⟩ := hrun
  refine ⟨h, _, hrun, fun hapart => ?_⟩
  cases hapart 0 1 _ _ rfl rfl rfl rfl rfl

end Cameras

end Voice

end ArgusBackend
