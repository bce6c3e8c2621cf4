import ArgusBackend.Download.Transfer

/-!
# What a run of a download keeps to

* `Stage` : how far a run has come with its descriptor, and what its part file holds;
* `protocol` : a run writes only where it has the lock, renames only what it has hashed to the pin,
  and returns done only when the pinned file was found or put at the target;
* `obeys_run` : every run keeps to that.
-/

namespace ArgusBackend

namespace Download

variable (tools : Tools)

/-- The file is the one of the pin. -/
def DownloadRequest.Pinned (req : DownloadRequest) (bytes : Bytes) : Prop :=
  bytes.length = req.expectedSize ∧ tools.sha256 bytes = req.expectedSha256

/-! ### How far a run has come -/

/-- How far a run has come with its files. -/
inductive Stage where
  | idle
  | opened (fd : ℕ)
  | locked (fd : ℕ)
  /-- the sidecar was read -/
  | recorded (fd : ℕ) (sidecar : Option Sidecar)
  /-- the part file has this size -/
  | measured (fd : ℕ) (sidecar : Option Sidecar) (size : ℕ)
  /-- the part file was cut to its recorded bytes -/
  | cut (fd length : ℕ)
  | working (fd : ℕ) (hashed : Bytes)
  | renamed (fd : ℕ)
  | closed_ (fd : ℕ)
  deriving DecidableEq

/-- How far a run has come, and whether the target is known to be right. -/
structure Phase where
  stage : Stage := .idle
  /-- the pinned file was found or put at the target -/
  proven : Bool := false

namespace Stage

/-- The descriptor of a stage. -/
def fd : Stage → Option ℕ
  | .idle => none
  | .opened fd | .locked fd | .recorded fd _ | .measured fd _ _ | .cut fd _ | .working fd _
  | .renamed fd | .closed_ fd => some fd

/-- How far a run has come once a call is answered, or has thrown. -/
def after (k : Stage) : (op : Op) → Option op.Ans → Stage
  | .openPart, some (some fd) => .opened fd
  | .lock fd, some .locked => .locked fd
  | .readSidecar fd, some sidecar =>
    match k with
    | .locked _ => .recorded fd sidecar
    | k => k
  | .size fd, some (some size) =>
    match k with
    | .recorded _ sidecar => .measured fd sidecar size
    | k => k
  | .truncate fd length, some true =>
    match k with
    | .measured _ _ _ => .cut fd length
    | .working _ _ => .working fd []
    | k => k
  | .readPart _, some (.fed bytes) =>
    match k with
    | .cut fd _ => .working fd bytes
    | k => k
  | .append fd body hashed, some written => if written then .working fd (hashed ++ body) else .locked fd
  | .renamePart _ fd, some true => .renamed fd
  | .close fd, some _ => .closed_ fd
  | _, _ => k

end Stage

/-- How far a run has come, by its calls. -/
def Phase.after (k : Phase) (op : Op) (r : Option op.Ans) : Phase where
  stage := k.stage.after op r
  proven :=
    match op, r with
    | .readTarget req _, some (.fed bytes) =>
      k.proven || decide (tools.sha256 bytes = req.expectedSha256)
    | .renamePart _ _, some true => true
    | _, _ => k.proven

/-- A process may die at any operation; then its descriptor is closed. -/
def mayDie : Op → Bool
  | .close _ => false
  | _ => true

/-- The runs on a disk. -/
def workshop : Workshop Disk Note Phase Outside DownloadRequest Op Op.Ans where
  exec := exec
  program := run tools
  first _ := {}
  after := Phase.after tools
  fallible := mayDie

/-! ### What a run keeps to -/

variable {tools}

/-- What answers say beyond their type. -/
def Tells : (op : Op) → Option op.Ans → Prop
  | .readPart length, some (.fed bytes) => bytes.length = length
  | .fetch _ _ last, some _ => last + 1 < 2 ^ 64
  | _, _ => True

/-- A run starts from nothing, or from the bytes that the sidecar recorded of a part file that has as
many. -/
def Resumes (sidecar : Option Sidecar) (size length : ℕ) : Prop :=
  length = 0 ∨ ∃ recorded, sidecar = some recorded ∧ recorded.bytes = length ∧ length ≤ size

variable (tools) in
/-- The calls that each stage allows, and what they answer. -/
def protocol (req : DownloadRequest) : Protocol (Phase.after tools) where
  allowed k op :=
    match op with
    | .readTarget r length => r = req ∧ length = req.expectedSize
    | .openPart => k.stage = .idle
    | .lock fd => k.stage = .opened fd
    | .readSidecar fd => k.stage = .locked fd
    | .size fd => ∃ sidecar, k.stage = .recorded fd sidecar
    | .truncate fd length =>
      (∃ sidecar size, k.stage = .measured fd sidecar size ∧ Resumes sidecar size length) ∨
        (length = 0 ∧ ∃ hashed, k.stage = .working fd hashed)
    | .readPart length => ∃ fd, k.stage = .cut fd length
    | .append fd _ hashed => k.stage = .working fd hashed
    | .renamePart r fd => r = req ∧ ∃ hashed, k.stage = .working fd hashed ∧ req.Pinned tools hashed
    | .close fd => k.stage.fd = some fd
    | .removePart => ∃ fd, k.stage = .closed_ fd
    | .finish r status => r = req ∧ (status = .done → k.proven = true)
    | _ => True
  answers _ op r := (r = none → mayDie op = true) ∧ Tells op r

section Protocol

variable {req : DownloadRequest} {fd : ℕ} {k : Phase} {t : Transfer}

/-- The run still has its descriptor in mind, and has not won. -/
def Ends (fd : ℕ) (o : Outcome) (k : Phase) : Prop := k.stage.fd = some fd ∧ o.status ≠ .done

/-- The part file holds what was hashed, and that is not too much. -/
structure Ready (req : DownloadRequest) (fd : ℕ) (t : Transfer) (k : Phase) : Prop where
  stage : k.stage = .working fd t.hashed
  present : t.present = t.hashed.length
  fits : t.present ≤ req.expectedSize

theorem Ready.descriptor (hk : Ready req fd t k) : k.stage.fd = some fd := by
  rw [hk.stage]
  rfl

/-- What a step comes to. -/
def StepOk (req : DownloadRequest) (fd : ℕ) : Option Step → Phase → Prop
  | some (.advanced t), k | some (.again t), k => Ready req fd t k
  | some (.retry o t), k => Ready req fd t k ∧ o.status ≠ .done
  | some (.stop o _), k => Ends fd o k
  | none, k => k.stage.fd = some fd

theorem obeys_removeSidecar :
    removeSidecar.Obeys (protocol tools req) (fun _ k' => k' = k) k :=
  Task.obeys_call trivial (fun _ => rfl) fun _ _ => Task.obeys_last trivial fun _ _ => rfl

theorem obeys_discard (hk : k.stage.fd = some fd) :
    (discard fd t).Obeys (protocol tools req) (fun _ k' => k'.stage.fd = some fd) k := by
  refine Task.obeys_call hk (fun _ => hk) fun _ _ => ?_
  refine Task.obeys_call ⟨fd, rfl⟩ (fun _ => rfl) fun _ _ => ?_
  exact Task.obeys_bind obeys_removeSidecar (fun _ hk' => hk' ▸ rfl) fun _ _ hk' => hk' ▸ rfl

theorem obeys_saveSidecar :
    (saveSidecar req t).Obeys (protocol tools req) (fun _ k' => k' = k) k := by
  refine Task.obeys_call trivial (fun _ => rfl) fun written _ => ?_
  split
  next => exact Task.obeys_last trivial fun _ _ => rfl
  next => rfl

theorem obeys_append (hk : Ready req fd t k) {url : String} {body : Bytes}
    (hfits : t.present + body.length ≤ req.expectedSize) :
    (append req fd t url body).Obeys (protocol tools req) (StepOk req fd) k := by
  refine Task.obeys_call hk.stage (fun _ => hk.descriptor) fun written _ => ?_
  cases written with
  | false => exact ⟨rfl, by decide⟩
  | true =>
    refine Task.obeys_call trivial (fun _ => rfl) fun synced _ => ?_
    cases synced with
    | false => exact ⟨rfl, by decide⟩
    | true =>
      refine Task.obeys_bind obeys_saveSidecar (fun _ hk' => hk' ▸ rfl) fun saved k' hk' => ?_
      subst hk'
      cases saved with
      | false => exact ⟨rfl, by decide⟩
      | true =>
        refine ⟨rfl, ?_, hfits⟩
        simp [hk.present]

theorem ends_of (hk : k.stage.fd = some fd) {o : Outcome} (ho : o.status ≠ .done) : Ends fd o k :=
  ⟨hk, ho⟩

theorem obeys_restart (hk : Ready req fd t k) {etag : String} :
    (restartForNewSource req fd t etag).Obeys (protocol tools req) (StepOk req fd) k := by
  unfold restartForNewSource
  simp only
  split
  next => exact ends_of hk.descriptor (by decide)
  next =>
    refine Task.obeys_call (.inr ⟨rfl, _, hk.stage⟩) (fun _ => hk.descriptor) fun cut _ => ?_
    cases cut with
    | false => exact ends_of hk.descriptor (by decide)
    | true =>
      have hcut : (k.after tools (.truncate fd 0) (some true)).stage = .working fd [] := by
        simp [Phase.after, Stage.after, hk.stage]
      have hready : Ready req fd { t with restarts := t.restarts + 1, present := 0, hashed := [], etag }
          (k.after tools (.truncate fd 0) (some true)) := ⟨hcut, rfl, Nat.zero_le _⟩
      refine Task.obeys_bind obeys_saveSidecar (fun _ hk' => hk' ▸ hready.descriptor)
        fun saved k' hk' => ?_
      subst hk'
      cases saved with
      | false => exact ends_of hready.descriptor (by decide)
      | true => exact hready

theorem obeys_discard_stop (hk : k.stage.fd = some fd) {o : Outcome} (ho : o.status ≠ .done) :
    (do
      let t ← discard fd t
      pure (Step.stop o t) : DownloadTask Step).Obeys (protocol tools req) (StepOk req fd) k :=
  Task.obeys_bind (obeys_discard hk) (fun _ hk' => hk') fun _ _ hk' => ends_of hk' ho

theorem obeys_acceptPartial (hk : Ready req fd t k) {url : String} {last : ℕ}
    (hlast : last < req.expectedSize) {response : ChunkResponse} :
    (acceptPartial req fd t url last response).Obeys (protocol tools req) (StepOk req fd) k := by
  unfold acceptPartial
  split
  next => exact ends_of hk.descriptor (by decide)
  next range _ =>
    have hready : ∀ etag, Ready req fd { t with etag := etag } k := fun _ =>
      ⟨hk.stage, hk.present, hk.fits⟩
    split
    next => exact obeys_discard_stop hk.descriptor (by decide)
    next =>
      split
      next => exact ⟨hk, by decide⟩
      next hrange =>
        simp only [not_or, not_not, not_lt] at hrange
        have hordered := range.ordered
        have hfits : t.present + response.body.length ≤ req.expectedSize := by omega
        split
        next => exact obeys_restart hk
        next => exact obeys_append (hready _) hfits

theorem obeys_acceptWhole (hk : Ready req fd t k) {url : String} {response : ChunkResponse} :
    (acceptWhole req fd t url response).Obeys (protocol tools req) (StepOk req fd) k := by
  unfold acceptWhole
  split_ifs with hlimit hover hunder
  · exact ends_of hk.descriptor (by decide)
  · exact obeys_discard_stop hk.descriptor (by decide)
  · exact obeys_discard_stop hk.descriptor (by decide)
  · refine Task.obeys_call (.inr ⟨rfl, _, hk.stage⟩) (fun _ => hk.descriptor) fun cut _ => ?_
    cases cut with
    | false => exact ends_of hk.descriptor (by decide)
    | true =>
      have hcut : (k.after tools (.truncate fd 0) (some true)).stage = .working fd [] := by
        simp [Phase.after, Stage.after, hk.stage]
      refine obeys_append (t := { t with present := 0, hashed := [], etag := response.etag })
        ⟨hcut, rfl, Nat.zero_le _⟩ ?_
      simp only
      omega

theorem obeys_classify (hk : Ready req fd t k) {url : String} {last : ℕ}
    (hlast : last < req.expectedSize) {response : ChunkResponse} :
    (classify req fd t url last response).Obeys (protocol tools req) (StepOk req fd) k := by
  unfold classify
  split
  next => exact obeys_acceptPartial hk hlast
  split
  next => exact obeys_acceptWhole hk
  split
  next =>
    simp only
    split
    next => exact ends_of hk.descriptor (by decide)
    next => exact ⟨hk.stage, hk.present, hk.fits⟩
  split
  next => exact obeys_discard_stop hk.descriptor (by decide)
  split
  next => exact ⟨hk, by decide⟩
  next => exact ends_of hk.descriptor (by decide)

/-- The last byte asked for is one of the file. -/
theorem lastOf_lt (hsize : 0 < req.expectedSize) (hlast : lastOf req t + 1 < 2 ^ 64) :
    lastOf req t < req.expectedSize := by
  unfold lastOf at hlast ⊢
  rcases Nat.eq_zero_or_pos (min ((t.present + req.policy.chunkBytes) % 2 ^ 64) req.expectedSize)
    with hzero | hpos
  · rw [hzero] at hlast
    exact absurd hlast (by decide)
  · have hmod : (min ((t.present + req.policy.chunkBytes) % 2 ^ 64) req.expectedSize + 2 ^ 64 - 1) %
        2 ^ 64 ≤ min ((t.present + req.policy.chunkBytes) % 2 ^ 64) req.expectedSize - 1 := by
      omega
    omega

theorem obeys_receive (hk : Ready req fd t k) (hlast : lastOf req t < req.expectedSize)
    {url : String} {response : ChunkResponse} {follow : String → DownloadTask Step}
    (hfollow : ∀ location, (follow location).Obeys (protocol tools req) (StepOk req fd) k) :
    (receive req fd t url response follow).Obeys (protocol tools req) (StepOk req fd) k := by
  unfold receive
  split
  · exact ends_of hk.descriptor (by decide)
  · exact ends_of hk.descriptor (by decide)
  · exact ends_of hk.descriptor (by decide)
  · exact ⟨hk, by decide⟩
  · exact ⟨hk, by decide⟩
  · split
    · exact hfollow _
    · exact obeys_classify hk hlast

theorem obeys_fetchFrom (hk : Ready req fd t k) (hsize : 0 < req.expectedSize) {hops : ℕ}
    {url : String} :
    (fetchFrom tools req fd t url hops).Obeys (protocol tools req) (StepOk req fd) k := by
  induction hops generalizing url with
  | zero =>
    refine Task.obeys_call trivial (fun _ => hk.descriptor) fun response hanswer => ?_
    exact obeys_receive hk (lastOf_lt hsize hanswer.2) fun _ => ends_of hk.descriptor (by decide)
  | succ hops ih =>
    refine Task.obeys_call trivial (fun _ => hk.descriptor) fun response hanswer => ?_
    refine obeys_receive hk (lastOf_lt hsize hanswer.2) fun location => ?_
    split
    · exact ends_of hk.descriptor (by decide)
    · exact ih

/-- What the fetching comes to. -/
def Fetched (req : DownloadRequest) (fd : ℕ) : Option (Option Outcome × Transfer) → Phase → Prop
  | some (none, t), k => Ready req fd t k ∧ req.expectedSize ≤ t.present
  | some (some o, _), k => Ends fd o k
  | none, k => k.stage.fd = some fd

theorem obeys_fetchAll {rounds failures : ℕ} (hk : Ready req fd t k) :
    (fetchAll tools req fd failures t rounds).Obeys (protocol tools req) (Fetched req fd) k := by
  induction rounds generalizing failures t k with
  | zero => exact hk.descriptor
  | succ rounds ih =>
    unfold fetchAll
    split
    next hless =>
      refine Task.obeys_call trivial (fun _ => hk.descriptor) fun isCancelled _ => ?_
      split
      next => exact ends_of hk.descriptor (by decide)
      next =>
        refine Task.obeys_bind (obeys_fetchFrom hk (Nat.zero_lt_of_lt hless)) (fun _ hk' => hk')
          fun step k' hk' => ?_
        cases step with
        | advanced t' => exact ih ⟨hk'.stage, hk'.present, hk'.fits⟩
        | again t' => exact ih hk'
        | stop o t' => exact hk'
        | retry o t' =>
          simp only
          split
          next => exact ends_of hk'.1.descriptor hk'.2
          next =>
            refine Task.obeys_call trivial (fun _ => hk'.1.descriptor) fun waited _ => ?_
            split
            next => exact ih hk'.1
            next => exact ends_of hk'.1.descriptor (by decide)
    next hdone => exact ⟨hk, by omega⟩

/-- A run that ends well has won. -/
def Won (fd : ℕ) (r : Option Outcome) (k : Phase) : Prop :=
  k.stage.fd = some fd ∧ ∀ o, r = some o → o.status = .done → k.proven = true

theorem won_none (hk : k.stage.fd = some fd) : Won fd none k := ⟨hk, fun _ h => (nomatch h)⟩

theorem won_of_ends {o : Outcome} (hk : Ends fd o k) : Won fd (some o) k := by
  refine ⟨hk.1, fun o' ho' hdone => ?_⟩
  obtain rfl := Option.some.inj ho'
  exact absurd hdone hk.2

theorem won_failed (hk : k.stage.fd = some fd) {failure : DownloadFailure} :
    Won fd (some (failed failure)) k := won_of_ends ⟨hk, fun h => (nomatch h)⟩

theorem obeys_commit (hk : Ready req fd t k) (hdone : req.expectedSize ≤ t.present) :
    (commit tools req fd t).Obeys (protocol tools req) (Won fd) k := by
  unfold commit
  split
  next hpin =>
    have hlength : t.hashed.length = req.expectedSize := by
      rw [← hk.present]
      exact le_antisymm hk.fits hdone
    have hpinned : req.Pinned tools t.hashed := ⟨hlength, hpin⟩
    refine Task.obeys_call trivial (fun _ => won_none hk.descriptor) fun synced _ => ?_
    cases synced with
    | false => exact won_failed hk.descriptor
    | true =>
      refine Task.obeys_call ⟨rfl, _, hk.stage, hpinned⟩ (fun _ => won_none hk.descriptor)
        fun renamed _ => ?_
      cases renamed with
      | false => exact won_failed hk.descriptor
      | true =>
        refine Task.obeys_call rfl (fun _ => won_none rfl) fun _ _ => ?_
        refine Task.obeys_call trivial (fun _ => won_none rfl) fun kept _ => ?_
        cases kept with
        | false => exact won_failed rfl
        | true =>
          exact Task.obeys_bind obeys_removeSidecar (fun _ hk' => hk' ▸ won_none rfl)
            fun _ _ hk' => hk' ▸ ⟨rfl, fun _ _ _ => rfl⟩
  next =>
    exact Task.obeys_bind (obeys_discard hk.descriptor) (fun _ hk' => won_none hk')
      fun _ _ hk' => won_failed hk'

/-- What was restored. -/
def Restored (req : DownloadRequest) (fd : ℕ) : Option (Except Outcome Transfer) → Phase → Prop
  | some (.ok t), k => Ready req fd t k
  | some (.error o), k => Ends fd o k
  | none, k => k.stage.fd = some fd

theorem resumeFrom_fits {recorded : Option Sidecar} {partSize : ℕ} :
    (resumeFrom req recorded partSize).present ≤ req.expectedSize := by
  unfold resumeFrom
  split
  next =>
    split
    next h => exact h.2.2.2.1
    next => exact Nat.zero_le _
  next => exact Nat.zero_le _

theorem resumes_resumeFrom {recorded : Option Sidecar} {partSize : ℕ} :
    Resumes recorded partSize (resumeFrom req recorded partSize).present := by
  unfold resumeFrom
  split
  next r =>
    split
    next h => exact .inr ⟨r, rfl, rfl, h.2.2.2.2⟩
    next => exact .inl rfl
  next => exact .inl rfl

theorem obeys_restore (hk : k.stage = .locked fd) :
    (restore req fd).Obeys (protocol tools req) (Restored req fd) k := by
  have hfd : k.stage.fd = some fd := by rw [hk]; rfl
  refine Task.obeys_call hk (fun _ => hfd) fun recorded _ => ?_
  set k₁ := k.after tools (.readSidecar fd) (some recorded) with hk₁
  have hrecorded : k₁.stage = .recorded fd recorded := by
    simp [hk₁, Phase.after, Stage.after, hk]
  have hfd₁ : k₁.stage.fd = some fd := by rw [hrecorded]; rfl
  refine Task.obeys_call ⟨recorded, hrecorded⟩ (fun _ => hfd₁) fun partSize _ => ?_
  cases partSize with
  | none => exact ends_of hfd₁ (by decide)
  | some partSize =>
    set k₂ := k₁.after tools (.size fd) (some (some partSize)) with hk₂
    have hmeasured : k₂.stage = .measured fd recorded partSize := by
      simp [hk₂, Phase.after, Stage.after, hrecorded]
    have hfd₂ : k₂.stage.fd = some fd := by rw [hmeasured]; rfl
    refine Task.obeys_call (.inl ⟨recorded, partSize, hmeasured, resumes_resumeFrom⟩)
      (fun _ => hfd₂) fun cut _ => ?_
    cases cut with
    | false => exact ends_of hfd₂ (by decide)
    | true =>
      set t := resumeFrom req recorded partSize
      set k' := k₂.after tools (.truncate fd t.present) (some true) with hk'
      have hcut : k'.stage = .cut fd t.present := by
        simp [hk', Phase.after, Stage.after, hmeasured]
      have hfd' : k'.stage.fd = some fd := by rw [hcut]; rfl
      refine Task.obeys_call ⟨fd, hcut⟩ (fun _ => hfd') fun fed hanswer => ?_
      cases fed with
      | cancelled => exact ends_of hfd' (by decide)
      | failed => exact ends_of hfd' (by decide)
      | fed bytes =>
        have hlength : bytes.length = t.present := hanswer.2
        have hworking : (k'.after tools (.readPart t.present) (some (.fed bytes))).stage =
            .working fd bytes := by
          simp [Phase.after, Stage.after, hcut]
        have hready : Ready req fd { t with hashed := bytes }
            (k'.after tools (.readPart t.present) (some (.fed bytes))) :=
          ⟨hworking, hlength.symm, resumeFrom_fits⟩
        refine Task.obeys_bind obeys_saveSidecar (fun _ hk'' => hk'' ▸ hready.descriptor)
          fun saved k'' hk'' => ?_
        subst hk''
        cases saved with
        | false => exact ends_of hready.descriptor (by decide)
        | true => exact hready

theorem obeys_transfer (hk : k.stage = .opened fd) :
    (transfer tools req fd).Obeys (protocol tools req) (Won fd) k := by
  have hfd : k.stage.fd = some fd := by rw [hk]; rfl
  refine Task.obeys_call hk (fun _ => won_none hfd) fun answer _ => ?_
  cases answer with
  | busy => exact won_failed hfd
  | error => exact won_failed hfd
  | locked =>
    refine Task.obeys_bind (obeys_restore rfl) (fun _ hk' => won_none hk') fun restored k' hk' => ?_
    cases restored with
    | error o => exact won_of_ends hk'
    | ok t =>
      refine Task.obeys_bind (obeys_fetchAll hk') (fun _ hk'' => won_none hk'')
        fun fetched k'' hk'' => ?_
      obtain ⟨outcome, t'⟩ := fetched
      cases outcome with
      | none => exact obeys_commit hk''.1 hk''.2
      | some o =>
        simp only
        split
        next =>
          exact Task.obeys_bind (obeys_discard hk''.1) (fun _ h => won_none h) fun _ _ h =>
            won_of_ends ⟨h, hk''.2⟩
        next => exact won_of_ends hk''

/-- The target is accepted only where it was found to be the pinned file. -/
def Accepted (r : Option (Option Outcome)) (k : Phase) : Prop :=
  k.stage = .idle ∧ ∀ o, r = some (some o) → o.status = .done → k.proven = true

theorem accepted_of_not_done (hk : k.stage = .idle) {r : Option (Option Outcome)}
    (hr : ∀ o, r = some (some o) → o.status ≠ .done) : Accepted r k :=
  ⟨hk, fun o ho hdone => absurd hdone (hr o ho)⟩

theorem obeys_acceptExistingTarget (hk : k.stage = .idle) :
    (acceptExistingTarget tools req).Obeys (protocol tools req) Accepted k := by
  refine Task.obeys_call trivial (fun _ => accepted_of_not_done hk (by simp)) fun size _ => ?_
  split
  next =>
    refine Task.obeys_call ⟨rfl, rfl⟩ (fun _ => accepted_of_not_done hk (by simp)) fun fed _ => ?_
    cases fed with
    | cancelled => exact accepted_of_not_done hk (by simp [cancelled])
    | failed => exact accepted_of_not_done hk (by simp)
    | fed bytes =>
      simp only
      split
      next hpin =>
        refine ⟨hk, fun _ _ _ => ?_⟩
        simp [Phase.after, hpin]
      next =>
        refine Task.obeys_pure ⟨hk, fun o ho => ?_⟩
        simp at ho
  next => exact accepted_of_not_done hk (by simp)

theorem obeys_run (req : DownloadRequest) :
    ((workshop tools).program req).Obeys (protocol tools req) (fun _ _ => True)
      ((workshop tools).first req) := by
  have hfinish : ∀ {k : Phase} {status}, (status = .done → k.proven = true) →
      (ask (.finish req status)).Obeys (protocol tools req) (fun _ _ => True) k := fun h =>
    Task.obeys_last ⟨rfl, h⟩ fun _ _ => trivial
  have hfail : ∀ {k : Phase}, (ask (.finish req .failed)).Obeys (protocol tools req)
      (fun _ _ => True) k := hfinish fun h => (nomatch h)
  change (run tools req).Obeys (protocol tools req) _ {}
  unfold run
  split
  next =>
    refine Task.obeys_bind (obeys_acceptExistingTarget rfl) (fun _ _ => trivial)
      fun existing k hk => ?_
    cases existing with
    | some o => exact hfinish (hk.2 o rfl)
    | none =>
      refine Task.obeys_call trivial (fun _ => trivial) fun created _ => ?_
      cases created with
      | false => exact hfail
      | true =>
        refine Task.obeys_call hk.1 (fun _ => trivial) fun opened _ => ?_
        cases opened with
        | none => exact hfail
        | some fd =>
          set k' := (k.after tools .createDirectories (some true)).after tools .openPart (some (some fd))
          have hopened : k'.stage = .opened fd := rfl
          have hbody : (transfer tools req fd).attempt.Obeys (protocol tools req)
              (fun r k => ∃ o, r = some o ∧ Won fd o k) k' :=
            Task.obeys_attempt ((obeys_transfer hopened).mono fun r _ hk => ⟨r, rfl, hk⟩)
          refine Task.obeys_bind hbody (fun _ hk => trivial) fun outcome k'' hk'' => ?_
          obtain ⟨o', heq, hfd, hwon⟩ := hk''
          obtain rfl := Option.some.inj heq
          refine Task.obeys_call hfd (fun _ => trivial) fun _ _ => ?_
          cases outcome with
          | none => trivial
          | some o => exact hfinish (hwon o rfl)
  next => exact hfail

end Protocol

end Download

end ArgusBackend
