import ArgusBackend.Library.Facts
import ArgusBackend.Library.Table

/-!
# Logging a device in from another one

A device that wants to log in polls its challenge until a user has approved it.  The approval
commits the tokens in the row of the challenge and after that puts the secret of the device
credential into `pendingDeviceSecrets`; the poll that claims the approved row hands both out.

* `Db` : the row of one challenge, and the pending secrets;
* `AuthFeatureService.approveDeviceLogin`, `pollDeviceLogin` : the requests;
* `device_login_whole` : what is handed out, how often, and when the secret is with it.
-/

namespace ArgusBackend

namespace Auth

/-- What a poll is told. -/
inductive DeviceLoginStatus where
  | pending | approved | expired
  deriving DecidableEq

/-- What `DeviceLoginChallengeSchema` says of the login; where it comes from is left out. -/
structure DeviceLoginChallenge where
  challengeId : String
  status : DeviceLoginStatus := .pending
  userId : Option ℤ := none
  accessToken : String := ""
  refreshToken : String := ""
  expiresAt : ℤ
  pollHash : String
  deriving DecidableEq

/-- The roles of a user. -/
inductive UserRole where
  | owner | resident | guard | guest | unknown
  deriving DecidableEq

/-- What identity says of a user. -/
structure UserIdentity where
  userId : ℤ
  name : String
  lastName : String
  role : UserRole
  isActive : Bool
  deriving DecidableEq

/-- What `approveDeviceLogin` issues: the tokens and the secret of the device credential. -/
structure Issued where
  userId : ℤ
  accessToken : String
  refreshToken : String
  secret : String
  deriving DecidableEq

/-- The answer to a poll. -/
structure DeviceLoginStatusDto where
  status : DeviceLoginStatus
  accessToken : String := ""
  refreshToken : String := ""
  deviceSecret : String := ""
  userId : ℤ := 0
  name : String := ""
  role : UserRole := .unknown
  deriving DecidableEq

/-- What a request may be refused with. -/
inductive AuthError where
  | challengeNotFound | challengeExpired | identityUnavailable | accessDenied
  deriving DecidableEq

/-- An entry of `ExpiringSecrets`. -/
structure Entry where
  secret : String
  expiresAt : ℤ
  deriving DecidableEq

/-- The row of the challenge, while it is stored, and the pending secrets by challenge. -/
structure Db where
  challenge : Option DeviceLoginChallenge
  secrets : Table String Entry := ∅

/-- `ExpiringSecrets::store`: what has expired goes first. -/
def Db.store (db : Db) (challengeId secret : String) (expiresAt now : ℤ) : Db :=
  let stale := db.secrets.keys.filter fun k =>
    (db.secrets.lookup k).any fun entry => entry.expiresAt ≤ now
  let live := stale.foldl (fun m k => m.erase k) db.secrets
  { db with secrets := live.insert challengeId ⟨secret, expiresAt⟩ }

/-! ### What the service awaits -/

/-- What the requests await. -/
inductive Op where
  | now
  | findByChallengeId
  | remove
  | fetchIdentityUser (userId : ℤ)
  /-- the transaction of an approval: the credential, the session and `MARK_APPROVED` -/
  | approve (userId : ℤ)
  /-- `pendingDeviceSecrets().store` -/
  | store (secret : String) (expiresAt : ℤ)
  /-- `CLAIM_APPROVED` -/
  | claimApproved (now : ℤ)
  /-- `pendingDeviceSecrets().take`, for the poll with this proof that is about to hand out -/
  | take (proof : String) (result : DeviceLoginStatusDto)
  | refuse (error : AuthError)
  deriving DecidableEq

/-- What each of them answers. -/
@[reducible] def Op.Ans : Op → Type
  | .now => ℤ
  | .findByChallengeId => Option DeviceLoginChallenge
  | .fetchIdentityUser _ => Option (Option UserIdentity)
  | .approve _ => Option Issued
  | .claimApproved _ => Bool
  | .take _ _ => String
  | _ => Unit

/-- What the outside answers when it is asked. -/
structure Outside where
  now : ℤ := 0
  /-- none when identity cannot be reached -/
  user : Option (Option UserIdentity) := none
  accessToken : String := ""
  refreshToken : String := ""
  secret : String := ""

/-- What the claim is about: what is issued, taken and handed out. -/
inductive Note where
  | approved (issued : Issued)
  | claimed
  /-- a poll hands this out; whether `pendingDeviceSecrets` had an entry when it took from there -/
  | handed (proof : String) (result : DeviceLoginStatusDto) (stored : Bool)
  | refused (error : AuthError)
  deriving DecidableEq

section System

variable (challengeId : String)

/-- What the transaction of an approval issues, if the challenge is pending. -/
def issuedBy (env : Outside) (db : Db) (userId : ℤ) : Option (DeviceLoginChallenge × Issued) :=
  match db.challenge with
  | none => none
  | some c => if c.status = .pending then
      some (c, ⟨userId, env.accessToken, env.refreshToken, env.secret⟩) else none

/-- Whether `CLAIM_APPROVED` finds the row. -/
def claimable (db : Db) (now : ℤ) : Bool :=
  db.challenge.any fun c => c.status = .approved && now < c.expiresAt

/-- The answer of an operation. -/
def answer (env : Outside) (db : Db) : (op : Op) → op.Ans
  | .now => env.now
  | .findByChallengeId => db.challenge
  | .fetchIdentityUser _ => env.user
  | .approve userId => (issuedBy env db userId).map (·.2)
  | .claimApproved now => claimable db now
  | .take _ _ => (db.secrets.lookup challengeId).elim "" (·.secret)
  | .remove | .store _ _ | .refuse _ => ()

/-- The tables and the map after an operation. -/
def effect (env : Outside) (db : Db) : Op → Db
  | .remove => { db with challenge := none }
  | .approve userId =>
    match issuedBy env db userId with
    | none => db
    | some (c, issued) => { db with challenge := some { c with
        status := .approved, userId := some userId
        accessToken := issued.accessToken, refreshToken := issued.refreshToken } }
  | .store secret expiresAt => db.store challengeId secret expiresAt env.now
  | .claimApproved now =>
    if claimable db now then
      { db with challenge := db.challenge.map fun c =>
        { c with status := .expired, accessToken := "", refreshToken := "" } }
    else db
  | .take _ _ => { db with secrets := db.secrets.erase challengeId }
  | _ => db

/-- What is noted of an operation. -/
def notes (env : Outside) (db : Db) : Op → List Note
  | .approve userId => (issuedBy env db userId).toList.map fun p => .approved p.2
  | .claimApproved now => if claimable db now then [.claimed] else []
  | .take proof result =>
    [.handed proof { result with deviceSecret := (db.secrets.lookup challengeId).elim "" (·.secret) }
      (db.secrets.lookup challengeId).isSome]
  | .refuse error => [.refused error]
  | _ => []

/-- The operations of the service, each as one step. -/
def exec (env : Outside) (op : Op) (db : Db) : op.Ans × List Note × Db :=
  (answer challengeId env db op, notes challengeId env db op, effect challengeId env db op)

end System

/-- A task of the service. -/
abbrev AuthTask := Task Op Op.Ans

/-- Await an operation. -/
def ask (op : Op) : AuthTask op.Ans := Task.call op

/-- A refusal ends the request. -/
def refuse {α : Type} (error : AuthError) : AuthTask α := do
  ask (.refuse error)
  Task.throw

/-! ### The service -/

namespace AuthFeatureService

variable (sha256Hex : String → String)

/-- `pollerOwnsChallenge` -/
def pollerOwnsChallenge (proof pollHash : String) : Bool :=
  pollHash ≠ "" && proof ≠ "" && sha256Hex proof = pollHash

/-- An answer without tokens. -/
def idleDeviceLogin (status : DeviceLoginStatus) : DeviceLoginStatusDto := { status }

/-- `approveDeviceLogin` -/
def approveDeviceLogin (approvingUserId : ℤ) : AuthTask Unit := do
  let found ← ask .findByChallengeId
  match found with
  | none => refuse .challengeNotFound
  | some challenge =>
    if challenge.status ≠ .pending then
      refuse .challengeNotFound
    else
      let now ← ask .now
      if challenge.expiresAt ≤ now then
        ask .remove
        refuse .challengeExpired
      else
        let user ← ask (.fetchIdentityUser approvingUserId)
        match user with
        | none => refuse .identityUnavailable
        | some user =>
          if !user.any (·.isActive) then
            refuse .accessDenied
          else
            let issued ← ask (.approve approvingUserId)
            match issued with
            | none => refuse .challengeNotFound
            | some issued =>
              -- committed; the secret follows on its own
              if issued.secret ≠ "" then
                ask (.store issued.secret challenge.expiresAt)

/-- What a poll hands out, the secret apart. -/
def resultOf (challenge : DeviceLoginChallenge) (owner : Option UserIdentity) :
    DeviceLoginStatusDto where
  status := .approved
  accessToken := challenge.accessToken
  refreshToken := challenge.refreshToken
  userId := owner.elim 0 (·.userId)
  name := owner.elim "" fun u => u.name ++ " " ++ u.lastName
  role := owner.elim .unknown (·.role)

/-- The owner of an approved challenge, if identity tells. -/
def ownerOf (challenge : DeviceLoginChallenge) : AuthTask (Option UserIdentity) :=
  match challenge.userId with
  | none => pure none
  | some userId => do
    let user ← ask (.fetchIdentityUser userId)
    pure user.join

/-- The end of a poll of an approved challenge. -/
def handOut (proof : String) (challenge : DeviceLoginChallenge) (owner : Option UserIdentity) :
    AuthTask DeviceLoginStatusDto := do
  let now ← ask .now
  let claimed ← ask (.claimApproved now)
  if claimed = false then
    pure (idleDeviceLogin .expired)
  else
    let deviceSecret ← ask (.take proof (resultOf challenge owner))
    ask .remove
    pure { resultOf challenge owner with deviceSecret }

/-- `pollDeviceLogin` -/
def pollDeviceLogin (proof : String) : AuthTask DeviceLoginStatusDto := do
  let found ← ask .findByChallengeId
  match found with
  | none => pure (idleDeviceLogin .expired)
  | some challenge =>
    let now ← ask .now
    if challenge.expiresAt ≤ now then
      ask .remove
      pure (idleDeviceLogin .expired)
    else if challenge.status = .expired then
      pure (idleDeviceLogin .expired)
    else if challenge.status ≠ .approved ∨
        pollerOwnsChallenge sha256Hex proof challenge.pollHash = false then
      pure (idleDeviceLogin .pending)
    else
      let owner ← ownerOf challenge
      if owner.any (!·.isActive) then
        ask .remove
        pure (idleDeviceLogin .expired)
      else
        handOut proof challenge owner

end AuthFeatureService

/-! ### Requests -/

/-- The requests on one challenge. -/
inductive Request where
  | approve (userId : ℤ)
  | poll (proof : String)
  deriving DecidableEq

open Auth.AuthFeatureService in
/-- What serves a request. -/
def program (sha256Hex : String → String) : Request → AuthTask Unit
  | .approve userId => approveDeviceLogin userId
  | .poll proof => do
    let _ ← pollDeviceLogin sha256Hex proof
    pure ()

/-- The service at work on one challenge. -/
abbrev Step (sha256Hex : String → String) (challengeId : String) :=
  @Pool.Step Db Note Op Outside Request Op.Ans (exec challengeId) (program sha256Hex)

/-- No request is being served. -/
def start (db : Db) : Pool Db Op Op.Ans := { shared := db, tasks := [] }

/-! ### What the requests rely on -/

section Handing

variable {sha256Hex : String → String} {challengeId pollHash : String}

/-- What an approved row of the challenge holds is what its approval issued. -/
structure Issuing (h : List Note) (c : DeviceLoginChallenge) : Prop where
  approved : c.status = .approved → ∃ issued, .approved issued ∈ h ∧
    c.accessToken = issued.accessToken ∧ c.refreshToken = issued.refreshToken

/-- What is handed out was asked for with a proof, and its tokens are those of an approval. -/
structure Entitled (sha256Hex : String → String) (pollHash : String) (h : List Note)
    (proof : String) (result : DeviceLoginStatusDto) : Prop where
  owns : AuthFeatureService.pollerOwnsChallenge sha256Hex proof pollHash = true
  tokens : ∃ issued, .approved issued ∈ h ∧ result.accessToken = issued.accessToken ∧
    result.refreshToken = issued.refreshToken

theorem Issuing.mono {h h' : List Note} {c : DeviceLoginChallenge} (hc : Issuing h c)
    (hh : h ⊆ h') : Issuing h' c :=
  ⟨fun hstatus => (hc.approved hstatus).imp fun _ h => ⟨hh h.1, h.2⟩⟩

theorem Entitled.mono {h h' : List Note} {proof : String} {result : DeviceLoginStatusDto}
    (hr : Entitled sha256Hex pollHash h proof result) (hh : h ⊆ h') :
    Entitled sha256Hex pollHash h' proof result :=
  ⟨hr.owns, hr.tokens.imp fun _ h => ⟨hh h.1, h.2⟩⟩

/-- What was noted so far, and the tables. -/
abbrev World := List Note × Db

/-- What has to be so before an operation. -/
def need (sha256Hex : String → String) (pollHash : String) (w : World) : Op → Prop
  | .store secret _ => ∃ issued, .approved issued ∈ w.1 ∧ issued.secret = secret
  | .take proof result => Entitled sha256Hex pollHash w.1 proof result
  | _ => True

/-- What the answer of an operation tells. -/
def fact (pollHash : String) (w : World) : (op : Op) → op.Ans → Prop
  | .findByChallengeId, found => ∀ c, found = some c → c.pollHash = pollHash ∧ Issuing w.1 c
  | .approve _, issued => ∀ i, issued = some i → .approved i ∈ w.1
  | _, _ => True

/-- A poll that claims the row may hand out once. -/
def terms (sha256Hex : String → String) (pollHash : String) : Terms World Op Op.Ans where
  future w w' := w.1 ⊆ w'.1
  refl w := List.Subset.refl _
  trans h h' := List.Subset.trans h h'
  need := need sha256Hex pollHash
  need_mono := by
    intro w w' op hw h
    cases op <;> first
      | exact h.imp fun _ hi => ⟨hw hi.1, hi.2⟩
      | exact Entitled.mono h hw
      | trivial
  fact := fact pollHash
  cost
    | .take _ _ => 1
    | _ => 0
  gain
    | .claimApproved _, claimed => if claimed then 1 else 0
    | _, _ => 0

open ArgusBackend.Task Auth.AuthFeatureService

variable {w : World}

theorem heeds_refuse {α : Type} {error : AuthError} {post : α → World → Prop} :
    (refuse error : AuthTask α).Heeds (terms sha256Hex pollHash) post w :=
  heeds_call trivial le_rfl fun _ _ _ _ => heeds_throw

theorem heeds_approveDeviceLogin {userId : ℤ} :
    (approveDeviceLogin userId).Heeds (terms sha256Hex pollHash) (fun _ _ => True) w := by
  refine heeds_call trivial le_rfl fun found _ _ _ => ?_
  split
  · exact heeds_refuse
  split
  · exact heeds_refuse
  refine heeds_call trivial le_rfl fun now _ _ _ => ?_
  split
  · exact heeds_call trivial le_rfl fun _ _ _ _ => heeds_refuse
  refine heeds_call trivial le_rfl fun user _ _ _ => ?_
  split
  · exact heeds_refuse
  split
  · exact heeds_refuse
  refine heeds_call trivial le_rfl fun issued w' _ hissued => ?_
  split
  · exact heeds_refuse
  · rename_i i
    split
    · exact heeds_last ⟨i, hissued i rfl, rfl⟩ le_rfl fun _ _ _ _ _ _ => trivial
    · exact heeds_pure fun _ _ => trivial

/-- A poll hands out only after it has claimed the row. -/
theorem heeds_handOut {proof : String} {challenge : DeviceLoginChallenge}
    {owner : Option UserIdentity}
    (hentitled : Entitled sha256Hex pollHash w.1 proof (resultOf challenge owner)) :
    (handOut proof challenge owner).Heeds (terms sha256Hex pollHash) (fun _ _ => True) w := by
  refine heeds_call trivial le_rfl fun now w₁ hw₁ _ => ?_
  refine heeds_call trivial le_rfl fun claimed w₂ hw₂ _ => ?_
  cases claimed with
  | false => exact heeds_pure fun _ _ => trivial
  | true =>
    refine heeds_call (k := 1) (hentitled.mono (List.Subset.trans hw₁ hw₂)) le_rfl
      fun secret _ _ _ => ?_
    exact heeds_call trivial le_rfl fun _ _ _ _ => heeds_pure fun _ _ => trivial

theorem heeds_pollDeviceLogin {proof : String} :
    (pollDeviceLogin sha256Hex proof).Heeds (terms sha256Hex pollHash) (fun _ _ => True) w := by
  refine heeds_call trivial le_rfl fun found w₁ _ hfound => ?_
  split
  · exact heeds_pure fun _ _ => trivial
  rename_i challenge
  obtain ⟨hhash, hissuing⟩ := hfound challenge rfl
  refine heeds_call trivial le_rfl fun now w₂ hw₂ _ => ?_
  split
  · exact heeds_call trivial le_rfl fun _ _ _ _ => heeds_pure fun _ _ => trivial
  split
  · exact heeds_pure fun _ _ => trivial
  split
  · exact heeds_pure fun _ _ => trivial
  rename_i hready
  simp only [not_or, not_not, Bool.not_eq_false] at hready
  refine heeds_bind (Q := fun _ _ => True) ?_ fun owner w₃ hw₃ _ => ?_
  · unfold ownerOf
    split
    · exact heeds_pure fun _ _ => trivial
    · exact heeds_call trivial le_rfl fun _ _ _ _ => heeds_pure fun _ _ => trivial
  split
  · exact heeds_call trivial le_rfl fun _ _ _ _ => heeds_pure fun _ _ => trivial
  · obtain ⟨issued, hissued, haccess, hrefresh⟩ := hissuing.approved hready.1
    exact heeds_handOut ⟨hhash ▸ hready.2, issued, hw₃ (hw₂ hissued), haccess, hrefresh⟩

theorem heeds_program (request : Request) :
    (program sha256Hex request).Heeds (terms sha256Hex pollHash) (fun _ _ => True) w := by
  cases request with
  | approve userId => exact heeds_approveDeviceLogin
  | poll proof => exact heeds_bind heeds_pollDeviceLogin fun _ _ _ _ => heeds_pure fun _ _ => trivial

end Handing

/-! ### What one operation does -/

/-- What the approvals issued. -/
def approvals (h : List Note) : List Issued :=
  h.filterMap fun
    | .approved issued => some issued
    | _ => none

/-- What the polls hand out. -/
def handings (h : List Note) : List DeviceLoginStatusDto :=
  h.filterMap fun
    | .handed _ result _ => some result
    | _ => none

theorem mem_approvals {h : List Note} {issued : Issued} :
    issued ∈ approvals h ↔ .approved issued ∈ h := by
  simp only [approvals, List.mem_filterMap]
  constructor
  · rintro ⟨n, hn, heq⟩
    cases n <;> simp only [Option.some.injEq, reduceCtorEq] at heq
    exact heq ▸ hn
  · exact fun hn => ⟨_, hn, rfl⟩

@[simp] theorem approvals_append (h h' : List Note) :
    approvals (h ++ h') = approvals h ++ approvals h' := List.filterMap_append

@[simp] theorem handings_append (h h' : List Note) :
    handings (h ++ h') = handings h ++ handings h' := List.filterMap_append

/-- What was handed out: entitled, and with the secret of an approval if there was one pending. -/
structure Handed (sha256Hex : String → String) (pollHash : String) (h : List Note) (proof : String)
    (result : DeviceLoginStatusDto) (stored : Bool) : Prop where
  entitled : Entitled sha256Hex pollHash h proof result
  secret : stored = true → ∃ issued, .approved issued ∈ h ∧ result.deviceSecret = issued.secret
  noSecret : stored = false → result.deviceSecret = ""

/-- What holds of the notes, the row, the pending secrets and the polls that have claimed the row
but not handed out yet. -/
structure Whole (sha256Hex : String → String) (challengeId pollHash : String) (h : List Note)
    (db : Db) (claiming : ℕ) : Prop where
  hash : ∀ c, db.challenge = some c → c.pollHash = pollHash
  issuing : ∀ c, db.challenge = some c → Issuing h c
  pending : ∀ c, db.challenge = some c → c.status = .pending → approvals h = []
  oneApproval : (approvals h).length ≤ 1
  unclaimed : ∀ c, db.challenge = some c → c.status ≠ .expired → h.count .claimed = 0
  oneClaim : h.count .claimed ≤ 1
  handedOnce : (handings h).length + claiming ≤ h.count .claimed
  stored : ∀ entry, db.secrets.lookup challengeId = some entry →
    ∃ issued, .approved issued ∈ h ∧ entry.secret = issued.secret
  handed : ∀ proof result stored, .handed proof result stored ∈ h →
    Handed sha256Hex pollHash h proof result stored

section Steps

variable {sha256Hex : String → String} {challengeId pollHash : String} {env : Outside}
  {h : List Note} {db : Db} {m : ℕ}

theorem Handed.mono {h h' : List Note} {proof : String} {result : DeviceLoginStatusDto}
    {stored : Bool} (hhanded : Handed sha256Hex pollHash h proof result stored) (hh : h ⊆ h') :
    Handed sha256Hex pollHash h' proof result stored :=
  ⟨hhanded.entitled.mono hh, fun hs => (hhanded.secret hs).imp fun _ hi => ⟨hh hi.1, hi.2⟩,
    hhanded.noSecret⟩

/-- Removing the row, or an operation without a trace. -/
theorem Whole.quiet {db' : Db} {extra : List Note}
    (hw : Whole sha256Hex challengeId pollHash h db m)
    (hchallenge : db'.challenge = db.challenge ∨ db'.challenge = none)
    (hsecrets : db'.secrets = db.secrets) (hextra : ∀ n ∈ extra, ∃ error, n = .refused error) :
    Whole sha256Hex challengeId pollHash (h ++ extra) db' m := by
  have hrow : ∀ c, db'.challenge = some c → db.challenge = some c := fun c hc => by
    rcases hchallenge with heq | heq <;> simp_all
  have happrovals : approvals extra = [] := List.filterMap_eq_nil_iff.2 fun n hn => by
    obtain ⟨error, rfl⟩ := hextra n hn
    rfl
  have hhandings : handings extra = [] := List.filterMap_eq_nil_iff.2 fun n hn => by
    obtain ⟨error, rfl⟩ := hextra n hn
    rfl
  have hclaims : extra.count .claimed = 0 := List.count_eq_zero.2 fun hn => by
    obtain ⟨error, herror⟩ := hextra _ hn
    cases herror
  have hsub : h ⊆ h ++ extra := List.subset_append_left _ _
  refine ⟨fun c hc => hw.hash c (hrow c hc), fun c hc => (hw.issuing c (hrow c hc)).mono hsub,
    fun c hc hp => ?_, ?_, fun c hc he => ?_, ?_, ?_, fun entry he => ?_, fun proof result st hn => ?_⟩
  · simpa [happrovals] using hw.pending c (hrow c hc) hp
  · simpa [happrovals] using hw.oneApproval
  · simpa [hclaims] using hw.unclaimed c (hrow c hc) he
  · simpa [hclaims] using hw.oneClaim
  · simpa [hhandings, hclaims] using hw.handedOnce
  · rw [hsecrets] at he
    exact (hw.stored entry he).imp fun _ hi => ⟨hsub hi.1, hi.2⟩
  · rcases List.mem_append.1 hn with hn | hn
    · exact (hw.handed proof result st hn).mono hsub
    · obtain ⟨error, herror⟩ := hextra _ hn
      cases herror

theorem Whole.approve {userId : ℤ} (hw : Whole sha256Hex challengeId pollHash h db m) :
    Whole sha256Hex challengeId pollHash (h ++ notes challengeId env db (.approve userId))
      (effect challengeId env db (.approve userId)) m := by
  rcases hissued : issuedBy env db userId with _ | ⟨c, issued⟩
  · simp only [notes, effect, hissued]
    exact hw.quiet (.inl rfl) rfl (by simp)
  · -- the row was pending, so this is the first approval
    obtain ⟨hc, hpending⟩ : db.challenge = some c ∧ c.status = .pending := by
      unfold issuedBy at hissued
      split at hissued
      · cases hissued
      · split_ifs at hissued with hstatus
        obtain ⟨rfl, -⟩ := Prod.mk.inj (Option.some.inj hissued)
        exact ⟨‹_›, hstatus⟩
    have hnone := hw.pending c hc hpending
    have hnotes : notes challengeId env db (.approve userId) = [.approved issued] := by
      simp [notes, hissued]
    have hsub : h ⊆ h ++ [.approved issued] := List.subset_append_left _ _
    have hmem : Note.approved issued ∈ h ++ [.approved issued] := by simp
    have hclaims : (h ++ [Note.approved issued]).count .claimed = h.count .claimed := by simp
    simp only [hnotes, effect, hissued]
    refine ⟨fun c' hc' => ?_, fun c' hc' => ?_, fun c' hc' hp => ?_, ?_, fun c' hc' he => ?_, ?_, ?_,
      fun entry he => ?_, fun proof result st hn => ?_⟩
    · obtain rfl := Option.some.inj hc'
      exact hw.hash c hc
    · obtain rfl := Option.some.inj hc'
      exact ⟨fun _ => ⟨issued, hmem, rfl, rfl⟩⟩
    · obtain rfl := Option.some.inj hc'
      cases hp
    · rw [approvals_append, hnone]
      simp [approvals]
    · rw [hclaims]
      exact hw.unclaimed c hc (by simp [hpending])
    · rw [hclaims]
      exact hw.oneClaim
    · rw [hclaims]
      simpa [handings] using hw.handedOnce
    · exact (hw.stored entry he).imp fun _ hi => ⟨hsub hi.1, hi.2⟩
    · exact (hw.handed proof result st (by simpa using hn)).mono hsub

theorem Whole.claim {now : ℤ} (hw : Whole sha256Hex challengeId pollHash h db m) :
    Whole sha256Hex challengeId pollHash (h ++ notes challengeId env db (.claimApproved now))
      (effect challengeId env db (.claimApproved now)) (m + if claimable db now then 1 else 0) := by
  by_cases hclaim : claimable db now
  · -- the row was approved and not claimed yet, and can never be claimed again
    obtain ⟨c, hc, happroved⟩ : ∃ c, db.challenge = some c ∧ c.status = .approved := by
      obtain ⟨c, hc, hready⟩ := (Option.any_eq_true _ _).1 hclaim
      simp only [Bool.and_eq_true, decide_eq_true_eq] at hready
      exact ⟨c, hc, hready.1⟩
    have hzero := hw.unclaimed c hc (by simp [happroved])
    have hsub : h ⊆ h ++ [.claimed] := List.subset_append_left _ _
    simp only [notes, effect, hclaim, if_true, hc, Option.map_some]
    refine ⟨fun c' hc' => ?_, fun c' hc' => ?_, fun c' hc' hp => ?_, ?_, fun c' hc' he => ?_, ?_, ?_,
      fun entry he => ?_, fun proof result st hn => ?_⟩
    · obtain rfl := Option.some.inj hc'
      exact hw.hash c hc
    · obtain rfl := Option.some.inj hc'
      exact ⟨fun hstatus => by cases hstatus⟩
    · obtain rfl := Option.some.inj hc'
      cases hp
    · simpa [approvals] using hw.oneApproval
    · obtain rfl := Option.some.inj hc'
      exact absurd rfl he
    · simp [hzero]
    · have := hw.handedOnce
      simp only [handings_append, List.length_append, List.count_append, List.count_singleton_self]
      simp only [handings] at this ⊢
      simp only [List.filterMap_cons, List.filterMap_nil, List.length_nil]
      omega
    · exact (hw.stored entry he).imp fun _ hi => ⟨hsub hi.1, hi.2⟩
    · exact (hw.handed proof result st (by simpa using hn)).mono hsub
  · simp only [notes, effect, hclaim, if_false, Bool.false_eq_true]
    exact hw.quiet (.inl rfl) rfl (by simp)

theorem Whole.take {proof : String} {result : DeviceLoginStatusDto}
    (hw : Whole sha256Hex challengeId pollHash h db (m + 1))
    (hentitled : Entitled sha256Hex pollHash h proof result) :
    Whole sha256Hex challengeId pollHash (h ++ notes challengeId env db (.take proof result))
      (effect challengeId env db (.take proof result)) m := by
  simp only [notes, effect]
  generalize hnote : Note.handed proof
    { result with deviceSecret := (db.secrets.lookup challengeId).elim "" (·.secret) }
    (db.secrets.lookup challengeId).isSome = note
  have hsub : h ⊆ h ++ [note] := List.subset_append_left _ _
  have hclaims : (h ++ [note]).count .claimed = h.count .claimed := by simp [← hnote]
  have happrovals : approvals (h ++ [note]) = approvals h := by simp [← hnote, approvals]
  refine ⟨hw.hash, fun c hc => (hw.issuing c hc).mono hsub, fun c hc hp => ?_, ?_,
    fun c hc he => ?_, ?_, ?_, fun entry he => ?_, fun proof' result' st hn => ?_⟩
  · rw [happrovals]
    exact hw.pending c hc hp
  · rw [happrovals]
    exact hw.oneApproval
  · rw [hclaims]
    exact hw.unclaimed c hc he
  · rw [hclaims]
    exact hw.oneClaim
  · have hlength : (handings (h ++ [note])).length = (handings h).length + 1 := by
      simp [← hnote, handings]
    have := hw.handedOnce
    omega
  · simp [AList.lookup_erase] at he
  · rcases List.mem_append.1 hn with hn | hn
    · exact (hw.handed proof' result' st hn).mono hsub
    · -- what the map held for the challenge is the secret of an approval
      obtain ⟨rfl, rfl, rfl⟩ := Note.handed.inj ((List.mem_singleton.1 hn).trans hnote.symm)
      refine ⟨⟨hentitled.owns, hentitled.mono hsub |>.tokens⟩, fun hst => ?_, fun hst => ?_⟩
      · obtain ⟨entry, hentry⟩ := Option.isSome_iff_exists.1 hst
        obtain ⟨issued, hissued, hsecret⟩ := hw.stored entry hentry
        exact ⟨issued, hsub hissued, by simp [hentry, hsecret]⟩
      · simp [Option.isSome_eq_false_iff.1 hst |> Option.isNone_iff_eq_none.1]

theorem Whole.store {secret : String} {expiresAt now : ℤ}
    (hw : Whole sha256Hex challengeId pollHash h db m)
    (hissued : ∃ issued, .approved issued ∈ h ∧ issued.secret = secret) :
    Whole sha256Hex challengeId pollHash h (db.store challengeId secret expiresAt now) m := by
  refine { hw with stored := fun entry he => ?_ }
  obtain ⟨issued, hmem, rfl⟩ := hissued
  simp only [Db.store, AList.lookup_insert, Option.some.injEq] at he
  exact ⟨issued, hmem, by rw [← he]⟩

theorem whole_exec (op : Op)
    (hw : Whole sha256Hex challengeId pollHash h db (m + (terms sha256Hex pollHash).cost op))
    (hneed : need sha256Hex pollHash (h, db) op) :
    Whole sha256Hex challengeId pollHash (h ++ notes challengeId env db op)
      (effect challengeId env db op)
      (m + (terms sha256Hex pollHash).gain op (answer challengeId env db op)) := by
  cases op with
  | approve userId => exact hw.approve
  | claimApproved now => exact hw.claim
  | take proof result => exact hw.take hneed
  | store secret expiresAt =>
    rw [show notes challengeId env db (.store secret expiresAt) = [] from rfl, List.append_nil]
    exact hw.store hneed
  | remove => exact hw.quiet (.inr rfl) rfl (by simp [notes])
  | refuse error => exact hw.quiet (.inl rfl) rfl (by simp [notes])
  | _ => exact hw.quiet (.inl rfl) rfl (by simp [notes])

theorem fact_exec (op : Op) (hw : Whole sha256Hex challengeId pollHash h db m) :
    fact pollHash (h ++ notes challengeId env db op, effect challengeId env db op) op
      (answer challengeId env db op) := by
  cases op with
  | findByChallengeId =>
    exact fun c hc => ⟨hw.hash c hc, (hw.issuing c hc).mono (List.subset_append_left _ _)⟩
  | approve userId =>
    intro i hi
    obtain ⟨p, hp, rfl⟩ := Option.map_eq_some_iff.1 hi
    simp [notes, hp]
  | _ => trivial

end Steps

/-! ### Runs -/

theorem whole_start {sha256Hex : String → String} {challengeId : String}
    {challenge : DeviceLoginChallenge} {secrets : Table String Entry}
    (hpending : challenge.status = .pending) (hfresh : secrets.lookup challengeId = none) :
    Whole sha256Hex challengeId challenge.pollHash [] ⟨some challenge, secrets⟩ 0 := by
  refine ⟨fun c hc => Option.some.inj hc ▸ rfl, fun c hc => ⟨fun hstatus => ?_⟩, fun _ _ _ => rfl,
    Nat.zero_le _, fun _ _ _ => rfl, Nat.zero_le _, le_rfl, fun entry he => ?_, by simp⟩
  · rw [← Option.some.inj hc, hpending] at hstatus
    cases hstatus
  · rw [hfresh] at he
    cases he

/-- **What a device login hands out, over every interleaving** of approvals and polls of a challenge
that starts pending: once at most, by one approval at most, to a poll that proves it owns the
challenge, with the tokens of the approval; and the secret of its credential is with them exactly
if the approval had put it where the poll takes it from. -/
theorem device_login_whole {sha256Hex : String → String} {challengeId : String}
    {challenge : DeviceLoginChallenge} {secrets : Table String Entry} {h : List Note}
    {p : Pool Db Op Op.Ans} (hpending : challenge.status = .pending)
    (hfresh : secrets.lookup challengeId = none)
    (hrun : Run (Step sha256Hex challengeId) (start ⟨some challenge, secrets⟩) h p) :
    (handings h).length ≤ 1 ∧ (approvals h).length ≤ 1 ∧
      ∀ proof result stored, .handed proof result stored ∈ h →
        AuthFeatureService.pollerOwnsChallenge sha256Hex proof challenge.pollHash = true ∧
        ∃ issued, .approved issued ∈ h ∧ result.accessToken = issued.accessToken ∧
          result.refreshToken = issued.refreshToken ∧
          (result.deviceSecret = issued.secret ↔ issued.secret = "" ∨ stored = true) := by
  obtain ⟨m, hw⟩ := Pool.invariant_of_heeds (T := terms sha256Hex challenge.pollHash)
    (J := Whole sha256Hex challengeId challenge.pollHash) hrun (whole_start hpending hfresh)
    (fun h db m env op hw hneed =>
      ⟨whole_exec op hw hneed, fact_exec op hw, List.subset_append_left _ _⟩)
    fun request w => heeds_program request
  refine ⟨?_, hw.oneApproval, fun proof result stored hhanded => ?_⟩
  · have := hw.handedOnce
    have := hw.oneClaim
    omega
  · obtain ⟨⟨howns, issued, hissued, haccess, hrefresh⟩, hsecret, hnone⟩ :=
      hw.handed proof result stored hhanded
    refine ⟨howns, issued, hissued, haccess, hrefresh, ?_⟩
    cases stored with
    | true =>
      -- there is but one approval, so the secret that was pending is its secret
      obtain ⟨issued', hissued', heq⟩ := hsecret rfl
      have hsame : issued' = issued := by
        obtain ⟨i, hi⟩ := List.length_eq_one_iff.1 (le_antisymm hw.oneApproval
          (List.length_pos_of_mem (mem_approvals.2 hissued)))
        have h₁ := mem_approvals.2 hissued
        have h₂ := mem_approvals.2 hissued'
        rw [hi, List.mem_singleton] at h₁ h₂
        rw [h₁, h₂]
      simp [heq, hsame]
    | false =>
      rw [hnone rfl]
      exact ⟨fun h => .inl h.symm, fun h => h.elim Eq.symm fun h => nomatch h⟩

section Examples

/-- A challenge that nobody has approved. -/
def fresh : DeviceLoginChallenge := { challengeId := "c", expiresAt := 120, pollHash := "p" }

/-- An active user approves, and the credential has a secret. -/
def outside : Outside where
  now := 1
  user := some (some ⟨7, "Ana", "Vega", .owner, true⟩)
  accessToken := "a"
  refreshToken := "r"
  secret := "k"

/-- One task takes some steps. -/
def steps (task n : ℕ) : List (Event Outside Request) := List.replicate n (.run task outside)

/-- The poll comes after the approval has finished. -/
def afterwards : List (Event Outside Request) :=
  .spawn (.approve 7) :: steps 0 5 ++ .spawn (.poll "p") :: steps 1 7

/-- The poll comes between the commit of the approval and the store of the secret. -/
def between : List (Event Outside Request) :=
  .spawn (.approve 7) :: steps 0 4 ++ .spawn (.poll "p") :: steps 1 7

theorem device_login_whole_afterwards : ∃ h p, Run (Step id "c") (start ⟨some fresh, ∅⟩) h p ∧
    ∃ result, .handed "p" result true ∈ h ∧ (handings h).length ≤ 1 ∧
      ∃ issued, .approved issued ∈ h ∧ result.deviceSecret = issued.secret := by
  obtain ⟨⟨p, h⟩, hplay, hfacts⟩ := Option.any_eq_true _ _ |>.1
    (show ((Pool.replay (exec "c") (program id) (start ⟨some fresh, ∅⟩) [] afterwards).any fun r =>
      decide (.handed "p" ⟨.approved, "a", "r", "k", 7, "Ana Vega", .owner⟩ true ∈ r.2)) = true
      from by decide)
  have hhanded := of_decide_eq_true hfacts
  have hrun := Pool.run_of_replay .start hplay
  obtain ⟨hone, -, hall⟩ := device_login_whole (by decide) (by decide) hrun
  obtain ⟨-, issued, hissued, -, -, hsecret⟩ := hall _ _ _ hhanded
  exact ⟨h, p, hrun, _, hhanded, hone, issued, hissued, hsecret.2 (.inr rfl)⟩

/-- The tokens are handed out and the secret of the credential is lost. -/
theorem secret_left_behind : ¬∀ (sha256Hex : String → String) (challengeId : String)
    (challenge : DeviceLoginChallenge) (h : List Note) (p : Pool Db Op Op.Ans),
    challenge.status = .pending →
      Run (Step sha256Hex challengeId) (start ⟨some challenge, ∅⟩) h p →
        ∀ proof result stored issued, .handed proof result stored ∈ h → .approved issued ∈ h →
          issued.secret ≠ "" → result.deviceSecret = issued.secret := by
  intro hall
  obtain ⟨⟨p, h⟩, hplay, hfacts⟩ := Option.any_eq_true _ _ |>.1
    (show ((Pool.replay (exec "c") (program id) (start ⟨some fresh, ∅⟩) [] between).any fun r =>
      decide (.handed "p" ⟨.approved, "a", "r", "", 7, "Ana Vega", .owner⟩ false ∈ r.2) &&
        decide (.approved ⟨7, "a", "r", "k"⟩ ∈ r.2)) = true from by decide)
  simp only [Bool.and_eq_true, decide_eq_true_eq] at hfacts
  have hlost := hall id "c" fresh h p rfl (Pool.run_of_replay .start hplay) _ _ _ _ hfacts.1
    hfacts.2 (by decide)
  exact absurd hlost (by decide)

end Examples

end Auth

end ArgusBackend
