import ArgusBackend.Download.Transfer
import ArgusBackend.Library.Budgets
import Mathlib.Tactic.Ring

/-!
# Every download ends

Whatever the server and the disk answer, a run only fetches so often.  Every round of `fetchAll`
brings bytes, or it uses up a try, a re-resolve or a restart; bytes bring back the tries and the
re-resolves, and a restart brings back the bytes.

* `Step.After` : what one round can do;
* `left` : the rounds that may still come;
* `download_ends` : the run ends, inside the file, exactly when no range runs over 64 bits.
-/

namespace ArgusBackend

namespace Download

/-- A fetch costs one. -/
def fetches : Op → ℕ
  | .fetch _ _ _ => 1
  | _ => 0

/-- A range lies inside the file, and so do the bytes that are recorded. -/
def InFile (req : DownloadRequest) : Op → Prop
  | .fetch _ first last => first ≤ last ∧ last < req.expectedSize
  | .writeSidecar sidecar => sidecar.bytes ≤ req.expectedSize
  | _ => True

/-- What one round can do. -/
def Step.After (req : DownloadRequest) (t : Transfer) : Step → Prop
  | .advanced t' =>
    t.present < t'.present ∧ t'.present ≤ req.expectedSize ∧ t'.restarts = t.restarts
  | .again t' =>
    (t'.present = t.present ∧ t'.restarts = t.restarts ∧ t'.reResolves = t.reResolves + 1 ∧
        t'.reResolves ≤ req.policy.maxReResolves) ∨
      (t'.present = 0 ∧ t'.reResolves = t.reResolves ∧ t'.restarts = t.restarts + 1 ∧
        t'.restarts ≤ req.policy.maxAttempts)
  | .retry _ t' =>
    t'.present = t.present ∧ t'.restarts = t.restarts ∧ t'.reResolves = t.reResolves
  | .stop _ t' => t'.present ≤ req.expectedSize

/-- What is left of a body that was appended. -/
def Step.Appended (req : DownloadRequest) (t : Transfer) (length : ℕ) : Step → Prop
  | .advanced t' => t'.present = t.present + length ∧ t'.restarts = t.restarts
  | .stop _ t' => t'.present ≤ req.expectedSize
  | _ => False

section Steps

variable {tools : Tools} {req : DownloadRequest} {fd : ℕ} {t : Transfer} {url : String}
  {response : ChunkResponse} {n last : ℕ}

variable {P : Op → Prop} (hP : ∀ op, fetches op = 0 → InFile req op → P op)

include hP

theorem within_removeSidecar :
    removeSidecar.Affords fetches P (fun _ m => m = n) n :=
  Task.affords_free (hP _ rfl trivial) rfl fun _ => ⟨hP _ rfl trivial, Nat.zero_le n, fun _ => rfl⟩

theorem within_discard :
    (discard fd t).Affords fetches P (fun t' m => t'.present = 0 ∧ m = n) n := by
  refine Task.affords_free (hP _ rfl trivial) rfl fun _ => Task.affords_free (hP _ rfl trivial) rfl fun _ => ?_
  refine Task.affords_bind ((within_removeSidecar hP).mono ?_)
  rintro _ m rfl
  exact Task.affords_pure ⟨rfl, rfl⟩

theorem within_saveSidecar (ht : t.present ≤ req.expectedSize) :
    (saveSidecar req t).Affords fetches P (fun _ m => m = n) n := by
  refine Task.affords_free (hP _ rfl ht) rfl fun written => Task.affords_ite (fun _ => ?_) fun _ => ?_
  · exact ⟨hP _ rfl trivial, Nat.zero_le n, fun _ => rfl⟩
  · exact Task.affords_pure rfl

omit hP in
theorem within_stop {outcome : Outcome} {t₀ : Transfer} (ht : t.present ≤ req.expectedSize) :
    (pure (.stop outcome t) : DownloadTask Step).Affords fetches P
      (fun step m => step.After req t₀ ∧ m = n) n :=
  Task.affords_pure ⟨ht, rfl⟩

theorem within_discard_stop {outcome : Outcome} {t₀ : Transfer} :
    (do
      let t ← discard fd t
      pure (.stop outcome t) : DownloadTask Step).Affords fetches P
        (fun step m => step.After req t₀ ∧ m = n) n := by
  refine Task.affords_bind ((within_discard hP).mono ?_)
  rintro t' m ⟨ht', rfl⟩
  exact within_stop (ht' ▸ Nat.zero_le _)

theorem within_append (body : Bytes) (ht : t.present + body.length ≤ req.expectedSize) :
    (append req fd t url body).Affords fetches P
      (fun step m => step.Appended req t body.length ∧ m = n) n := by
  have hpresent : t.present ≤ req.expectedSize := by omega
  refine Task.affords_free (hP _ rfl trivial) rfl fun written => Task.affords_ite (fun _ => ?_) fun _ => ?_
  · refine Task.affords_free (hP _ rfl trivial) rfl fun synced => Task.affords_ite (fun _ => ?_) fun _ => ?_
    · refine Task.affords_bind (Task.Affords.mono (within_saveSidecar hP ht) ?_)
      rintro saved m rfl
      refine Task.affords_ite (fun _ => ?_) fun _ => ?_
      · exact Task.affords_pure ⟨⟨rfl, rfl⟩, rfl⟩
      · exact Task.affords_pure ⟨ht, rfl⟩
    · exact Task.affords_pure ⟨hpresent, rfl⟩
  · exact Task.affords_pure ⟨hpresent, rfl⟩

/-- Bytes that fit are an advance. -/
theorem within_advance {t₀ : Transfer} (body : Bytes)
    (ht : t.present + body.length ≤ req.expectedSize) (hmore : t₀.present < t.present + body.length)
    (hrestarts : t.restarts = t₀.restarts) :
    (append req fd t url body).Affords fetches P
      (fun step m => step.After req t₀ ∧ m = n) n := by
  refine (within_append hP body ht).mono ?_
  rintro step m ⟨hstep, rfl⟩
  refine ⟨?_, rfl⟩
  cases step with
  | advanced t' =>
    obtain ⟨hpresent, hsame⟩ := hstep
    exact ⟨hpresent ▸ hmore, hpresent ▸ ht, hsame.trans hrestarts⟩
  | stop outcome t' => exact hstep
  | again t' => exact hstep.elim
  | retry outcome t' => exact hstep.elim

theorem within_restart (ht : t.present ≤ req.expectedSize) (etag : String) :
    (restartForNewSource req fd t etag).Affords fetches P
      (fun step m => step.After req t ∧ m = n) n := by
  refine Task.affords_ite (fun _ => within_stop ht) fun hrestarts => ?_
  refine Task.affords_free (hP _ rfl trivial) rfl fun cut => Task.affords_ite (fun _ => ?_) fun _ => ?_
  · refine Task.affords_bind (Task.Affords.mono (within_saveSidecar hP (Nat.zero_le _)) ?_)
    rintro saved m rfl
    refine Task.affords_ite (fun _ => ?_) fun _ => within_stop (Nat.zero_le _)
    exact Task.affords_pure ⟨.inr ⟨rfl, rfl, rfl, not_lt.1 hrestarts⟩, rfl⟩
  · exact within_stop ht

theorem within_acceptPartial (ht : t.present ≤ req.expectedSize) (hlast : last < req.expectedSize) :
    (acceptPartial req fd t url last response).Affords fetches P
      (fun step m => step.After req t ∧ m = n) n := by
  unfold acceptPartial
  cases response.contentRange with
  | none => exact within_stop ht
  | some range =>
    refine Task.affords_ite (fun _ => within_discard_stop hP) fun _ => ?_
    refine Task.affords_ite (fun _ => Task.affords_pure ⟨⟨rfl, rfl, rfl⟩, rfl⟩) fun hrange => ?_
    refine Task.affords_ite (fun _ => within_restart hP ht response.etag) fun _ => ?_
    have hordered := range.ordered
    simp only [not_or, not_not, not_lt] at hrange
    obtain ⟨hfirst, hle, hlength⟩ := hrange
    refine within_advance hP response.body ?_ ?_ rfl
    · simp only
      omega
    · simp only
      omega

theorem within_acceptWhole (ht : t.present < req.expectedSize) :
    (acceptWhole req fd t url response).Affords fetches P
      (fun step m => step.After req t ∧ m = n) n := by
  refine Task.affords_ite (fun _ => within_stop ht.le) fun _ => ?_
  refine Task.affords_ite (fun _ => within_discard_stop hP) fun hover => ?_
  refine Task.affords_ite (fun _ => within_discard_stop hP) fun hshort => ?_
  refine Task.affords_free (hP _ rfl trivial) rfl fun cut => ?_
  refine Task.affords_ite (fun _ => ?_) fun _ => within_stop ht.le
  refine within_advance hP response.body ?_ ?_ rfl
  · simp only
    omega
  · simp only
    omega

theorem within_classify (ht : t.present < req.expectedSize) (hlast : last < req.expectedSize) :
    (classify req fd t url last response).Affords fetches P
      (fun step m => step.After req t ∧ m = n) n := by
  refine Task.affords_ite (fun _ => within_acceptPartial hP ht.le hlast) fun _ => ?_
  refine Task.affords_ite (fun _ => within_acceptWhole hP ht) fun _ => ?_
  refine Task.affords_ite (fun _ => ?_) fun _ => ?_
  · refine Task.affords_ite (fun _ => within_stop ht.le) fun hresolves => ?_
    exact Task.affords_pure ⟨.inl ⟨rfl, rfl, rfl, not_lt.1 hresolves⟩, rfl⟩
  refine Task.affords_ite (fun _ => within_discard_stop hP) fun _ => ?_
  refine Task.affords_ite (fun _ => ?_) fun _ => within_stop ht.le
  exact Task.affords_pure ⟨⟨rfl, rfl, rfl⟩, rfl⟩

omit hP in
/-- The range that is asked for, when it does not run over 64 bits. -/
theorem lastOf_eq (hfit : req.expectedSize + req.policy.chunkBytes ≤ 2 ^ 64)
    (hchunk : 0 < req.policy.chunkBytes) (ht : t.present < req.expectedSize) :
    t.present ≤ lastOf req t ∧ lastOf req t < req.expectedSize := by
  have hsum : (t.present + req.policy.chunkBytes) % 2 ^ 64 = t.present + req.policy.chunkBytes :=
    Nat.mod_eq_of_lt (by omega)
  rw [lastOf, hsum]
  omega

/-- One fetch for each hop. -/
theorem within_fetchFrom (hfit : req.expectedSize + req.policy.chunkBytes ≤ 2 ^ 64)
    (hchunk : 0 < req.policy.chunkBytes) (ht : t.present < req.expectedSize)
    (hfetch : ∀ url, P (.fetch url t.present (lastOf req t))) (url : String) (hops : ℕ) : (fetchFrom tools req fd t url hops).Affords fetches P
      (fun step m => step.After req t ∧ n ≤ m) (n + hops + 1) := by
  have hrange := lastOf_eq hfit hchunk ht
  have hreceive (url : String) (response : ChunkResponse) (follow : String → DownloadTask Step)
      (k : ℕ) (hfollow : ∀ location, (follow location).Affords fetches P
        (fun step m => step.After req t ∧ n ≤ m) (n + k)) :
      (receive req fd t url response follow).Affords fetches P
        (fun step m => step.After req t ∧ n ≤ m) (n + k) := by
    have hweak (task : DownloadTask Step)
        (h : task.Affords fetches P (fun step m => step.After req t ∧ m = n + k) (n + k)) :
        task.Affords fetches P (fun step m => step.After req t ∧ n ≤ m) (n + k) :=
      h.mono fun step m h => ⟨h.1, h.2 ▸ Nat.le_add_right n k⟩
    unfold receive
    split
    · exact hweak _ (within_stop ht.le)
    · exact hweak _ (within_stop ht.le)
    · exact hweak _ (within_stop ht.le)
    · exact hweak _ (Task.affords_pure ⟨⟨rfl, rfl, rfl⟩, rfl⟩)
    · exact hweak _ (Task.affords_pure ⟨⟨rfl, rfl, rfl⟩, rfl⟩)
    · refine Task.affords_ite (fun _ => hfollow response.location) fun _ => ?_
      exact hweak _ (within_classify hP ht hrange.2)
  induction hops generalizing url with
  | zero =>
    refine Task.affords_call (hfetch url) (Nat.succ_le_succ (Nat.zero_le _)) fun response => ?_
    refine hreceive url response _ 0 fun location => ?_
    exact Task.affords_pure ⟨ht.le, le_rfl⟩
  | succ hops ih =>
    refine Task.affords_call (hfetch url) (Nat.succ_le_succ (Nat.zero_le _)) fun response => ?_
    refine hreceive url response _ (hops + 1) fun location => ?_
    split
    next => exact Task.affords_pure ⟨ht.le, Nat.le_add_right n (hops + 1)⟩
    next next _ => exact ih next

omit hP

/-! ### The rounds -/

/-- The rounds that may still come. -/
def left (req : DownloadRequest) (failures : ℕ) (t : Transfer) : ℕ :=
  let tries := req.policy.maxAttempts + req.policy.maxReResolves
  (req.policy.maxAttempts - t.restarts) * (req.expectedSize * tries + 1) +
    (req.expectedSize - t.present) * tries + (req.policy.maxAttempts - 1 - failures) +
    (req.policy.maxReResolves - t.reResolves) + 1

/-- What the counters are while a run fetches. -/
structure Counts (req : DownloadRequest) (failures : ℕ) (t : Transfer) : Prop where
  present : t.present ≤ req.expectedSize
  failures : failures < req.policy.maxAttempts
  restarts : t.restarts ≤ req.policy.maxAttempts
  reResolves : t.reResolves ≤ req.policy.maxReResolves

variable {t' : Transfer} {failures : ℕ} {outcome : Outcome}

theorem left_advanced (hcounts : Counts req failures t) (hstep : (Step.advanced t').After req t) :
    Counts req 0 { t' with reResolves := 0 } ∧
      left req 0 { t' with reResolves := 0 } < left req failures t := by
  obtain ⟨hmore, hpresent, hrestarts⟩ := hstep
  obtain ⟨hpresent₀, hfailures, hrestarts₀, hreResolves⟩ := hcounts
  refine ⟨⟨hpresent, by omega, hrestarts ▸ hrestarts₀, Nat.zero_le _⟩, ?_⟩
  have hbytes : (req.expectedSize - t'.present + 1) *
      (req.policy.maxAttempts + req.policy.maxReResolves) ≤
      (req.expectedSize - t.present) * (req.policy.maxAttempts + req.policy.maxReResolves) :=
    Nat.mul_le_mul_right _ (by omega)
  rw [Nat.add_mul, Nat.one_mul] at hbytes
  simp only [left, hrestarts]
  omega

theorem left_again (hcounts : Counts req failures t) (hstep : (Step.again t').After req t) :
    Counts req failures t' ∧ left req failures t' < left req failures t := by
  obtain ⟨hpresent₀, hfailures, hrestarts₀, hreResolves₀⟩ := hcounts
  rcases hstep with ⟨hpresent, hrestarts, hreResolves, hle⟩ | ⟨hpresent, hreResolves, hrestarts, hle⟩
  · refine ⟨⟨hpresent ▸ hpresent₀, hfailures, hrestarts ▸ hrestarts₀, hle⟩, ?_⟩
    simp only [left, hpresent, hrestarts]
    omega
  · refine ⟨⟨hpresent ▸ Nat.zero_le _, hfailures, hle, hreResolves ▸ hreResolves₀⟩, ?_⟩
    -- the restart pays for all bytes once more
    have hone : req.policy.maxAttempts - t.restarts = req.policy.maxAttempts - t'.restarts + 1 := by
      omega
    simp only [left, hone, hpresent, hreResolves, Nat.add_mul, Nat.one_mul, Nat.sub_zero]
    omega

theorem left_retry (hcounts : Counts req failures t)
    (hstep : (Step.retry outcome t').After req t)
    (htries : ¬req.policy.maxAttempts ≤ failures + 1) :
    Counts req (failures + 1) t' ∧ left req (failures + 1) t' < left req failures t := by
  obtain ⟨hpresent, hrestarts, hreResolves⟩ := hstep
  obtain ⟨hpresent₀, hfailures, hrestarts₀, hreResolves₀⟩ := hcounts
  refine ⟨⟨hpresent ▸ hpresent₀, by omega, hrestarts ▸ hrestarts₀, hreResolves ▸ hreResolves₀⟩, ?_⟩
  simp only [left, hpresent, hrestarts, hreResolves]
  omega

/-- The bytes of the file are there, or the run has ended otherwise. -/
def Landed (req : DownloadRequest) (result : Option Outcome × Transfer) : Prop :=
  result.2.present ≤ req.expectedSize ∧
    (result.1 = none → result.2.present = req.expectedSize)

theorem within_fetchAll (hfit : req.expectedSize + req.policy.chunkBytes ≤ 2 ^ 64)
    (hchunk : 0 < req.policy.chunkBytes) (rounds : ℕ) (hcounts : Counts req failures t)
    (hrounds : left req failures t < rounds)
    (hn : (req.policy.maxRedirects + 1) * left req failures t ≤ n) :
    (fetchAll tools req fd failures t rounds).Affords fetches (InFile req)
      (fun result _ => Landed req result) n := by
  induction rounds generalizing failures t n with
  | zero => exact absurd hrounds (Nat.not_lt_zero _)
  | succ rounds ih =>
    have hnext {failures' : ℕ} {t' : Transfer} {m : ℕ} (hcounts' : Counts req failures' t')
        (hleft : left req failures' t' < left req failures t)
        (hm : n - (req.policy.maxRedirects + 1) ≤ m) :
        (fetchAll tools req fd failures' t' rounds).Affords fetches (InFile req)
          (fun result _ => Landed req result) m := by
      refine ih hcounts' (by omega) ?_
      have hmul := Nat.mul_le_mul_left (req.policy.maxRedirects + 1) (Nat.succ_le_of_lt hleft)
      rw [Nat.mul_succ] at hmul
      omega
    have hcost : req.policy.maxRedirects + 1 ≤ n := by
      have hmul := Nat.mul_le_mul_left (req.policy.maxRedirects + 1)
        (show 1 ≤ left req failures t from Nat.le_add_left 1 _)
      omega
    refine Task.affords_ite (fun hmore => ?_) fun hfull => ?_
    · refine Task.affords_free trivial rfl fun isCancelled => ?_
      refine Task.affords_ite (fun _ => Task.affords_pure ⟨hcounts.present, fun h => nomatch h⟩)
        fun _ => ?_
      have hfetch : (fetchNext tools req fd t).Affords fetches (InFile req)
          (fun step m => step.After req t ∧ n - (req.policy.maxRedirects + 1) ≤ m)
          (n - (req.policy.maxRedirects + 1) + req.policy.maxRedirects + 1) :=
        within_fetchFrom (fun _ _ h => h) hfit hchunk hmore
          (fun _ => lastOf_eq hfit hchunk hmore) _ _
      rw [Nat.add_assoc, Nat.sub_add_cancel hcost] at hfetch
      refine Task.affords_bind (hfetch.mono ?_)
      rintro step m ⟨hstep, hm⟩
      cases step with
      | advanced t' =>
        obtain ⟨hcounts', hleft⟩ := left_advanced hcounts hstep
        exact hnext hcounts' hleft hm
      | again t' =>
        obtain ⟨hcounts', hleft⟩ := left_again hcounts hstep
        exact hnext hcounts' hleft hm
      | retry outcome t' =>
        have hpresent : t'.present ≤ req.expectedSize := hstep.1 ▸ hcounts.present
        refine Task.affords_ite (fun _ => Task.affords_pure ⟨hpresent, fun h => nomatch h⟩)
          fun htries => ?_
        obtain ⟨hcounts', hleft⟩ := left_retry hcounts hstep htries
        refine Task.affords_free trivial rfl fun waited => ?_
        refine Task.affords_ite (fun _ => hnext hcounts' hleft hm) fun _ => ?_
        exact Task.affords_pure ⟨hpresent, fun h => nomatch h⟩
      | stop outcome t' => exact Task.affords_pure ⟨hstep, fun h => nomatch h⟩
    · exact Task.affords_pure ⟨hcounts.present, fun _ => le_antisymm hcounts.present (not_lt.1 hfull)⟩

/-! ### The bound -/

/-- The rounds that a run makes at most. -/
def mostRounds (req : DownloadRequest) : ℕ :=
  let tries := req.policy.maxAttempts + req.policy.maxReResolves
  req.policy.maxAttempts * (req.expectedSize * tries + 1) + req.expectedSize * tries + tries + 1

/-- A range starts where the bytes that are present end. -/
def StartsAt (present : ℕ) : Op → Prop
  | .fetch _ first _ => first = present
  | _ => True

/-- Whatever its operations are answered, `fetchAll` ends from wherever a run resumes, and
`fetchNext` from wherever it stands; both keep to their bounds and to the file. -/
def Ending (tools : Tools) (req : DownloadRequest) : Prop :=
  ∀ (σ ν Env : Type) (exec : Env → (op : Op) → σ → op.Ans × List ν × σ) (env : Env) (s : σ) (fd : ℕ),
    (∀ (recorded : Option Sidecar) (partSize : ℕ) (hashed : Bytes) (rounds : ℕ),
      mostRounds req < rounds →
        let task := fetchAll tools req fd 0 { resumeFrom req recorded partSize with hashed } rounds
        (∃ result, (task.alone exec env s).1 = some result ∧ Landed req result) ∧
          ((task.awaited exec env s).map fetches).sum ≤
            (req.policy.maxRedirects + 1) * mostRounds req ∧
          ∀ op ∈ task.awaited exec env s, InFile req op) ∧
    ∀ t : Transfer, t.present < req.expectedSize →
      let task := fetchNext tools req fd t
      (∃ step, (task.alone exec env s).1 = some step) ∧
        ((task.awaited exec env s).map fetches).sum ≤ req.policy.maxRedirects + 1 ∧
        ∀ op ∈ task.awaited exec env s, InFile req op ∧ StartsAt t.present op

theorem present_resumeFrom (req : DownloadRequest) (recorded : Option Sidecar) (partSize : ℕ) :
    (resumeFrom req recorded partSize).present ≤ req.expectedSize ∧
      (resumeFrom req recorded partSize).restarts = 0 ∧
      (resumeFrom req recorded partSize).reResolves = 0 := by
  unfold resumeFrom
  split
  next r =>
    split_ifs with h
    · exact ⟨h.2.2.2.1, rfl, rfl⟩
    · exact ⟨Nat.zero_le _, rfl, rfl⟩
  next => exact ⟨Nat.zero_le _, rfl, rfl⟩

theorem left_le_mostRounds (hrestarts : t.restarts = 0) (hreResolves : t.reResolves = 0) :
    left req 0 t ≤ mostRounds req := by
  have hbytes := Nat.mul_le_mul_right (req.policy.maxAttempts + req.policy.maxReResolves)
    (Nat.sub_le req.expectedSize t.present)
  simp only [left, mostRounds, hrestarts, hreResolves, Nat.sub_zero]
  omega

theorem ending_of_fit (hfit : req.expectedSize + req.policy.chunkBytes ≤ 2 ^ 64)
    (hchunk : 0 < req.policy.chunkBytes) (hattempts : 0 < req.policy.maxAttempts) :
    Ending tools req := by
  intro σ ν Env exec env s fd
  constructor
  · intro recorded partSize hashed rounds hrounds task
    obtain ⟨hpresent, hrestarts, hreResolves⟩ := present_resumeFrom req recorded partSize
    have hleft : left req 0 { resumeFrom req recorded partSize with hashed } ≤ mostRounds req :=
      left_le_mostRounds hrestarts hreResolves
    have hcounts : Counts req 0 { resumeFrom req recorded partSize with hashed } :=
      ⟨hpresent, hattempts, hrestarts ▸ Nat.zero_le _, hreResolves ▸ Nat.zero_le _⟩
    have hwithin : task.Affords fetches (InFile req) (fun result _ => Landed req result)
        ((req.policy.maxRedirects + 1) * mostRounds req) :=
      within_fetchAll hfit hchunk rounds hcounts (hleft.trans_lt hrounds)
        (Nat.mul_le_mul_left _ hleft)
    obtain ⟨⟨result, m, hresult, hfetched⟩, hsum, hall⟩ := hwithin.alone exec env s
    exact ⟨⟨result, hresult, hfetched⟩, hsum, hall⟩
  · intro t ht task
    have hwithin : task.Affords fetches (fun op => InFile req op ∧ StartsAt t.present op)
        (fun step m => step.After req t ∧ 0 ≤ m) (0 + req.policy.maxRedirects + 1) := by
      refine within_fetchFrom (fun op hop hin => ⟨hin, ?_⟩) hfit hchunk ht
        (fun _ => ⟨lastOf_eq hfit hchunk ht, rfl⟩) _ _
      cases op with
      | fetch url first last => cases hop
      | _ => trivial
    rw [Nat.zero_add] at hwithin
    obtain ⟨⟨step, m, hstep, -⟩, hsum, hall⟩ := hwithin.alone exec env s
    exact ⟨⟨step, hstep⟩, hsum, hall⟩

/-- The last byte of the file, when its range runs over 64 bits. -/
theorem not_ending_of_over (hsize : req.expectedSize < 2 ^ 64)
    (hchunk : req.policy.chunkBytes < 2 ^ 64) (hpos : 0 < req.expectedSize)
    (hover : 2 ^ 64 < req.expectedSize + req.policy.chunkBytes) : ¬Ending tools req := by
  intro hending
  let recorded : Sidecar := ⟨req.url, "", req.expectedSize, req.expectedSha256, "",
    req.expectedSize - 1⟩
  have hresume : resumeFrom req (some recorded) req.expectedSize =
      { present := req.expectedSize - 1, finalUrl := "", etag := "" } := by
    refine if_pos ⟨rfl, rfl, rfl, ?_, ?_⟩
    · exact Nat.sub_le _ _
    · exact Nat.sub_le _ _
  obtain ⟨hall, -⟩ := hending Disk Note Outside exec {} {} 0
  obtain ⟨-, -, hin⟩ := hall (some recorded) req.expectedSize [] (mostRounds req + 1)
    (Nat.lt_succ_self _)
  rw [hresume, fetchAll, if_pos (Nat.sub_lt hpos Nat.one_pos)] at hin
  have hfetch : InFile req (.fetch req.url (req.expectedSize - 1)
      (lastOf req { present := req.expectedSize - 1 })) := by
    refine hin _ (List.mem_cons_of_mem _ ?_)
    unfold fetchNext
    cases req.policy.maxRedirects with
    | zero => exact List.mem_cons_self
    | succ hops => exact List.mem_cons_self
  have hsum : (req.expectedSize - 1 + req.policy.chunkBytes) % 2 ^ 64 =
      req.expectedSize - 1 + req.policy.chunkBytes - 2 ^ 64 := by
    rw [Nat.mod_eq_sub_mod (by omega), Nat.mod_eq_of_lt (by omega)]
  simp only [InFile, lastOf, hsum] at hfetch
  omega

end Steps

/-- A download ends, whatever the server and the disk answer, exactly when no range runs over 64
bits. -/
theorem download_ends (tools : Tools) (req : DownloadRequest) (hvalid : req.valid tools = true)
    (hsize : req.expectedSize < 2 ^ 64) (hchunk : req.policy.chunkBytes < 2 ^ 64) :
    Ending tools req ↔ req.expectedSize + req.policy.chunkBytes ≤ 2 ^ 64 := by
  simp only [DownloadRequest.valid, Bool.and_eq_true, decide_eq_true_eq] at hvalid
  obtain ⟨⟨⟨⟨-, hpos⟩, -⟩, hchunk₀⟩, hattempts⟩ := hvalid
  refine ⟨fun hending => ?_, fun hfit => ending_of_fit hfit hchunk₀ hattempts⟩
  by_contra hover
  exact not_ending_of_over hsize hchunk hpos (not_le.1 hover) hending

/-- Tools to which every text is a URL. -/
def pinnedTools : Tools := ⟨fun _ => "", fun _ => true, fun _ location => some location⟩

/-- A digest of the right form. -/
def pinnedSha : String := "0123456789abcdef0123456789abcdef0123456789abcdef0123456789abcdef"

/-- Two bytes. -/
def twoBytes (chunkBytes : ℕ) : DownloadRequest where
  run := 0
  url := "http://host/file"
  expectedSize := 2
  expectedSha256 := pinnedSha
  policy := { chunkBytes }
  rounds := 0

theorem valid_twoBytes {chunkBytes : ℕ} (h : 0 < chunkBytes) :
    (twoBytes chunkBytes).valid pinnedTools = true := by
  have hsha : isLowerSha256 pinnedSha = true := by
    rw [isLowerSha256, pinnedSha, String.toList_ofList, ← String.length_toList,
      String.toList_ofList]
    decide
  simp [DownloadRequest.valid, twoBytes, pinnedTools, hsha, h]

theorem chunk_runs_over : (twoBytes (2 ^ 64 - 1)).valid pinnedTools = true ∧
    ¬Ending pinnedTools (twoBytes (2 ^ 64 - 1)) :=
  ⟨valid_twoBytes (by decide), not_ending_of_over (by decide) (by decide) (by decide) (by decide)⟩

theorem download_ends_two : Ending pinnedTools (twoBytes 8388608) :=
  (download_ends pinnedTools (twoBytes 8388608) (valid_twoBytes (by decide)) (by decide)
    (by decide)).2 (by decide)

end Download

end ArgusBackend
