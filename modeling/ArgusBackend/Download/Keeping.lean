import ArgusBackend.Download.Stages
import ArgusBackend.Library.Chronicles
import ArgusBackend.Library.Places

/-!
# A finished download is the pinned file

* `DownloadsKeep` : who returns has found or put the pinned file at the target, the file there keeps
  its bytes, nobody's locked part file is deleted or truncated, a run cuts its part file to the bytes
  that the sidecar recorded, and appends only behind what it has made of it and hashed;
* `Undisturbed` : the part file that is locked still has its name, the one that is deleted is not
  locked, the file at the target is as long as it was, and the range asked for is one;
* `downloads_keep` : downloads keep that in every undisturbed run.
-/

namespace ArgusBackend

namespace Download

open Places

variable (tools : Tools)

/-- The run has found or put the pinned file at the target. -/
def Delivered (h : List Note) (req : DownloadRequest) : Prop :=
  ∃ bytes, (.found req bytes ∈ h ∨ .put req bytes ∈ h) ∧ req.Pinned tools bytes

/-- What a note leaves of the file of a descriptor. -/
def Note.leaves (fd : ℕ) (before : Option Bytes) : Note → Option Bytes
  | .cut fd' content length => if fd' = fd then some (truncated content length) else before
  | .appended fd' content _ body => if fd' = fd then some (content ++ body) else before
  | _ => before

/-- What a run has made of its part file: the bytes it cut it to, and what it appended since. -/
def written (fd : ℕ) (h : List Note) : Option Bytes := h.foldl (Note.leaves fd) none

/-- A run that returns done has delivered the file. -/
def Done (before : List Note) (n : Note) : Prop :=
  ∀ req, n = .returned req .done → Delivered tools before req

/-- A run cuts its part file to nothing, or to the first bytes of it that the sidecar it has read
records, and the file has all of them. -/
def Resumed (before : List Note) (n : Note) : Prop :=
  ∀ fd content length, n = .cut fd content length →
    length = 0 ∨ ∃ sidecar, .recorded fd (some sidecar) ∈ before ∧ sidecar.bytes = length ∧
      length ≤ content.length

/-- A run appends behind what it has made of the part file, and has hashed exactly that. -/
def Hashed (before : List Note) (n : Note) : Prop :=
  ∀ fd content hashed body, n = .appended fd content hashed body →
    written fd before = some content ∧ content = hashed

/-- What downloads to one target keep. -/
structure DownloadsKeep (h : List Note) : Prop where
  done : Chronicle (Done tools) h
  kept : .changed ∉ h
  locked : .stolen ∉ h
  resumed : Chronicle Resumed h
  hashed : Chronicle Hashed h

/-- The directory before any run: what is at the target and in the part file, if they are there. -/
def directory (target part : Option Bytes) (sidecar temporary : Option Sidecar) : Disk where
  files i := if i = 0 then target.getD [] else part.getD []
  nextInode := 2
  target := target.map fun _ => 0
  part := part.map fun _ => 1
  sidecar := sidecar
  temporary := temporary

/-- The part file that is locked still has its name, the part file that is deleted is not locked,
the file at the target is as long as was found, and the last byte asked for is not that of 64 bits. -/
def Undisturbed (s : Disk) (_ : List (DownloadRequest × Phase)) (_ : Phase) : Op → Prop
  | .lock fd => s.locks (s.inode fd) = none → s.part = some (s.inode fd)
  | .removePart => ∀ i ∈ s.part, s.locks i = none
  | .readTarget _ length => ∀ bytes ∈ s.targetBytes, bytes.length = length
  | .fetch _ _ last => last + 1 < 2 ^ 64
  | _ => True

instance {s : Disk} {ks : List (DownloadRequest × Phase)} {k : Phase} {op : Op} :
    Decidable (Undisturbed s ks k op) := by
  cases op <;> dsimp only [Undisturbed] <;> infer_instance

variable {tools}

/-! ### What every run keeps -/

/-- The descriptor has the lock of the part file. -/
def Holds (s : Disk) (fd : ℕ) : Prop :=
  s.part = some (s.inode fd) ∧ s.locks (s.inode fd) = some fd

/-- What the stage of a run says about the disk. -/
def StageOk (h : List Note) (s : Disk) : Stage → Prop
  | .locked fd => Holds s fd
  | .recorded fd sidecar => Holds s fd ∧ .recorded fd sidecar ∈ h
  | .measured fd sidecar size => Holds s fd ∧ .recorded fd sidecar ∈ h ∧
      (s.files (s.inode fd)).length = size
  | .cut fd length => Holds s fd ∧ (s.files (s.inode fd)).length = length ∧
      written fd h = some (s.files (s.inode fd))
  | .working fd hashed => Holds s fd ∧ s.files (s.inode fd) = hashed ∧ written fd h = some hashed
  | _ => True

variable (tools) in
/-- Notes that are right behind `h`. -/
structure Right (h notes : List Note) : Prop where
  done : Chronicle (Done tools) h → Chronicle (Done tools) (h ++ notes)
  kept : .changed ∉ notes
  locked : .stolen ∉ notes
  resumed : Chronicle Resumed h → Chronicle Resumed (h ++ notes)
  hashed : Chronicle Hashed h → Chronicle Hashed (h ++ notes)

variable (tools) in
/-- The invariant of the runs. -/
structure Kept (h : List Note) (s : Disk) (ks : List (DownloadRequest × Phase)) : Prop where
  apart : ∀ i, s.part = some i → s.target ≠ some i
  partOld : ∀ i, s.part = some i → i < s.nextInode
  targetOld : ∀ i, s.target = some i → i < s.nextInode
  descriptors : ∀ r ∈ ks, ∀ fd, r.2.stage.fd = some fd → fd < s.nextDescriptor
  own : ∀ fd, ks.countP (fun r => r.2.stage.fd = some fd) ≤ 1
  stages : ∀ r ∈ ks, StageOk h s r.2.stage
  proven : ∀ r ∈ ks, r.2.proven = true → Delivered tools h r.1
  keep : DownloadsKeep tools h

section Steps

variable {h notes : List Note} {s s' : Disk} {ks : List (DownloadRequest × Phase)} {i : ℕ}
  {req : DownloadRequest} {k k' : Phase} {fd fd' : ℕ} {env : Outside}

theorem Delivered.mono (hD : Delivered tools h req) : Delivered tools (h ++ notes) req := by
  obtain ⟨bytes, hmem, hpinned⟩ := hD
  exact ⟨bytes, hmem.imp (List.mem_append_left _) (List.mem_append_left _), hpinned⟩

theorem DownloadsKeep.append (hD : DownloadsKeep tools h) (hR : Right tools h notes) :
    DownloadsKeep tools (h ++ notes) :=
  ⟨hR.done hD.done, fun hmem => (List.mem_append.1 hmem).elim hD.kept hR.kept,
    fun hmem => (List.mem_append.1 hmem).elim hD.locked hR.locked,
    hR.resumed hD.resumed, hR.hashed hD.hashed⟩

/-- Notes that return nothing, change nothing and take nothing. -/
theorem right_of (hreturned : ∀ req status, .returned req status ∉ notes) (hkept : .changed ∉ notes)
    (hlocked : .stolen ∉ notes) (hcut : ∀ fd content length, .cut fd content length ∉ notes)
    (happended : ∀ fd content hashed body, .appended fd content hashed body ∉ notes) :
    Right tools h notes :=
  ⟨fun hold => hold.append fun _ hn _ req heq => absurd (heq ▸ hn) (hreturned req .done), hkept,
    hlocked, fun hold => hold.append fun _ hn _ fd content length heq =>
      absurd (heq ▸ hn) (hcut fd content length),
    fun hold => hold.append fun _ hn _ fd content hashed body heq =>
      absurd (heq ▸ hn) (happended fd content hashed body)⟩

theorem right_nil : Right tools h [] :=
  right_of (by simp) (by simp) (by simp) (by simp) (by simp)

/-- Whoever has the lock of the part file is alone with that. -/
theorem Kept.alone (hK : Kept tools h s ks) (hi : ks[i]? = some (req, k))
    (hfd : k.stage.fd = some fd) (hholds : Holds s fd) {r : DownloadRequest × Phase} {j : ℕ}
    (hj : ks[j]? = some r) (hfd' : r.2.stage.fd = some fd') (hholds' : Holds s fd') : j = i := by
  have hsame : s.inode fd' = s.inode fd := Option.some.inj (hholds'.1.symm.trans hholds.1)
  have heq : fd' = fd := by
    have hlock := hholds'.2
    rw [hsame, hholds.2] at hlock
    exact (Option.some.inj hlock).symm
  subst heq
  exact eq_of_countP_le_one (hK.own fd') hj (by simpa using hfd') hi (by simpa using hfd)

/-- A stage that says anything about the disk has the lock. -/
theorem stageOk_of (stage : Stage) : (∀ h s, StageOk h s stage) ∨
    ∃ fd, stage.fd = some fd ∧ (∀ h s, StageOk h s stage → Holds s fd) ∧
      ∀ h notes s s', Holds s' fd → s'.files (s'.inode fd) = s.files (s.inode fd) →
        written fd (h ++ notes) = written fd h → StageOk h s stage →
          StageOk (h ++ notes) s' stage := by
  cases stage with
  | locked fd => exact .inr ⟨fd, rfl, fun _ _ hs => hs, fun _ _ _ _ hholds _ _ _ => hholds⟩
  | recorded fd sidecar =>
    refine .inr ⟨fd, rfl, fun _ _ hs => hs.1, fun h notes s s' hholds _ _ hs => ?_⟩
    exact ⟨hholds, List.mem_append_left _ hs.2⟩
  | measured fd sidecar size =>
    refine .inr ⟨fd, rfl, fun _ _ hs => hs.1, fun h notes s s' hholds hfile _ hs => ?_⟩
    exact ⟨hholds, List.mem_append_left _ hs.2.1, by rw [hfile]; exact hs.2.2⟩
  | cut fd length =>
    refine .inr ⟨fd, rfl, fun _ _ hs => hs.1, fun h notes s s' hholds hfile hwritten hs => ?_⟩
    exact ⟨hholds, by rw [hfile]; exact hs.2.1, by rw [hfile, hwritten]; exact hs.2.2⟩
  | working fd hashed =>
    refine .inr ⟨fd, rfl, fun _ _ hs => hs.1, fun h notes s s' hholds hfile hwritten hs => ?_⟩
    exact ⟨hholds, by rw [hfile]; exact hs.2.1, by rw [hwritten]; exact hs.2.2⟩
  | _ => exact .inl fun _ _ => trivial

/-- Notes of no file leave what was written. -/
theorem written_append (hcut : ∀ content length, .cut fd content length ∉ notes)
    (happended : ∀ content hashed body, .appended fd content hashed body ∉ notes) :
    written fd (h ++ notes) = written fd h := by
  unfold written
  rw [List.foldl_append]
  generalize h.foldl (Note.leaves fd) none = before
  induction notes with
  | nil => rfl
  | cons n notes ih =>
    have hn : n.leaves fd before = before := by
      cases n with
      | cut fd' content length =>
        refine if_neg fun heq => hcut content length ?_
        rw [← heq]
        exact List.mem_cons_self
      | appended fd' content hashed body =>
        refine if_neg fun heq => happended content hashed body ?_
        rw [← heq]
        exact List.mem_cons_self
      | _ => rfl
    rw [List.foldl_cons, hn]
    exact ih (fun content length hmem => hcut content length (List.mem_cons_of_mem _ hmem))
      fun content hashed body hmem => happended content hashed body (List.mem_cons_of_mem _ hmem)

theorem written_nil : written fd (h ++ []) = written fd h := by rw [List.append_nil]

/-- One member's step, by what it leaves of the disk for the others. -/
theorem Kept.step (hK : Kept tools h s ks) (hi : ks[i]? = some (req, k))
    (hapart : ∀ i, s'.part = some i → s'.target ≠ some i)
    (hpart : ∀ i, s'.part = some i → i < s'.nextInode)
    (htarget : ∀ i, s'.target = some i → i < s'.nextInode)
    (hdescriptors : s.nextDescriptor ≤ s'.nextDescriptor)
    (hfd : k'.stage.fd = k.stage.fd ∨
      (k'.stage.fd = some s.nextDescriptor ∧ s.nextDescriptor < s'.nextDescriptor))
    (hothers : ∀ r j fd, j ≠ i → ks[j]? = some r → r.2.stage.fd = some fd → Holds s fd →
      Holds s' fd ∧ s'.files (s'.inode fd) = s.files (s.inode fd) ∧
        written fd (h ++ notes) = written fd h)
    (hstage : StageOk (h ++ notes) s' k'.stage)
    (hproven : k'.proven = true → Delivered tools (h ++ notes) req)
    (hnotes : Right tools h notes) :
    Kept tools (h ++ notes) s' (ks.set i (req, k')) := by
  have hk := List.mem_of_getElem? hi
  refine ⟨hapart, hpart, htarget, fun r hr fd hrfd => ?_, fun fd => ?_, fun r hr => ?_,
    fun r hr hr' => ?_, hK.keep.append hnotes⟩
  · rcases mem_replaced hr with rfl | ⟨j, -, hj⟩
    · rcases hfd with hsame | ⟨hnew, hlt⟩
      · exact (hK.descriptors _ hk fd (hsame ▸ hrfd)).trans_le hdescriptors
      · obtain rfl := Option.some.inj (hnew.symm.trans hrfd)
        exact hlt
    · exact (hK.descriptors r (List.mem_of_getElem? hj) fd hrfd).trans_le hdescriptors
  · -- a descriptor is new or stays with the member that has it
    have hcount := @countP_replace _ _ _ _ (req, k') (fun r => decide (r.2.stage.fd = some fd)) hi
    have hone := hK.own fd
    rcases hfd with hsame | ⟨hnew, -⟩
    · simp only [hsame] at hcount
      omega
    · by_cases heq : fd = s.nextDescriptor
      · -- no one has a descriptor that was not given out
        have hzero : ks.countP (fun r => decide (r.2.stage.fd = some fd)) = 0 := by
          refine List.countP_eq_zero.2 fun r hr hrfd => ?_
          have hlt := hK.descriptors r hr fd (by simpa using hrfd)
          omega
        split at hcount <;> split at hcount <;> omega
      · have hne : ¬s.nextDescriptor = fd := fun h => heq h.symm
        simp only [hnew, Option.some.injEq, hne, decide_false, Bool.false_eq_true, if_false] at hcount
        omega
  · rcases mem_replaced hr with rfl | ⟨j, hij, hj⟩
    · exact hstage
    · have hold := hK.stages r (List.mem_of_getElem? hj)
      rcases stageOk_of r.2.stage with hany | ⟨fd, hrfd, hholds, hmove⟩
      · exact hany _ s'
      · -- the others' files are as they left them
        obtain ⟨hholds', hfile, hwritten⟩ := hothers r j fd hij hj hrfd (hholds _ s hold)
        exact hmove _ _ s s' hholds' hfile hwritten hold
  · rcases mem_replaced hr with rfl | ⟨j, -, hj⟩
    · exact hproven hr'
    · exact (hK.proven r (List.mem_of_getElem? hj) hr').mono

/-- A step that leaves the files, the names and the locks. -/
theorem Kept.quiet (hK : Kept tools h s ks) (hi : ks[i]? = some (req, k))
    (sidecar temporary : Option Sidecar) (hstage : k'.stage = k.stage)
    (hwritten : ∀ fd, written fd (h ++ notes) = written fd h)
    (hproven : k'.proven = true → Delivered tools (h ++ notes) req)
    (hnotes : Right tools h notes) :
    Kept tools (h ++ notes) { s with sidecar, temporary } (ks.set i (req, k')) := by
  refine hK.step hi hK.apart hK.partOld hK.targetOld le_rfl (.inl (by rw [hstage]))
    (fun _ _ fd _ _ _ hholds => ⟨hholds, rfl, hwritten fd⟩) ?_ hproven hnotes
  have hold := hK.stages _ (List.mem_of_getElem? hi)
  rw [hstage]
  rcases stageOk_of k.stage with hany | ⟨fd, -, hholds, hmove⟩
  · exact hany _ _
  · exact hmove _ _ s _ (hholds _ s hold) rfl (hwritten fd) hold

theorem Kept.calm (hK : Kept tools h s ks) (hi : ks[i]? = some (req, k))
    (sidecar temporary : Option Sidecar) (hstage : k'.stage = k.stage) (hproven : k'.proven = k.proven) :
    Kept tools (h ++ []) { s with sidecar, temporary } (ks.set i (req, k')) :=
  hK.quiet hi sidecar temporary hstage (fun _ => written_nil)
    (fun h => (hK.proven _ (List.mem_of_getElem? hi) (hproven ▸ h)).mono) right_nil

theorem feed_fed {file : Option Bytes} {length : ℕ} {bytes : Bytes}
    (h : feed env file length = .fed bytes) :
    ∃ whole, file = some whole ∧ length ≤ whole.length ∧ bytes = whole.take length := by
  unfold feed at h
  split at h
  · cases h
  · split at h
    · split at h
      next whole hle => exact ⟨whole, rfl, hle.2, (Feed.fed.inj h).symm⟩
      next => cases h
    · cases h

theorem Kept.readTarget {length : ℕ} (hK : Kept tools h s ks)
    (hi : ks[i]? = some (req, k))
    (hok : ∀ bytes, s.targetBytes = some bytes → bytes.length = length)
    (hlength : length = req.expectedSize) :
    Kept tools (h ++ (s.targetBytes.map (.found req)).toList) s
      (ks.set i (req, k.after tools (.readTarget req length) (some (feed env s.targetBytes length)))) := by
  have hk := List.mem_of_getElem? hi
  refine hK.quiet hi s.sidecar s.temporary rfl (fun fd => ?_) (fun hproven => ?_) ?_
  · cases s.targetBytes with
    | none => exact written_nil
    | some bytes => exact written_append (by simp) (by simp)
  · cases hfeed : feed env s.targetBytes length with
    | cancelled =>
      rw [hfeed] at hproven
      exact (hK.proven _ hk hproven).mono
    | failed =>
      rw [hfeed] at hproven
      exact (hK.proven _ hk hproven).mono
    | fed bytes =>
      rw [hfeed] at hproven
      simp only [Phase.after, Bool.or_eq_true, decide_eq_true_eq] at hproven
      rcases hproven with hproven | hpin
      · exact (hK.proven _ hk hproven).mono
      · -- the whole file was read, since it is as long as was found
        obtain ⟨whole, hwhole, -, rfl⟩ := feed_fed hfeed
        have hwholeLength := hok whole hwhole
        rw [← hwholeLength, List.take_length] at hpin
        exact ⟨whole, .inl (List.mem_append_right _ (by simp [hwhole])),
          hwholeLength.trans hlength, hpin⟩
  · refine right_of ?_ ?_ ?_ ?_ ?_ <;> cases s.targetBytes <;> simp

theorem targetBytes_openPart (hold : ∀ t, s.target = some t → t < s.nextInode) :
    s.openPart.2.targetBytes = s.targetBytes := by
  unfold Disk.openPart Disk.targetBytes
  cases s.part with
  | some p => rfl
  | none =>
    cases htarget : s.target with
    | none => rfl
    | some t => simp [Function.update_of_ne (hold t htarget).ne]

theorem Kept.openPart (hK : Kept tools h s ks) (hi : ks[i]? = some (req, k)) :
    Kept tools (h ++ []) s.openPart.2
      (ks.set i (req, k.after tools .openPart (some (some s.openPart.1)))) := by
  have hk := List.mem_of_getElem? hi
  have hproven : (k.after tools .openPart (some (some s.openPart.1))).proven = true →
      Delivered tools (h ++ []) req := fun hp => (hK.proven _ hk hp).mono
  have hinode : ∀ r ∈ ks, ∀ fd, r.2.stage.fd = some fd → fd ≠ s.nextDescriptor := fun r hr fd hrfd =>
    (hK.descriptors r hr fd hrfd).ne
  unfold Disk.openPart at hproven ⊢
  cases hpart : s.part with
  | some p =>
    simp only [hpart] at hproven ⊢
    refine hK.step hi (hpart ▸ hK.apart) (hpart ▸ hK.partOld) hK.targetOld (Nat.le_succ _)
      (.inr ⟨rfl, Nat.lt_succ_self _⟩) (fun r j fd _ hj hrfd hholds => ?_) trivial hproven right_nil
    have hne := hinode r (List.mem_of_getElem? hj) fd hrfd
    simpa [Holds, Function.update_of_ne hne, hpart, written_nil] using hholds
  | none =>
    simp only [hpart] at hproven ⊢
    refine hK.step hi (fun p hp => ?_) (fun p hp => ?_) (fun t ht => ?_) (Nat.le_succ _)
      (.inr ⟨rfl, Nat.lt_succ_self _⟩) (fun r j fd _ hj hrfd hholds => ?_) trivial hproven right_nil
    · obtain rfl := Option.some.inj hp
      exact fun ht => absurd (hK.targetOld _ ht) (lt_irrefl _)
    · obtain rfl := Option.some.inj hp
      exact Nat.lt_succ_self _
    · exact (hK.targetOld t ht).trans (Nat.lt_succ_self _)
    · simp [hholds.1] at hpart

theorem Kept.lock (hK : Kept tools h s ks) (hi : ks[i]? = some (req, k))
    (hopened : k.stage = .opened fd) (hfree : s.locks (s.inode fd) = none)
    (hok : s.part = some (s.inode fd)) :
    Kept tools (h ++ []) { s with locks := Function.update s.locks (s.inode fd) (some fd) }
      (ks.set i (req, k.after tools (.lock fd) (some .locked))) := by
  have hk := List.mem_of_getElem? hi
  refine hK.step hi hK.apart hK.partOld hK.targetOld le_rfl (.inl ?_)
    (fun r j fd' _ hj hrfd hholds => ?_) ⟨hok, Function.update_self _ _ _⟩
    (fun hp => (hK.proven _ hk hp).mono) right_nil
  · rw [hopened]
    rfl
  · have hsame : s.inode fd' = s.inode fd := Option.some.inj (hholds.1.symm.trans hok)
    have hlock := hholds.2
    rw [hsame, hfree] at hlock
    cases hlock

theorem Kept.close (hK : Kept tools h s ks) (hi : ks[i]? = some (req, k))
    (hfd : k.stage.fd = some fd) :
    Kept tools (h ++ []) (s.close fd)
      (ks.set i (req, k.after tools (.close fd) (some ()))) := by
  have hk := List.mem_of_getElem? hi
  have hproven : (k.after tools (.close fd) (some ())).proven = true →
      Delivered tools (h ++ []) req := fun hp => (hK.proven _ hk hp).mono
  unfold Disk.close
  split
  next hlocked =>
    refine hK.step hi hK.apart hK.partOld hK.targetOld le_rfl (.inl hfd.symm)
      (fun r j fd' hij hj hrfd hholds => ?_) trivial hproven right_nil
    have hne : s.inode fd' ≠ s.inode fd := by
      intro hsame
      have hlock := hholds.2
      rw [hsame, hlocked] at hlock
      obtain rfl := Option.some.inj hlock
      exact hij (eq_of_countP_le_one (hK.own fd) hj (by simpa using hrfd) hi (by simpa using hfd))
    simpa [Holds, Function.update_of_ne hne, written_nil] using hholds
  next =>
    exact hK.step hi hK.apart hK.partOld hK.targetOld le_rfl (.inl hfd.symm)
      (fun _ _ _ _ _ _ hholds => ⟨hholds, rfl, written_nil⟩) trivial hproven right_nil

/-- Whoever has the lock writes, and the others' files are as they were. -/
theorem Kept.write {bytes : Bytes} (hK : Kept tools h s ks)
    (hi : ks[i]? = some (req, k)) (hfd : k.stage.fd = some fd) (hholds : Holds s fd)
    (hfd' : k'.stage.fd = some fd) (hproven : k'.proven = k.proven)
    (hstage : Holds s fd → StageOk (h ++ notes) (s.write fd bytes) k'.stage)
    (hnotes : Right tools h notes) :
    Kept tools (h ++ notes) (s.write fd bytes) (ks.set i (req, k')) := by
  have hk := List.mem_of_getElem? hi
  refine hK.step hi hK.apart hK.partOld hK.targetOld le_rfl (.inl (hfd'.trans hfd.symm))
    (fun r j fd' hij hj hrfd hholds' => ?_) (hstage hholds)
    (fun hp => (hK.proven _ hk (hproven ▸ hp)).mono) hnotes
  exact absurd (hK.alone hi hfd hholds hj hrfd hholds') hij

theorem length_truncated {bytes : Bytes} {length : ℕ} : (truncated bytes length).length = length := by
  unfold truncated
  simp only [List.length_append, List.length_take, List.length_replicate]
  omega

theorem Kept.rename {hashed : Bytes} (hK : Kept tools h s ks)
    (hi : ks[i]? = some (req, k)) (hworking : k.stage = .working fd hashed)
    (hpinned : req.Pinned tools hashed) :
    Kept tools (h ++ [.put req (s.files (s.inode fd))])
      { s with part := none, target := some (s.inode fd) }
      (ks.set i (req, k.after tools (.renamePart req fd) (some true))) := by
  have hk := List.mem_of_getElem? hi
  obtain ⟨hholds, hfile, -⟩ : StageOk h s (.working fd hashed) := hworking ▸ hK.stages _ hk
  have hfd : k.stage.fd = some fd := by rw [hworking]; rfl
  refine hK.step hi (by simp) (by simp) (fun t ht => ?_) le_rfl (.inl hfd.symm)
    (fun r j fd' hij hj hrfd hholds' => ?_) trivial (fun _ => ?_) ?_
  · obtain rfl := Option.some.inj ht
    exact hK.partOld _ hholds.1
  · exact absurd (hK.alone hi hfd hholds hj hrfd hholds') hij
  · exact ⟨hashed, .inr (by simp [hfile]), hpinned⟩
  · exact right_of (by simp) (by simp) (by simp) (by simp) (by simp)

theorem Kept.removePart (hK : Kept tools h s ks) (hi : ks[i]? = some (req, k))
    (hclosed : k.stage = .closed_ fd) (hok : ∀ i, s.part = some i → s.locks i = none) :
    Kept tools (h ++ []) { s with part := none }
      (ks.set i (req, k.after tools .removePart (some ()))) := by
  have hk := List.mem_of_getElem? hi
  refine hK.step hi (by simp) (by simp) hK.targetOld le_rfl (.inl rfl)
    (fun r j fd' _ hj hrfd hholds => ?_) ?_ (fun hp => (hK.proven _ hk hp).mono) right_nil
  · have hnone := hok _ hholds.1
    rw [hholds.2] at hnone
    cases hnone
  · simp [Phase.after, Stage.after, hclosed, StageOk]

theorem Kept.finish {status : DownloadStatus} (hK : Kept tools h s ks)
    (hi : ks[i]? = some (req, k)) (hdone : status = .done → k.proven = true) :
    Kept tools (h ++ [.returned req status]) s
      (ks.set i (req, k.after tools (.finish req status) (some ()))) := by
  have hk := List.mem_of_getElem? hi
  refine hK.quiet hi s.sidecar s.temporary rfl (fun fd => written_append (by simp) (by simp))
    (fun hp => (hK.proven _ hk hp).mono)
    ⟨fun hold => ?_, by simp, by simp, fun hold => hold.concat fun _ _ _ heq => (nomatch heq),
      fun hold => hold.concat fun _ _ _ _ heq => (nomatch heq)⟩
  refine hold.concat fun req' heq => ?_
  obtain ⟨rfl, hstatus⟩ := by simpa using heq
  exact hK.proven _ hk (hdone hstatus)

/-- A step that keeps the target's name and bytes notes no change of them. -/
theorem exec_notes {op : Op} (hsame : (execNow env op s).2.2.target = s.target →
    (execNow env op s).2.2.targetBytes = s.targetBytes) :
    exec env op s = execNow env op s := by
  unfold exec
  simp only
  rw [if_neg fun h => h.2 (hsame h.1), List.append_nil]

theorem targetBytes_write {bytes : Bytes} (hne : s.target ≠ some (s.inode fd)) :
    (s.write fd bytes).targetBytes = s.targetBytes := by
  unfold Disk.targetBytes Disk.write
  cases htarget : s.target with
  | none => rfl
  | some t =>
    have hother : t ≠ s.inode fd := fun heq => hne (by rw [htarget, heq])
    simp [Function.update_of_ne hother]

/-- Whoever may write does not write to the target. -/
theorem Kept.aside (hK : Kept tools h s ks) (hholds : Holds s fd) :
    s.target ≠ some (s.inode fd) := hK.apart _ hholds.1

theorem Kept.truncate {length : ℕ} (hK : Kept tools h s ks)
    (hi : ks[i]? = some (req, k))
    (hallowed : (∃ sidecar size, k.stage = .measured fd sidecar size ∧
        Resumes sidecar size length) ∨ (length = 0 ∧ ∃ hashed, k.stage = .working fd hashed)) :
    Kept tools (h ++ (exec env (.truncate fd length) s).2.1)
      (exec env (.truncate fd length) s).2.2
      (ks.set i (req, k.after tools (.truncate fd length)
        (some (exec env (.truncate fd length) s).1))) := by
  have hold : StageOk h s k.stage := hK.stages _ (List.mem_of_getElem? hi)
  -- either way the run holds the lock of the part file
  have hholds : Holds s fd := by
    rcases hallowed with ⟨sidecar, size, hmeasured, -⟩ | ⟨-, hashed, hworking⟩
    · rw [hmeasured] at hold
      exact hold.1
    · rw [hworking] at hold
      exact hold.1
  have hfd : k.stage.fd = some fd := by
    rcases hallowed with ⟨sidecar, size, hmeasured, -⟩ | ⟨-, hashed, hworking⟩
    · rw [hmeasured]; rfl
    · rw [hworking]; rfl
  cases hworks : env.works with
  | false =>
    have hexec : exec env (.truncate fd length) s = (false, [], s) := by
      rw [exec_notes] <;> simp [execNow, hworks]
    rw [hexec]
    exact hK.calm hi s.sidecar s.temporary rfl rfl
  | true =>
    have hexec : exec env (.truncate fd length) s =
        (true, [.cut fd (s.files (s.inode fd)) length],
          s.write fd (truncated (s.files (s.inode fd)) length)) := by
      rw [exec_notes] <;> simp [execNow, hworks, hholds.2, targetBytes_write (hK.aside hholds)]
    rw [hexec]
    have hwritten : written fd (h ++ [.cut fd (s.files (s.inode fd)) length]) =
        some (truncated (s.files (s.inode fd)) length) := by
      simp [written, List.foldl_append, Note.leaves]
    have hresumed : Resumed h (.cut fd (s.files (s.inode fd)) length) := by
      intro fd' content length' heq
      obtain ⟨rfl, rfl, rfl⟩ := by simpa using heq
      rcases hallowed with ⟨sidecar, size, hmeasured, hresumes⟩ | ⟨hzero, -⟩
      · rw [hmeasured] at hold
        obtain ⟨-, hrecorded, hsize⟩ := hold
        rcases hresumes with hzero | ⟨recorded, rfl, hbytes, hle⟩
        · exact .inl hzero
        · -- nobody else has written since the size was asked for
          exact .inr ⟨recorded, hrecorded, hbytes, hsize ▸ hle⟩
      · exact .inl hzero
    have hright : Right tools h [.cut fd (s.files (s.inode fd)) length] :=
      ⟨fun hold => hold.concat fun _ heq => (nomatch heq), by simp, by simp,
        fun hold => hold.concat hresumed, fun hold => hold.concat fun _ _ _ _ heq => (nomatch heq)⟩
    refine hK.write hi hfd hholds ?_ rfl (fun hholds => ?_) hright
    · rcases hallowed with ⟨sidecar, size, hmeasured, -⟩ | ⟨-, hashed, hworking⟩
      · simp [Phase.after, Stage.after, hmeasured, Stage.fd]
      · simp [Phase.after, Stage.after, hworking, Stage.fd]
    · rcases hallowed with ⟨sidecar, size, hmeasured, -⟩ | ⟨rfl, hashed, hworking⟩
      · simp only [Phase.after, Stage.after, hmeasured]
        exact ⟨hholds, by simp [Disk.write, length_truncated], by simp [Disk.write, hwritten]⟩
      · simp only [Phase.after, Stage.after, hworking]
        exact ⟨hholds, by simp [Disk.write, truncated], by simp [hwritten, truncated]⟩

theorem Kept.append {body hashed : Bytes} (hK : Kept tools h s ks)
    (hi : ks[i]? = some (req, k)) (hworking : k.stage = .working fd hashed) :
    Kept tools (h ++ (exec env (.append fd body hashed) s).2.1)
      (exec env (.append fd body hashed) s).2.2
      (ks.set i (req, k.after tools (.append fd body hashed)
        (some (exec env (.append fd body hashed) s).1))) := by
  obtain ⟨hholds, hfile, hwritten⟩ : StageOk h s (.working fd hashed) :=
    hworking ▸ hK.stages _ (List.mem_of_getElem? hi)
  have hfd : k.stage.fd = some fd := by rw [hworking]; rfl
  have hright : ∀ body', Right tools h [.appended fd (s.files (s.inode fd)) hashed body'] := by
    refine fun body' => ⟨fun hold => hold.concat fun _ heq => (nomatch heq), by simp, by simp,
      fun hold => hold.concat fun _ _ _ heq => (nomatch heq),
      fun hold => hold.concat fun fd' content hashed' body'' heq => ?_⟩
    obtain ⟨rfl, rfl, rfl, rfl⟩ := by simpa using heq
    exact ⟨by rw [hwritten, hfile], hfile⟩
  rw [exec_notes]
  · cases hall : env.written with
    | none =>
      -- all of the body was written
      simp only [execNow, hall]
      refine hK.write hi hfd hholds rfl rfl (fun hholds => ⟨hholds, ?_, ?_⟩) (hright body)
      · simp [Disk.write, hfile]
      · simp [written, List.foldl_append, Note.leaves, hfile]
    | some n =>
      -- the write stopped after `n` bytes, and the run hashes no more
      simp only [execNow, hall]
      exact hK.write hi hfd hholds rfl rfl (fun hholds => hholds) (hright _)
  · intro _
    simp only [execNow]
    split <;> exact targetBytes_write (hK.aside hholds)

theorem Kept.readPart {length : ℕ} (hK : Kept tools h s ks)
    (hi : ks[i]? = some (req, k)) (hcut : k.stage = .cut fd length) :
    Tells (.readPart length) (some (feed env (s.part.map s.files) length)) ∧
      Kept tools (h ++ []) s
        (ks.set i (req, k.after tools (.readPart length)
          (some (feed env (s.part.map s.files) length)))) := by
  have hk := List.mem_of_getElem? hi
  obtain ⟨hholds, hlength, hwritten⟩ : StageOk h s (.cut fd length) := hcut ▸ hK.stages _ hk
  cases hfeed : feed env (s.part.map s.files) length with
  | cancelled => exact ⟨trivial, hK.calm hi s.sidecar s.temporary rfl rfl⟩
  | failed => exact ⟨trivial, hK.calm hi s.sidecar s.temporary rfl rfl⟩
  | fed bytes =>
    obtain ⟨whole, hwhole, hle, rfl⟩ := feed_fed hfeed
    obtain rfl : s.files (s.inode fd) = whole := by simpa [hholds.1] using hwhole
    -- the file was cut to this length, so it is read whole
    have htake : (s.files (s.inode fd)).take length = s.files (s.inode fd) := by
      rw [← hlength, List.take_length]
    refine ⟨by simp only [Tells, htake, hlength], ?_⟩
    refine hK.step hi hK.apart hK.partOld hK.targetOld le_rfl (.inl ?_)
      (fun _ _ _ _ _ _ hholds => ⟨hholds, rfl, written_nil⟩) ?_
      (fun hp => (hK.proven _ hk hp).mono) right_nil
    · simp [Phase.after, Stage.after, hcut, Stage.fd]
    · simp only [Phase.after, Stage.after, hcut, htake]
      exact ⟨hholds, rfl, by rw [written_nil]; exact hwritten⟩

/-- The record that was read is noted. -/
theorem Kept.readSidecar (hK : Kept tools h s ks) (hi : ks[i]? = some (req, k))
    (hlocked : k.stage = .locked fd) :
    Kept tools (h ++ [.recorded fd s.sidecar]) s
      (ks.set i (req, k.after tools (.readSidecar fd) (some s.sidecar))) := by
  have hk := List.mem_of_getElem? hi
  have hholds : Holds s fd := by
    have hold : StageOk h s k.stage := hK.stages _ hk
    rwa [hlocked] at hold
  have hstage : (k.after tools (.readSidecar fd) (some s.sidecar)).stage =
      .recorded fd s.sidecar := by simp [Phase.after, Stage.after, hlocked]
  refine hK.step hi hK.apart hK.partOld hK.targetOld le_rfl (.inl ?_)
    (fun _ _ _ _ _ _ hholds' => ⟨hholds', rfl, written_append (by simp) (by simp)⟩) ?_
    (fun hp => (hK.proven _ hk hp).mono)
    (right_of (by simp) (by simp) (by simp) (by simp) (by simp))
  · rw [hstage, hlocked]
    rfl
  · rw [hstage]
    exact ⟨hholds, List.mem_append_right _ (List.mem_singleton_self _)⟩

/-- The size is that of the file which nobody else writes. -/
theorem Kept.size {sidecar : Option Sidecar} (hK : Kept tools h s ks) (hi : ks[i]? = some (req, k))
    (hrecorded : k.stage = .recorded fd sidecar) :
    Kept tools (h ++ []) s
      (ks.set i (req, k.after tools (.size fd) (some (some (s.files (s.inode fd)).length)))) := by
  have hk := List.mem_of_getElem? hi
  obtain ⟨hholds, hmem⟩ : StageOk h s (.recorded fd sidecar) := hrecorded ▸ hK.stages _ hk
  have hstage : (k.after tools (.size fd) (some (some (s.files (s.inode fd)).length))).stage =
      .measured fd sidecar (s.files (s.inode fd)).length := by
    simp [Phase.after, Stage.after, hrecorded]
  refine hK.step hi hK.apart hK.partOld hK.targetOld le_rfl (.inl ?_)
    (fun _ _ _ _ _ _ hholds' => ⟨hholds', rfl, written_nil⟩) ?_
    (fun hp => (hK.proven _ hk hp).mono) right_nil
  · rw [hstage, hrecorded]
    rfl
  · rw [hstage]
    exact ⟨hholds, List.mem_append_left _ hmem, rfl⟩

theorem kept_exec {op : Op} (hK : Kept tools h s ks) (hi : ks[i]? = some (req, k))
    (hallowed : (protocol tools req).allowed k op) (hok : Undisturbed s ks k op) :
    Tells op (some (exec env op s).1) ∧ Kept tools (h ++ (exec env op s).2.1)
      (exec env op s).2.2 (ks.set i (req, k.after tools op (some (exec env op s).1))) := by
  -- most operations leave the files, the names and the locks
  have hcalm : ∀ sidecar temporary, ∀ k' : Phase, k'.stage = k.stage → k'.proven = k.proven →
      Kept tools (h ++ []) { s with sidecar, temporary } (ks.set i (req, k')) :=
    fun sidecar temporary _ => hK.calm hi sidecar temporary
  cases op with
  | truncate fd length => exact ⟨trivial, hK.truncate hi hallowed⟩
  | append fd body hashed => exact ⟨trivial, hK.append hi hallowed⟩
  | readSidecar fd =>
    rw [exec_notes fun _ => rfl]
    exact ⟨trivial, hK.readSidecar hi hallowed⟩
  | size fd =>
    obtain ⟨sidecar, hrecorded⟩ := hallowed
    refine ⟨trivial, ?_⟩
    rw [exec_notes fun _ => rfl]
    cases hworks : env.works with
    | true =>
      simp only [execNow, hworks, if_true]
      exact hK.size hi hrecorded
    | false =>
      simp only [execNow, hworks, Bool.false_eq_true, if_false]
      exact hcalm _ _ _ rfl rfl
  | readTarget r length =>
    obtain ⟨rfl, hlength⟩ := hallowed
    rw [exec_notes fun _ => rfl]
    exact ⟨trivial, hK.readTarget hi hok hlength⟩
  | readPart length =>
    obtain ⟨fd, hcut⟩ := hallowed
    rw [exec_notes fun _ => rfl]
    exact hK.readPart hi hcut
  | fetch url first last =>
    rw [exec_notes fun _ => rfl]
    exact ⟨hok, hcalm _ _ _ rfl rfl⟩
  | finish r status =>
    obtain ⟨rfl, hdone⟩ := hallowed
    rw [exec_notes fun _ => rfl]
    exact ⟨trivial, hK.finish hi hdone⟩
  | close fd =>
    refine ⟨trivial, ?_⟩
    rw [exec_notes]
    · exact hK.close hi hallowed
    · intro _
      simp only [execNow, Disk.close]
      split <;> rfl
  | openPart =>
    refine ⟨trivial, ?_⟩
    cases hworks : env.works with
    | true =>
      have hexec : exec env .openPart s = (some s.openPart.1, [], s.openPart.2) := by
        rw [exec_notes] <;> simp [execNow, hworks, targetBytes_openPart hK.targetOld]
      rw [hexec]
      exact hK.openPart hi
    | false =>
      have hexec : exec env .openPart s = (none, [], s) := by
        rw [exec_notes] <;> simp [execNow, hworks]
      rw [hexec]
      exact hcalm _ _ _ rfl rfl
  | lock fd =>
    refine ⟨trivial, ?_⟩
    cases hworks : env.works with
    | false =>
      have hexec : exec env (.lock fd) s = (.error, [], s) := by
        rw [exec_notes] <;> simp [execNow, hworks]
      rw [hexec]
      exact hcalm _ _ _ rfl rfl
    | true =>
      by_cases hfree : s.locks (s.inode fd) = none
      · -- by the condition the file locked is still the part file
        have hexec : exec env (.lock fd) s = (.locked, [],
            { s with locks := Function.update s.locks (s.inode fd) (some fd) }) := by
          rw [exec_notes] <;> simp [execNow, hworks, hfree, Disk.targetBytes]
        rw [hexec]
        exact hK.lock hi hallowed hfree (hok hfree)
      · have hexec : exec env (.lock fd) s = (.busy, [], s) := by
          rw [exec_notes] <;> simp [execNow, hworks, hfree]
        rw [hexec]
        exact hcalm _ _ _ rfl rfl
  | renamePart r fd =>
    refine ⟨trivial, ?_⟩
    obtain ⟨rfl, hashed, hworking, hpinned⟩ := hallowed
    have hholds : Holds s fd := by
      have hold : StageOk h s k.stage := hK.stages _ (List.mem_of_getElem? hi)
      rw [hworking] at hold
      exact hold.1
    cases hworks : env.works with
    | false =>
      have hexec : exec env (.renamePart r fd) s = (false, [], s) := by
        rw [exec_notes] <;> simp [execNow, hworks, hholds.1]
      rw [hexec]
      exact hcalm _ _ _ rfl rfl
    | true =>
      have hexec : exec env (.renamePart r fd) s = (true, [.put r (s.files (s.inode fd))],
          { s with part := none, target := some (s.inode fd) }) := by
        rw [exec_notes]
        · simp [execNow, hworks, hholds.1]
        · -- the target is another file now
          intro hsame
          simp only [execNow, hworks, hholds.1, if_true] at hsame
          exact absurd hsame.symm (hK.aside hholds)
      rw [hexec]
      exact hK.rename hi hworking hpinned
  | removePart =>
    refine ⟨trivial, ?_⟩
    obtain ⟨fd, hclosed⟩ := hallowed
    have hexec : exec env .removePart s = ((), [], { s with part := none }) := by
      rw [exec_notes fun _ => rfl]
      cases hpart : s.part with
      | none => simp [execNow, hpart]
      | some p => simp [execNow, hpart, hok p hpart]
    rw [hexec]
    exact hK.removePart hi hclosed hok
  | writeSidecar sidecar =>
    refine ⟨trivial, ?_⟩
    rw [exec_notes] <;> cases hworks : env.works <;> simp only [execNow, hworks]
    · exact hcalm _ _ _ rfl rfl
    · exact hcalm _ _ _ rfl rfl
    all_goals exact fun _ => rfl
  | renameSidecar =>
    refine ⟨trivial, ?_⟩
    have hexec : exec env .renameSidecar s = execNow env .renameSidecar s := by
      refine exec_notes fun _ => ?_
      simp only [execNow]
      split
      next => split <;> rfl
      next => rfl
    rw [hexec]
    cases htemporary : s.temporary <;> cases hworks : env.works <;>
      simp only [execNow, htemporary, hworks] <;> exact hcalm _ _ _ rfl rfl
  | _ => exact ⟨trivial, by rw [exec_notes fun _ => rfl]; exact hcalm _ _ _ rfl rfl⟩

theorem Kept.spawn (hK : Kept tools h s ks) :
    Kept tools h s (ks ++ [(req, ⟨.idle, false⟩)]) := by
  refine ⟨hK.apart, hK.partOld, hK.targetOld, fun r hr fd hfd => ?_, fun fd => ?_, fun r hr => ?_,
    fun r hr hproven => ?_, hK.keep⟩
  · rcases List.mem_append.1 hr with hold | hnew
    · exact hK.descriptors r hold fd hfd
    · rw [List.mem_singleton.1 hnew] at hfd
      cases hfd
  · rw [List.countP_append]
    have hnone : decide (Stage.idle.fd = some fd) = false := rfl
    simp only [List.countP_singleton, hnone, Bool.false_eq_true, if_false, add_zero]
    exact hK.own fd
  · rcases List.mem_append.1 hr with hold | hnew
    · exact hK.stages r hold
    · rw [List.mem_singleton.1 hnew]
      trivial
  · rcases List.mem_append.1 hr with hold | hnew
    · exact hK.proven r hold hproven
    · rw [List.mem_singleton.1 hnew] at hproven
      cases hproven

end Steps

theorem kept_start (target part : Option Bytes) (sidecar temporary : Option Sidecar) :
    Kept tools [] (directory target part sidecar temporary) [] := by
  refine ⟨fun p hp ht => ?_, fun p hp => ?_, fun t ht => ?_, by simp, by simp, by simp, by simp,
    Chronicle.nil, by simp, by simp, Chronicle.nil, Chronicle.nil⟩
  · obtain ⟨-, -, rfl⟩ := Option.map_eq_some_iff.1 hp
    obtain ⟨-, -, heq⟩ := Option.map_eq_some_iff.1 ht
    cases heq
  · obtain ⟨-, -, rfl⟩ := Option.map_eq_some_iff.1 hp
    exact Nat.one_lt_two
  · obtain ⟨-, -, rfl⟩ := Option.map_eq_some_iff.1 ht
    exact Nat.zero_lt_two

variable (tools) in
/-- Downloads keep the pinned file at the target, whatever was in the directory before, in every run
that is not disturbed. -/
theorem downloads_keep (target part : Option Bytes) (sidecar temporary : Option Sidecar)
    {h : List Note} {c : Crew Disk Phase DownloadRequest Op Op.Ans}
    (hrun : Run (Crew.Step (workshop tools) Undisturbed)
      ⟨directory target part sidecar temporary, []⟩ h c) : DownloadsKeep tools h := by
  refine (Crew.invariant (fun req => protocol tools req) (J := Kept tools) hrun
    (kept_start target part sidecar temporary) obeys_run (fun _ _ _ _ hK => hK.spawn) ?_ ?_).1.keep
  · intro h s ks i req k env op hK hi hallowed hok
    obtain ⟨htells, hkept⟩ := kept_exec hK hi hallowed hok
    exact ⟨⟨fun heq => (nomatch heq), htells⟩, hkept⟩
  · intro h s ks i req k op hK hi _ hdies
    have hsame : (workshop tools).after k op none = k := by cases op <;> rfl
    have htells : Tells op none := by cases op <;> trivial
    rw [hsame, set_self hi]
    exact ⟨⟨fun _ => hdies, htells⟩, hK⟩

/-! ### Two runs of one pin -/

/-- The hash of the pinned file. -/
def pin : String := String.ofList (List.replicate 64 'a')

/-- A hash that tells the pinned file from others. -/
def pinning (file : Bytes) : Tools where
  sha256 bytes := if bytes = file then pin else ""
  splitUrl _ := true
  resolveLocation _ _ := none

/-- One byte is asked for at a time. -/
def request (file : Bytes) (run : ℕ) : DownloadRequest :=
  { run, url := "https://models/one", expectedSize := file.length, expectedSha256 := pin
    policy := { chunkBytes := 1 }, rounds := 8 }

/-- The server answers with the whole file. -/
def server (file : Bytes) : Outside where
  response := { status := 200, body := file }

/-- The server answers with the byte at this place. -/
def byteAt (file : Bytes) (i : Fin file.length) : Outside where
  response :=
    { status := 206, body := [file.get i]
      contentRange := some ⟨i, i, some file.length, le_rfl, fun _ hsize =>
        Option.some.inj hsize ▸ i.isLt⟩ }

/-- The first run dies when it has appended a wrong byte and not recorded it; the second finds one
byte recorded, cuts the part file to that one, appends the right byte and puts the file. -/
theorem downloads_keep_resumed :
    ∃ h c, Run (Crew.Step (workshop (pinning [1, 2])) Undisturbed)
      ⟨directory none none none none, []⟩ h c ∧
      h = [.recorded 0 none, .cut 0 [] 0, .appended 0 [] [] [1], .appended 0 [1] [1] [9],
        .recorded 1 (some ⟨"https://models/one", "", 2, pin, "", 1⟩), .cut 1 [1, 9] 1,
        .appended 1 [1] [1] [2], .put (request [1, 2] 1) [1, 2],
        .returned (request [1, 2] 1) .done] ∧
      DownloadsKeep (pinning [1, 2]) h := by
  have hplay : (Crew.playIf (workshop (pinning [1, 2])) Undisturbed
      ⟨directory none none none none, []⟩
      (Turn.spawn (request [1, 2] 0) :: List.replicate 17 (Turn.run 0 (byteAt [1, 2] ⟨0, by decide⟩)) ++
        List.replicate 2 (Turn.run 0 (byteAt [1, 9] ⟨1, by decide⟩)) ++
        Turn.fail 0 :: Turn.run 0 {} ::
        Turn.spawn (request [1, 2] 1) ::
        List.replicate 24 (Turn.run 1 (byteAt [1, 2] ⟨1, by decide⟩)))).map (fun r => r.2) =
      some [.recorded 0 none, .cut 0 [] 0, .appended 0 [] [] [1], .appended 0 [1] [1] [9],
        .recorded 1 (some ⟨"https://models/one", "", 2, pin, "", 1⟩), .cut 1 [1, 9] 1,
        .appended 1 [1] [1] [2], .put (request [1, 2] 1) [1, 2],
        .returned (request [1, 2] 1) .done] := by
    decide +kernel
  obtain ⟨⟨c, h⟩, hrun, heq⟩ := Option.map_eq_some_iff.1 hplay
  obtain rfl : h = _ := heq
  have hrun' := Crew.run_of_playIf hrun .start
  exact ⟨_, c, hrun', rfl, downloads_keep _ none none none none hrun'⟩

/-- The second run opens the part file, the first puts it at the target and returns; then the second
locks it, finds no sidecar, and cuts the finished file to nothing. -/
theorem late_lock_cuts_target :
    ∃ h c, Run (Crew.Step (workshop (pinning [1])) Crew.Free) ⟨directory none none none none, []⟩ h c ∧
      ¬DownloadsKeep (pinning [1]) h := by
  have hplay : (Crew.play (workshop (pinning [1])) ⟨directory none none none none, []⟩
      (Turn.spawn (request [1] 0) :: List.replicate 18 (Turn.run 0 (server [1])) ++
        Turn.spawn (request [1] 1) :: List.replicate 3 (Turn.run 1 (server [1])) ++
        List.replicate 7 (Turn.run 0 (server [1])) ++
        List.replicate 4 (Turn.run 1 (server [1])))).map (fun r =>
          decide (.returned (request [1] 0) .done ∈ r.2 ∧ .changed ∈ r.2)) = some true := by
    decide +kernel
  obtain ⟨⟨c, h⟩, hrun, heq⟩ := Option.map_eq_some_iff.1 hplay
  have hchanged : .changed ∈ h := (of_decide_eq_true heq).2
  exact ⟨h, c, Crew.run_of_play hrun .start, fun hkeep => hkeep.kept hchanged⟩

end Download

end ArgusBackend
