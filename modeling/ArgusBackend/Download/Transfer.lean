import ArgusBackend.Library.Crews

/-!
# Downloads to one target

`downloadFile` fetches a pinned file in ranges into a part file next to the target, under a lock of
the part file, and renames it onto the target when its hash is that of the pin.  A sidecar says how
much of the part file is there.  Any number of runs work on one target, in one process or several.

* `Disk` : the files by inode, the names, the open descriptors and the locks;
* `run` : one run of `Transfer`;
* `workshop` : the runs.
-/

namespace ArgusBackend

namespace Download

/-- What is in a file. -/
abbrev Bytes := List UInt8

/-! ### Requests -/

/-- How a run ends. -/
inductive DownloadStatus where
  | done | cancelled | failed
  deriving DecidableEq, Repr

/-- Why a run fails. -/
inductive DownloadFailure where
  | none | invalidRequest | busy | filesystem | network | tls | httpStatus | redirectLoop
  | rangeUnsupported | rangeMismatch | sourceChanged | sizeMismatch | oversize | hashMismatch
  deriving DecidableEq, Repr

/-- The end of a run. -/
structure Outcome where
  status : DownloadStatus := .failed
  failure : DownloadFailure := .none
  deriving DecidableEq, Repr

/-- The run was cancelled. -/
def cancelled : Outcome := ⟨.cancelled, .none⟩

/-- The run failed. -/
def failed (failure : DownloadFailure) : Outcome := ⟨.failed, failure⟩

/-- The size of a chunk, and how much is tried again. -/
structure DownloadPolicy where
  chunkBytes : ℕ := 8388608
  singleRequestLimit : ℕ := 16777216
  maxRedirects : ℕ := 8
  maxReResolves : ℕ := 3
  maxAttempts : ℕ := 6
  deriving DecidableEq, Repr

/-- What a run is to download. -/
structure DownloadRequest where
  /-- which run it is of -/
  run : ℕ
  url : String
  expectedSize : ℕ
  expectedSha256 : String
  policy : DownloadPolicy := {}
  /-- the rounds after which the run is cut short, if it is still fetching -/
  rounds : ℕ
  deriving DecidableEq, Repr

/-- What a run calls outside of the download. -/
structure Tools where
  sha256 : Bytes → String
  /-- `splitUrl` finds the parts of the address -/
  splitUrl : String → Bool
  resolveLocation : String → String → Option String

/-- A digest in lower-case hexadecimal. -/
def isLowerSha256 (text : String) : Bool :=
  text.length = 64 && text.toList.all fun c => ('0' ≤ c && c ≤ '9') || ('a' ≤ c && c ≤ 'f')

/-- A request that is worth a try. -/
def DownloadRequest.valid (tools : Tools) (req : DownloadRequest) : Bool :=
  tools.splitUrl req.url && 0 < req.expectedSize && isLowerSha256 req.expectedSha256 &&
    0 < req.policy.chunkBytes && 0 < req.policy.maxAttempts

/-- What is recorded of a partial file: where it comes from, and how much of it was written. -/
structure Sidecar where
  url : String
  finalUrl : String
  size : ℕ
  sha256 : String
  etag : String
  bytes : ℕ
  deriving DecidableEq, Repr

/-- A header `Content-Range` that could be read. -/
structure ContentRange where
  first : ℕ
  last : ℕ
  total : Option ℕ
  ordered : first ≤ last
  inside : ∀ size, total = some size → last < size
  deriving DecidableEq

/-- How a fetch fails before there is an answer. -/
inductive TransportError where
  | none | cancelled | network | timeout | tls | invalidUrl
  deriving DecidableEq, Repr

/-- The answer to a fetch. -/
structure ChunkResponse where
  error : TransportError := .none
  status : ℕ := 200
  location : String := ""
  contentRange : Option ContentRange := none
  etag : String := ""
  body : Bytes := []
  deriving DecidableEq

/-! ### The disk -/

/-- `ftruncate`, which fills up what is missing with zeros. -/
def truncated (bytes : Bytes) (length : ℕ) : Bytes :=
  bytes.take length ++ List.replicate (length - bytes.length) 0

/-- The files with their names, the descriptors and their locks. -/
structure Disk where
  files : ℕ → Bytes := fun _ => []
  nextInode : ℕ := 0
  nextDescriptor : ℕ := 0
  /-- the inode of a descriptor -/
  inode : ℕ → ℕ := fun _ => 0
  part : Option ℕ := none
  target : Option ℕ := none
  sidecar : Option Sidecar := none
  /-- the sidecar before its rename -/
  temporary : Option Sidecar := none
  /-- the descriptor that has locked an inode -/
  locks : ℕ → Option ℕ := fun _ => none

namespace Disk

variable (s : Disk)

/-- What is in the file at the target. -/
def targetBytes : Option Bytes := s.target.map s.files

/-- `open`, which creates the part file where there is none. -/
def openPart : ℕ × Disk :=
  match s.part with
  | some i =>
    (s.nextDescriptor, { s with
      nextDescriptor := s.nextDescriptor + 1
      inode := Function.update s.inode s.nextDescriptor i })
  | none =>
    (s.nextDescriptor, { s with
      files := Function.update s.files s.nextInode []
      nextInode := s.nextInode + 1
      part := some s.nextInode
      nextDescriptor := s.nextDescriptor + 1
      inode := Function.update s.inode s.nextDescriptor s.nextInode })

/-- A file is given new contents, through a descriptor. -/
def write (fd : ℕ) (bytes : Bytes) : Disk :=
  { s with files := Function.update s.files (s.inode fd) bytes }

/-- `close`, with which the lock of the descriptor goes. -/
def close (fd : ℕ) : Disk :=
  if s.locks (s.inode fd) = some fd then
    { s with locks := Function.update s.locks (s.inode fd) none }
  else s

end Disk

/-! ### What a run awaits -/

/-- The answer of `flock`. -/
inductive LockAnswer where
  | locked | busy | error
  deriving DecidableEq, Repr

/-- What came of reading a file into the hash. -/
inductive Feed where
  | fed (bytes : Bytes) | cancelled | failed
  deriving DecidableEq, Repr

/-- What a run awaits: system calls and fetches. -/
inductive Op where
  | targetSize
  | readTarget (req : DownloadRequest) (length : ℕ)
  | createDirectories
  | openPart
  | lock (fd : ℕ)
  | close (fd : ℕ)
  /-- by the run that has locked the part file with this descriptor -/
  | readSidecar (fd : ℕ)
  | size (fd : ℕ)
  | truncate (fd length : ℕ)
  /-- the part file is read by its name -/
  | readPart (length : ℕ)
  | writeSidecar (sidecar : Sidecar)
  | renameSidecar
  | isCancelled
  | backoff (failures : ℕ)
  | fetch (url : String) (first last : ℕ)
  /-- the body goes to the end of the file; the hasher was fed `hashed` -/
  | append (fd : ℕ) (body hashed : Bytes)
  | sync (fd : ℕ)
  | renamePart (req : DownloadRequest) (fd : ℕ)
  | syncDirectory
  | removePart
  | removeSidecar
  | removeTemporary
  | finish (req : DownloadRequest) (status : DownloadStatus)

/-- What each of them answers. -/
@[reducible] def Op.Ans : Op → Type
  | .targetSize | .size _ => Option ℕ
  | .readTarget _ _ | .readPart _ => Feed
  | .openPart => Option ℕ
  | .lock _ => LockAnswer
  | .readSidecar _ => Option Sidecar
  | .fetch _ _ _ => ChunkResponse
  | .close _ | .removePart | .removeSidecar | .removeTemporary | .finish _ _ => Unit
  | _ => Bool

/-- What the claims are about: the files at the target, and the bytes that a run has hashed. -/
inductive Note where
  /-- this file was found at the target, or put there -/
  | found (req : DownloadRequest) (bytes : Bytes)
  | put (req : DownloadRequest) (bytes : Bytes)
  | returned (req : DownloadRequest) (status : DownloadStatus)
  /-- the file at the target got other bytes -/
  | changed
  /-- a part file was deleted or truncated that somebody else has locked -/
  | stolen
  /-- the sidecar said this to the run of the descriptor -/
  | recorded (fd : ℕ) (sidecar : Option Sidecar)
  /-- a file with this content was cut to a length -/
  | cut (fd : ℕ) (content : Bytes) (length : ℕ)
  /-- a body was appended behind `content`, when the hasher had been fed `hashed` -/
  | appended (fd : ℕ) (content hashed body : Bytes)
  deriving DecidableEq, Repr

/-- What the system, the server and the caller answer. -/
structure Outside where
  /-- the system call succeeds -/
  works : Bool := true
  cancels : Bool := false
  response : ChunkResponse := {}
  /-- how much of a body is written, if not all -/
  written : Option ℕ := none

/-- The first bytes of a file, all of them or none. -/
def feed (env : Outside) (file : Option Bytes) (length : ℕ) : Feed :=
  if env.cancels then .cancelled
  else
    match file with
    | some bytes => if env.works ∧ length ≤ bytes.length then .fed (bytes.take length) else .failed
    | none => .failed

/-- The answer of an operation, what is noted of it, and the disk after it. -/
def execNow (env : Outside) (op : Op) (s : Disk) : op.Ans × List Note × Disk :=
  match op with
  | .targetSize => (if env.works then s.targetBytes.map List.length else none, [], s)
  | .readTarget req length =>
    (feed env s.targetBytes length, (s.targetBytes.map (.found req)).toList, s)
  | .createDirectories | .sync _ | .syncDirectory => (env.works, [], s)
  | .openPart => if env.works then (some s.openPart.1, [], s.openPart.2) else (none, [], s)
  | .lock fd =>
    if env.works = false then (.error, [], s)
    else if s.locks (s.inode fd) = none then
      (.locked, [], { s with locks := Function.update s.locks (s.inode fd) (some fd) })
    else (.busy, [], s)
  | .close fd => ((), [], s.close fd)
  | .readSidecar fd => (s.sidecar, [.recorded fd s.sidecar], s)
  | .size fd => (if env.works then some (s.files (s.inode fd)).length else none, [], s)
  | .truncate fd length =>
    if env.works then
      (true, .cut fd (s.files (s.inode fd)) length ::
          if s.locks (s.inode fd) = some fd ∨ s.locks (s.inode fd) = none then [] else [.stolen],
        s.write fd (truncated (s.files (s.inode fd)) length))
    else (false, [], s)
  | .readPart length => (feed env (s.part.map s.files) length, [], s)
  | .writeSidecar sidecar =>
    if env.works then (true, [], { s with temporary := some sidecar })
    else (false, [], { s with temporary := none })
  | .renameSidecar =>
    match s.temporary with
    | some sidecar =>
      if env.works then (true, [], { s with sidecar := some sidecar, temporary := none })
      else (false, [], s)
    | none => (false, [], s)
  | .isCancelled => (env.cancels, [], s)
  | .backoff _ => (!env.cancels, [], s)
  | .fetch _ _ _ => (env.response, [], s)
  | .append fd body hashed =>
    let content := s.files (s.inode fd)
    match env.written with
    | none => (true, [.appended fd content hashed body], s.write fd (content ++ body))
    | some n =>
      (false, [.appended fd content hashed (body.take n)], s.write fd (content ++ body.take n))
  | .renamePart req _ =>
    match s.part with
    | some i =>
      if env.works then (true, [.put req (s.files i)], { s with part := none, target := some i })
      else (false, [], s)
    | none => (false, [], s)
  | .removePart =>
    -- the name goes, whoever holds the file
    ((), match s.part with
      | some i => if s.locks i = none then [] else [.stolen]
      | none => [], { s with part := none })
  | .removeSidecar => ((), [], { s with sidecar := none })
  | .removeTemporary => ((), [], { s with temporary := none })
  | .finish req status => ((), [.returned req status], s)

/-- A step notes when it changes the bytes of the file at the target. -/
def exec (env : Outside) (op : Op) (s : Disk) : op.Ans × List Note × Disk :=
  let r := execNow env op s
  (r.1, r.2.1 ++ if r.2.2.target = s.target ∧ r.2.2.targetBytes ≠ s.targetBytes then [.changed] else [],
    r.2.2)

/-- A task of the downloader. -/
abbrev DownloadTask := Task Op Op.Ans

/-- Await an operation. -/
def ask (op : Op) : DownloadTask op.Ans := Task.call op

/-! ### One run -/

/-- What a run keeps while it fetches. -/
structure Transfer where
  isOpen : Bool := true
  /-- what the hasher was fed -/
  hashed : Bytes := []
  present : ℕ := 0
  finalUrl : String := ""
  etag : String := ""
  reResolves : ℕ := 0
  restarts : ℕ := 0

/-- What comes after a fetch: the next chunk, the same one at once or after a delay, or the end. -/
inductive Step where
  | advanced (t : Transfer)
  | again (t : Transfer)
  | retry (outcome : Outcome) (t : Transfer)
  | stop (outcome : Outcome) (t : Transfer)

variable (tools : Tools) (req : DownloadRequest) (fd : ℕ)

/-- A target that has the digest already ends the run. -/
def acceptExistingTarget : DownloadTask (Option Outcome) := do
  let size ← ask .targetSize
  if size = some req.expectedSize then
    let fed ← ask (.readTarget req req.expectedSize)
    match fed with
    | .cancelled => pure (some cancelled)
    | .failed => pure none
    | .fed bytes =>
      if tools.sha256 bytes = req.expectedSha256 then pure (some ⟨.done, .none⟩) else pure none
  else
    pure none

/-- The sidecar and its temporary file go. -/
def removeSidecar : DownloadTask Unit := do
  ask .removeSidecar
  ask .removeTemporary

/-- The sidecar is written to its temporary file and put in place. -/
def saveSidecar (t : Transfer) : DownloadTask Bool := do
  let written ← ask (.writeSidecar
    { url := req.url, finalUrl := t.finalUrl, size := req.expectedSize, sha256 := req.expectedSha256
      etag := t.etag, bytes := t.present })
  if written then ask .renameSidecar else pure false

/-- The partial file is given up. -/
def discard (t : Transfer) : DownloadTask Transfer := do
  ask (.close fd)
  ask .removePart
  removeSidecar
  pure { t with present := 0, isOpen := false }

/-- Where a run starts from, by its sidecar and the size of its part file. -/
def resumeFrom (recorded : Option Sidecar) (partSize : ℕ) : Transfer :=
  match recorded with
  | some r =>
    if r.url = req.url ∧ r.size = req.expectedSize ∧ r.sha256 = req.expectedSha256 ∧
        r.bytes ≤ req.expectedSize ∧ r.bytes ≤ partSize then
      { present := r.bytes, finalUrl := r.finalUrl, etag := r.etag }
    else {}
  | none => {}

/-- What a sidecar vouches for is kept of the partial file, and hashed anew. -/
def restore : DownloadTask (Except Outcome Transfer) := do
  let recorded ← ask (.readSidecar fd)
  let partSize ← ask (.size fd)
  match partSize with
  | none => pure (.error (failed .filesystem))
  | some partSize =>
    let t := resumeFrom req recorded partSize
    let cut ← ask (.truncate fd t.present)
    if cut then
      let fed ← ask (.readPart t.present)
      match fed with
      | .cancelled => pure (.error cancelled)
      | .failed => pure (.error (failed .filesystem))
      | .fed bytes =>
        let t := { t with hashed := bytes }
        let saved ← saveSidecar req t
        if saved then pure (.ok t) else pure (.error (failed .filesystem))
    else
      pure (.error (failed .filesystem))

/-- The body of a chunk is written and recorded. -/
def append (t : Transfer) (url : String) (body : Bytes) : DownloadTask Step := do
  let written ← ask (.append fd body t.hashed)
  if written then
    let synced ← ask (.sync fd)
    if synced then
      let t := { t with
        hashed := t.hashed ++ body, present := t.present + body.length
        finalUrl := if url = req.url then "" else url }
      let saved ← saveSidecar req t
      if saved then pure (.advanced t) else pure (.stop (failed .filesystem) t)
    else
      pure (.stop (failed .filesystem) t)
  else
    pure (.stop (failed .filesystem) t)

/-- The source has changed: the partial file is begun anew, some times. -/
def restartForNewSource (t : Transfer) (etag : String) : DownloadTask Step := do
  let t := { t with restarts := t.restarts + 1 }
  if req.policy.maxAttempts < t.restarts then
    pure (.stop (failed .sourceChanged) t)
  else
    let cut ← ask (.truncate fd 0)
    if cut then
      let t := { t with present := 0, hashed := [], etag := etag }
      let saved ← saveSidecar req t
      if saved then pure (.again t) else pure (.stop (failed .filesystem) t)
    else
      pure (.stop (failed .filesystem) t)

/-- The answer 206: a range that fits is appended. -/
def acceptPartial (t : Transfer) (url : String) (last : ℕ) (response : ChunkResponse) :
    DownloadTask Step := do
  match response.contentRange with
  | none => pure (.stop (failed .rangeMismatch) t)
  | some range =>
    if range.total ≠ none ∧ range.total ≠ some req.expectedSize then
      let t ← discard fd t
      pure (.stop (failed .sizeMismatch) t)
    else if range.first ≠ t.present ∨ last < range.last ∨
        response.body.length ≠ range.last - range.first + 1 then
      pure (.retry (failed .rangeMismatch) t)
    else if t.etag ≠ "" ∧ response.etag ≠ "" ∧ response.etag ≠ t.etag then
      -- the file behind the address is another one
      restartForNewSource req fd t response.etag
    else
      append req fd { t with etag := if t.etag = "" then response.etag else t.etag } url response.body

/-- The answer 200: the whole file, if it is small enough for one request. -/
def acceptWhole (t : Transfer) (url : String) (response : ChunkResponse) : DownloadTask Step := do
  if req.policy.singleRequestLimit < req.expectedSize then
    pure (.stop (failed .rangeUnsupported) t)
  else if req.expectedSize < response.body.length then
    let t ← discard fd t
    pure (.stop (failed .oversize) t)
  else if response.body.length < req.expectedSize then
    let t ← discard fd t
    pure (.stop (failed .sizeMismatch) t)
  else
    let cut ← ask (.truncate fd 0)
    if cut then
      append req fd { t with present := 0, hashed := [], etag := response.etag } url response.body
    else
      pure (.stop (failed .filesystem) t)

/-- A status that points elsewhere. -/
def isRedirect (status : ℕ) : Bool :=
  status = 301 || status = 302 || status = 303 || status = 307 || status = 308

/-- A status after which the fetch is repeated. -/
def isTransientStatus (status : ℕ) : Bool := status = 408 || status = 429 || 500 ≤ status

/-- What an answer means for the run. -/
def classify (t : Transfer) (url : String) (last : ℕ) (response : ChunkResponse) :
    DownloadTask Step := do
  if response.status = 206 then
    acceptPartial req fd t url last response
  else if response.status = 200 then
    acceptWhole req fd t url response
  else if (response.status = 403 ∨ response.status = 404 ∨ response.status = 410) ∧ url ≠ req.url then
    let t := { t with reResolves := t.reResolves + 1 }
    if req.policy.maxReResolves < t.reResolves then
      pure (.stop (failed .httpStatus) t)
    else
      pure (.again { t with finalUrl := "" })
  else if response.status = 416 then
    let t ← discard fd t
    pure (.stop (failed .sizeMismatch) t)
  else if isTransientStatus response.status then
    pure (.retry (failed .httpStatus) t)
  else
    pure (.stop (failed .httpStatus) t)

/-- The last byte to ask for, in 64 bits. -/
def lastOf (t : Transfer) : ℕ :=
  (min ((t.present + req.policy.chunkBytes) % 2 ^ 64) req.expectedSize + 2 ^ 64 - 1) % 2 ^ 64

/-- What is done with a response; a redirect is followed. -/
def receive (t : Transfer) (url : String) (response : ChunkResponse)
    (follow : String → DownloadTask Step) : DownloadTask Step :=
  match response.error with
  | .cancelled => pure (.stop cancelled t)
  | .tls => pure (.stop (failed .tls) t)
  | .invalidUrl => pure (.stop (failed .invalidRequest) t)
  | .network | .timeout => pure (.retry (failed .network) t)
  | .none =>
    if isRedirect response.status then follow response.location
    else classify req fd t url (lastOf req t) response

/-- The loop over the redirects. -/
def fetchFrom (t : Transfer) (url : String) : ℕ → DownloadTask Step
  | 0 => do
    let response ← ask (.fetch url t.present (lastOf req t))
    receive req fd t url response fun _ => pure (.stop (failed .redirectLoop) t)
  | hops + 1 => do
    let response ← ask (.fetch url t.present (lastOf req t))
    receive req fd t url response fun location =>
      match tools.resolveLocation url location with
      | none => pure (.stop (failed .httpStatus) t)
      | some next => fetchFrom t next hops

/-- The next chunk, from where the last one was found. -/
def fetchNext (t : Transfer) : DownloadTask Step :=
  fetchFrom tools req fd t (if t.finalUrl = "" then req.url else t.finalUrl) req.policy.maxRedirects

/-- Chunk after chunk until the file is whole, with a delay after each failure in a row. -/
def fetchAll (failures : ℕ) (t : Transfer) : ℕ → DownloadTask (Option Outcome × Transfer)
  -- the source does not count the rounds: here the run dies
  | 0 => Task.throw
  | rounds + 1 => do
    if t.present < req.expectedSize then
      let isCancelled ← ask .isCancelled
      if isCancelled then
        pure (some cancelled, t)
      else
        let step ← fetchNext tools req fd t
        match step with
        | .advanced t => fetchAll 0 { t with reResolves := 0 } rounds
        | .again t => fetchAll failures t rounds
        | .retry outcome t =>
          if req.policy.maxAttempts ≤ failures + 1 then
            pure (some outcome, t)
          else
            let waited ← ask (.backoff (failures + 1))
            if waited then fetchAll (failures + 1) t rounds else pure (some cancelled, t)
        | .stop outcome t => pure (some outcome, t)
    else
      pure (none, t)

/-- A file with the right digest takes its place at the target. -/
def commit (t : Transfer) : DownloadTask Outcome := do
  if tools.sha256 t.hashed = req.expectedSha256 then
    let synced ← ask (.sync fd)
    if synced then
      let renamed ← ask (.renamePart req fd)
      if renamed then
        ask (.close fd)
        let kept ← ask .syncDirectory
        if kept then
          removeSidecar
          pure ⟨.done, .none⟩
        else
          pure (failed .filesystem)
      else
        pure (failed .filesystem)
    else
      pure (failed .filesystem)
  else
    let _ ← discard fd t
    pure (failed .hashMismatch)

/-- What a run does with its descriptor. -/
def transfer : DownloadTask Outcome := do
  let answer ← ask (.lock fd)
  match answer with
  | .busy => pure (failed .busy)
  | .error => pure (failed .filesystem)
  | .locked =>
    let restored ← restore req fd
    match restored with
    | .error outcome => pure outcome
    | .ok t =>
      let (outcome, t) ← fetchAll tools req fd 0 t req.rounds
      match outcome with
      | some outcome =>
        if t.present = 0 ∧ t.isOpen = true then
          let _ ← discard fd t
          pure outcome
        else
          pure outcome
      | none => commit tools req fd t

/-- `Transfer::run`; a descriptor is closed when the run ends, or dies. -/
def run : DownloadTask Unit := do
  if req.valid tools then
    let existing ← acceptExistingTarget tools req
    match existing with
    | some outcome => ask (.finish req outcome.status)
    | none =>
      let created ← ask .createDirectories
      if created then
        let opened ← ask .openPart
        match opened with
        | none => ask (.finish req .failed)
        | some fd =>
          let outcome ← (transfer tools req fd).attempt
          ask (.close fd)
          match outcome with
          | some outcome => ask (.finish req outcome.status)
          | none => Task.throw
      else
        ask (.finish req .failed)
  else
    ask (.finish req .failed)

end Download

end ArgusBackend
