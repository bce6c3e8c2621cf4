import ArgusBackend.Library.LittleEndian
import ArgusBackend.Library.Scanner

/-!
# The frames of the home link

Version 2 of the wire between a home and its cloud node: a header of twelve bytes (magic,
version, frame type, stream id and payload size, little-endian) and a payload.

* `encodeFrame` and the `encode…` functions build frames, the `decode…` functions read their
  payloads back;
* `FrameParser` is fed pieces of the stream and queues the frames in them.  A byte that breaks
  the wire makes it fail for good, with the error of the check that refused it;
* `nextFrame` is the body of its loop, and `frameScanner` says that this body is a reader of a
  stream in pieces (`ArgusBackend.Library.Scanner`), so `FrameParser.feed` does not depend on
  how the stream was cut (`FrameParser.feed_append`).
-/

namespace ArgusBackend

namespace Link

/-! ### The vocabulary of the wire -/

/-- The frame types. -/
inductive FrameType where
  | hello | «open» | data | close | ping | pong | push | goAway | credit | pushSealed | pushResult
  deriving DecidableEq

/-- The byte that names a frame type. -/
def FrameType.raw : FrameType → UInt8
  | .hello => 1
  | .open => 2
  | .data => 3
  | .close => 4
  | .ping => 5
  | .pong => 6
  | .push => 7
  | .goAway => 8
  | .credit => 9
  | .pushSealed => 10
  | .pushResult => 11

/-- The frame type a byte names; the bytes outside `1..11` name none. -/
def FrameType.ofRaw? : UInt8 → Option FrameType
  | 1 => some .hello
  | 2 => some .open
  | 3 => some .data
  | 4 => some .close
  | 5 => some .ping
  | 6 => some .pong
  | 7 => some .push
  | 8 => some .goAway
  | 9 => some .credit
  | 10 => some .pushSealed
  | 11 => some .pushResult
  | _ => none

/-- Why a stream closes.  The enumeration has type `uint8_t`, so a value cast from the wire may
be any byte. -/
structure CloseReason where
  /-- The byte on the wire. -/
  raw : UInt8
  deriving DecidableEq

namespace CloseReason

/-- The stream came to its end. -/
def normal : CloseReason := ⟨0⟩

/-- There are too many streams. -/
def busy : CloseReason := ⟨1⟩

/-- Nothing went through the stream for too long. -/
def idleTimeout : CloseReason := ⟨2⟩

/-- Too much was pending. -/
def backpressure : CloseReason := ⟨3⟩

/-- Something failed. -/
def error : CloseReason := ⟨4⟩

end CloseReason

/-- Why a node goes away.  The enumeration has type `uint8_t`. -/
structure GoAwayReason where
  /-- The byte the enumeration keeps. -/
  raw : UInt8
  deriving DecidableEq

namespace GoAwayReason

/-- The node is about to stop. -/
def nodeDrain : GoAwayReason := ⟨0⟩

/-- The node stops. -/
def nodeShutdown : GoAwayReason := ⟨1⟩

/-- The other end broke the protocol. -/
def protocolError : GoAwayReason := ⟨2⟩

end GoAwayReason

/-- What a peer can do wrong on the wire. -/
inductive WireError where
  | badMagic | badVersion | unknownFrameType | payloadTooLarge | dataFrameTooLarge
  | streamIdRequired | streamIdForbidden | malformedHello | unsupportedVersion | malformedOpen
  | closeReasonRequired | unknownCloseReason | malformedPing | malformedPong | malformedGoAway
  | malformedCredit | helloRequired | duplicateHello | unexpectedOpen | overCredit
  deriving DecidableEq

namespace capability

/-- Pushes of intents. -/
def kPushIntents : UInt32 := 0x00000001

/-- Credit on the streams. -/
def kStreamCredit : UInt32 := 0x00000002

/-- Sealed pushes and their results. -/
def kSealedPush : UInt32 := 0x00000004

/-- All capabilities that this side knows. -/
def kKnown : UInt32 := kPushIntents ||| kStreamCredit ||| kSealedPush

end capability

/-- The first two bytes of a frame. -/
def kMagic : UInt16 := 0xA755

/-- The version of the protocol. -/
def kWireVersion : UInt8 := 2

/-- The bytes of a header. -/
def kHeaderSize : ℕ := 12

/-- The longest payload. -/
def kMaxPayload : ℕ := 256 * 1024

/-- The longest payload of `DATA`. -/
def kDataFrameMax : ℕ := 64 * 1024

/-- The credit of a stream when it opens. -/
def kInitialStreamCredit : UInt32 := 256 * 1024

/-- What has to be consumed before credit is granted. -/
def kCreditGrantThreshold : UInt32 := 64 * 1024

/-- A frame: what `encodeFrame` is given and what the parser queues. -/
structure Frame where
  type : FrameType
  streamId : UInt32
  payload : Bytes
  deriving DecidableEq

/-- The payload of `HELLO`. -/
structure HelloPayload where
  version : UInt16
  reserved : UInt16
  capabilities : UInt32
  deriving DecidableEq

/-- The payload of `GOAWAY`. -/
structure GoAwayPayload where
  reason : GoAwayReason
  seconds : UInt16
  deriving DecidableEq

/-! ### Fields -/

/-- Two bytes, the low one first. -/
def appendU16 (out : Bytes) (value : UInt16) : Bytes :=
  let raw : UInt32 := value.toUInt32
  out ++ [(raw &&& 0xFF).toUInt8, ((raw >>> 8) &&& 0xFF).toUInt8]

/-- Four bytes, the low one first. -/
def appendU32 (out : Bytes) (value : UInt32) : Bytes :=
  out ++ [(value &&& 0xFF).toUInt8, ((value >>> 8) &&& 0xFF).toUInt8,
    ((value >>> 16) &&& 0xFF).toUInt8, ((value >>> 24) &&& 0xFF).toUInt8]

/-- `bytes[index]`.  A pointer into the buffer is the list of the bytes from there on, so
`data + k` is `data.drop k`. -/
def byteAt (data : Bytes) (index : ℕ) : UInt8 := data.getD index 0

/-- The number of the first two bytes. -/
def readU16 (data : Bytes) : UInt16 :=
  let low := (byteAt data 0).toUInt32
  let high := (byteAt data 1).toUInt32
  (low ||| (high <<< 8)).toUInt16

/-- The number of the first four bytes. -/
def readU32 (data : Bytes) : UInt32 :=
  let first := (byteAt data 0).toUInt32
  let second := (byteAt data 1).toUInt32
  let third := (byteAt data 2).toUInt32
  let fourth := (byteAt data 3).toUInt32
  first ||| (second <<< 8) ||| (third <<< 16) ||| (fourth <<< 24)

theorem appendU16_eq (out : Bytes) (value : UInt16) :
    appendU16 out value = out ++ leBytes 2 value.toNat := by
  have hv := value.toNat_lt
  simp only [appendU16, leBytes, List.append_cancel_left_eq, List.cons.injEq, and_true,
    ← UInt8.toNat_inj]
  constructor <;>
    simp [Nat.shiftRight_eq_div_pow, Nat.and_two_pow_sub_one_eq_mod _ 8]

theorem appendU32_eq (out : Bytes) (value : UInt32) :
    appendU32 out value = out ++ leBytes 4 value.toNat := by
  simp only [appendU32, leBytes, List.append_cancel_left_eq, List.cons.injEq, and_true,
    ← UInt8.toNat_inj]
  refine ⟨?_, ?_, ?_, ?_⟩ <;>
    simp [Nat.shiftRight_eq_div_pow, Nat.and_two_pow_sub_one_eq_mod _ 8, Nat.div_div_eq_div_mul]

/-- The first `k` bytes, read by their index. -/
def firstBytes (k : ℕ) (data : Bytes) : Bytes := (List.range k).map (byteAt data)

theorem toNat_readU16 (data : Bytes) :
    (readU16 data).toNat = leNat (firstBytes 2 data) := by
  have h₀ := (byteAt data 0).toNat_lt
  have h₁ := (byteAt data 1).toNat_lt
  have hword := UInt32.toNat_or_shiftLeft (a := (byteAt data 0).toUInt32)
    (b := (byteAt data 1).toUInt32) (s := 8) (i := 8) rfl (by omega) (by simpa using h₀)
    (by simp; omega)
  simp only [readU16, UInt32.toNat_toUInt16, hword]
  simp [leNat, firstBytes, List.range_succ]
  omega

theorem toNat_readU32 (data : Bytes) :
    (readU32 data).toNat = leNat (firstBytes 4 data) := by
  have h₀ := (byteAt data 0).toNat_lt
  have h₁ := (byteAt data 1).toNat_lt
  have h₂ := (byteAt data 2).toNat_lt
  have h₃ := (byteAt data 3).toNat_lt
  have hsecond := UInt32.toNat_or_shiftLeft (a := (byteAt data 0).toUInt32)
    (b := (byteAt data 1).toUInt32) (s := 8) (i := 8) rfl (by omega) (by simpa using h₀)
    (by simp; omega)
  have hthird := UInt32.toNat_or_shiftLeft
    (a := (byteAt data 0).toUInt32 ||| (byteAt data 1).toUInt32 <<< 8)
    (b := (byteAt data 2).toUInt32) (s := 16) (i := 16) rfl (by omega)
    (by rw [hsecond]; simp; omega) (by simp; omega)
  have hfourth := UInt32.toNat_or_shiftLeft
    (a := (byteAt data 0).toUInt32 ||| (byteAt data 1).toUInt32 <<< 8 |||
      (byteAt data 2).toUInt32 <<< 16)
    (b := (byteAt data 3).toUInt32) (s := 24) (i := 24) rfl (by omega)
    (by rw [hthird, hsecond]; simp; omega) (by simp; omega)
  simp only [readU32, hfourth, hthird, hsecond]
  simp [leNat, firstBytes, List.range_succ]
  omega

/-- Where there are `k` bytes, reading them by index takes them. -/
theorem firstBytes_append {k : ℕ} {field : Bytes} (h : field.length = k) (rest : Bytes) :
    firstBytes k (field ++ rest) = field := by
  apply List.ext_getElem
  · simp [firstBytes, h]
  · intro i _ hi
    simp [firstBytes, byteAt, List.getElem?_append_left hi, hi]

/-- A field of two bytes read back. -/
theorem readU16_leBytes (value : UInt16) (rest : Bytes) :
    readU16 (leBytes 2 value.toNat ++ rest) = value := by
  apply UInt16.toNat_inj.1
  rw [toNat_readU16, firstBytes_append (length_leBytes _ _), leNat_leBytes]
  exact Nat.mod_eq_of_lt value.toNat_lt

/-- A field of four bytes read back. -/
theorem readU32_leBytes (value : UInt32) (rest : Bytes) :
    readU32 (leBytes 4 value.toNat ++ rest) = value := by
  apply UInt32.toNat_inj.1
  rw [toNat_readU32, firstBytes_append (length_leBytes _ _), leNat_leBytes]
  exact Nat.mod_eq_of_lt value.toNat_lt

/-! ### Encoders and decoders -/

/-- What `encodeFrame` writes; it takes the size of the payload modulo `2 ^ 32`. -/
def encodeFrame (input : Frame) : Bytes :=
  let out := appendU16 [] kMagic
  let out := out ++ [kWireVersion]
  let out := out ++ [input.type.raw]
  let out := appendU32 out input.streamId
  let out := appendU32 out (UInt32.ofNat input.payload.length)
  out ++ input.payload

/-- `HELLO` with the capabilities of this side. -/
def encodeHello (capabilities : UInt32) : Bytes :=
  let payload := appendU16 [] kWireVersion.toUInt16
  let payload := appendU16 payload 0
  let payload := appendU32 payload (capabilities &&& capability.kKnown)
  encodeFrame ⟨.hello, 0, payload⟩

/-- `OPEN` -/
def encodeOpen (streamId : UInt32) : Bytes := encodeFrame ⟨.open, streamId, []⟩

/-- `DATA` -/
def encodeData (streamId : UInt32) (bytes : Bytes) : Bytes := encodeFrame ⟨.data, streamId, bytes⟩

/-- `CLOSE` -/
def encodeClose (streamId : UInt32) (reason : CloseReason) : Bytes :=
  encodeFrame ⟨.close, streamId, [reason.raw]⟩

/-- `PUSH` -/
def encodePush (intent : Bytes) : Bytes := encodeFrame ⟨.push, 0, intent⟩

/-- The bytes of a nonce, `nonce >> (index * 8)` for each index. -/
def nonceBytes (nonce : UInt64) : Bytes :=
  (List.range 8).map fun index => ((nonce >>> UInt64.ofNat (index * 8)) &&& 0xFF).toUInt8

/-- `PING` -/
def encodePing (nonce : UInt64) : Bytes := encodeFrame ⟨.ping, 0, nonceBytes nonce⟩

/-- A ping whose type byte is overwritten. -/
def encodePong (nonce : UInt64) : Bytes := (encodePing nonce).set 3 FrameType.pong.raw

/-- `GOAWAY` with its reason and the seconds that are left. -/
def encodeGoAway (reason : GoAwayReason) (seconds : UInt16) : Bytes :=
  let payload := appendU16 [] reason.raw.toUInt16
  let payload := appendU16 payload seconds
  encodeFrame ⟨.goAway, 0, payload⟩

/-- `CREDIT` -/
def encodeCredit (streamId bytes : UInt32) : Bytes :=
  encodeFrame ⟨.credit, streamId, appendU32 [] bytes⟩

/-- The payload of a `HELLO`. -/
def decodeHello (frame : Frame) : HelloPayload :=
  let data := frame.payload
  { version := readU16 data
    reserved := readU16 (data.drop 2)
    capabilities := readU32 (data.drop 4) }

/-- The reason is a field of two bytes cast to an enumeration of one byte: its high byte is
dropped. -/
def decodeGoAway (frame : Frame) : GoAwayPayload :=
  let data := frame.payload
  { reason := ⟨(readU16 data).toUInt8⟩
    seconds := readU16 (data.drop 2) }

/-- The loop runs over `index = 7, …, 0`. -/
def decodeNonce (frame : Frame) : UInt64 :=
  (List.range 8).reverse.foldl
    (fun nonce index => (nonce <<< 8) ||| (byteAt frame.payload index).toUInt64) 0

/-- The bytes that a `CREDIT` grants. -/
def decodeCredit (frame : Frame) : UInt32 := readU32 frame.payload

/-- The reason of a `CLOSE`. -/
def decodeCloseReason (frame : Frame) : CloseReason := ⟨byteAt frame.payload 0⟩

/-! ### The parser -/

/-- The frames that belong to no stream. -/
def isControlFrame : FrameType → Bool
  | .hello | .ping | .pong | .push | .goAway | .pushSealed | .pushResult => true
  | .open | .data | .close | .credit => false

/-- The error of a type with a fixed payload size, for any other size. -/
def lengthRefusal (type : FrameType) (length : UInt32) : Option WireError :=
  match type with
  | .hello => if length = 8 then none else some .malformedHello
  | .open => if length = 0 then none else some .malformedOpen
  | .close => if length = 1 then none else some .closeReasonRequired
  | .ping => if length = 8 then none else some .malformedPing
  | .pong => if length = 8 then none else some .malformedPong
  | .goAway => if length = 4 then none else some .malformedGoAway
  | .credit => if length = 4 then none else some .malformedCredit
  | .data | .push | .pushSealed | .pushResult => none

/-- What the loop keeps of a header that passed its checks. -/
structure Header where
  type : FrameType
  streamId : UInt32
  payloadSize : UInt32
  deriving DecidableEq

/-- The checks made as soon as the header is there, in their order. -/
def checkHeader (header : Bytes) : Except WireError Header :=
  if readU16 header ≠ kMagic then
    .error .badMagic
  else if byteAt header 2 ≠ kWireVersion then
    .error .badVersion
  else
    match FrameType.ofRaw? (byteAt header 3) with
    | none => .error .unknownFrameType
    | some type =>
      let streamId := readU32 (header.drop 4)
      let payloadSize := readU32 (header.drop 8)
      if kMaxPayload < payloadSize.toNat then
        .error .payloadTooLarge
      else if isControlFrame type ∧ streamId ≠ 0 then
        .error .streamIdForbidden
      else if ¬ isControlFrame type ∧ streamId = 0 then
        .error .streamIdRequired
      else if type = .data ∧ kDataFrameMax < payloadSize.toNat then
        .error .dataFrameTooLarge
      else
        match lengthRefusal type payloadSize with
        | some refusal => .error refusal
        | none => .ok ⟨type, streamId, payloadSize⟩

/-- The checks made once the payload is there. -/
def payloadRefusal (frame : Frame) : Option WireError :=
  match frame.type with
  | .hello =>
    let hello := decodeHello frame
    if hello.version ≠ kWireVersion.toUInt16 then some .unsupportedVersion
    else if hello.reserved ≠ 0 then some .malformedHello
    else none
  | .close =>
    let raw := (decodeCloseReason frame).raw
    if CloseReason.error.raw < raw then some .unknownCloseReason else none
  | .credit => if decodeCredit frame = 0 then some .malformedCredit else none
  | .goAway =>
    let reason := (decodeGoAway frame).reason
    if GoAwayReason.protocolError.raw.toUInt16 < reason.raw.toUInt16 then some .malformedGoAway
    else none
  | .open | .data | .ping | .pong | .push | .pushSealed | .pushResult => none

/-- The body of the parser's loop, at the bytes it has not read. -/
def nextFrame (data : Bytes) : Next Frame WireError UInt8 :=
  if data.length < kHeaderSize then .more
  else
    match checkHeader data with
    | .error refusal => .refused refusal
    | .ok header =>
      let payloadSize := header.payloadSize.toNat
      let frameSize := kHeaderSize + payloadSize
      if data.length < frameSize then .more
      else
        let frame : Frame :=
          ⟨header.type, header.streamId, (data.drop kHeaderSize).take payloadSize⟩
        match payloadRefusal frame with
        | some refusal => .refused refusal
        | none => .token frame (data.drop frameSize)

/-- The bytes that are no frame yet, the frames that were not taken, and the error that ended it. -/
structure FrameParser where
  buffer : Bytes := []
  frames : List Frame := []
  failed : Bool := false
  error : WireError := .badMagic
  deriving DecidableEq

namespace FrameParser

/-- A frame is there to be taken. -/
def hasFrame (p : FrameParser) : Bool := !p.frames.isEmpty

/-- A refusal is for good: it drops the unread bytes and the frames not popped yet. -/
def refuse (p : FrameParser) (error : WireError) : FrameParser :=
  { p with failed := true, error := error, buffer := [], frames := [] }

/-- The loop, from `offset` on; the read bytes are erased when it stops. -/
def parseFrom : ℕ → ℕ → FrameParser → FrameParser
  | 0, offset, p => { p with buffer := p.buffer.drop offset }
  | fuel + 1, offset, p =>
    match nextFrame (p.buffer.drop offset) with
    | .more => { p with buffer := p.buffer.drop offset }
    | .refused error => p.refuse error
    | .token frame _ =>
      parseFrom fuel (offset + (kHeaderSize + frame.payload.length))
        { p with frames := p.frames ++ [frame] }

/-- A frame takes at least its header, so the loop runs at most `buffer.length + 1` times. -/
def parse (p : FrameParser) : FrameParser := parseFrom (p.buffer.length + 1) 0 p

/-- Bytes come, and their frames are cut; after an error they are dropped. -/
def feed (p : FrameParser) (data : Bytes) : FrameParser :=
  if p.failed ∨ data.isEmpty then p
  else parse { p with buffer := p.buffer ++ data }

/-- The first queued frame and the parser without it; callers ask `hasFrame` first. -/
def popFrame (p : FrameParser) : Option (Frame × FrameParser) :=
  match p.frames with
  | [] => none
  | frame :: frames => some (frame, { p with frames := frames })

end FrameParser

/-! ### The loop body reads a stream in pieces -/

theorem byteAt_append {data : Bytes} {index : ℕ} (h : index < data.length) (rest : Bytes) :
    byteAt (data ++ rest) index = byteAt data index := by
  simp [byteAt, List.getElem?_append_left h]

theorem readU16_append {data : Bytes} (h : 2 ≤ data.length) (rest : Bytes) :
    readU16 (data ++ rest) = readU16 data := by
  have hbyte : ∀ i < 2, byteAt (data ++ rest) i = byteAt data i :=
    fun i hi => byteAt_append (by omega) rest
  simp only [readU16, hbyte 0 (by omega), hbyte 1 (by omega)]

theorem readU32_append {data : Bytes} (h : 4 ≤ data.length) (rest : Bytes) :
    readU32 (data ++ rest) = readU32 data := by
  have hbyte : ∀ i < 4, byteAt (data ++ rest) i = byteAt data i :=
    fun i hi => byteAt_append (by omega) rest
  simp only [readU32, hbyte 0 (by omega), hbyte 1 (by omega), hbyte 2 (by omega),
    hbyte 3 (by omega)]

/-- The checks read the header only. -/
theorem checkHeader_append {data : Bytes} (h : kHeaderSize ≤ data.length) (rest : Bytes) :
    checkHeader (data ++ rest) = checkHeader data := by
  simp only [kHeaderSize] at h
  have hid : (data ++ rest).drop 4 = data.drop 4 ++ rest :=
    List.drop_append_of_le_length (by omega)
  have hsize : (data ++ rest).drop 8 = data.drop 8 ++ rest :=
    List.drop_append_of_le_length (by omega)
  have hlid : 4 ≤ (data.drop 4).length := by simp; omega
  have hlsize : 4 ≤ (data.drop 8).length := by simp; omega
  simp only [checkHeader, readU16_append (show 2 ≤ data.length by omega) rest,
    byteAt_append (show 2 < data.length by omega) rest,
    byteAt_append (show 3 < data.length by omega) rest, hid, hsize,
    readU32_append hlid, readU32_append hlsize]

/-- What a frame off the front means: a checked header, its payload, and the bytes behind. -/
theorem nextFrame_eq_token {data rest : Bytes} {frame : Frame} :
    nextFrame data = .token frame rest ↔
      kHeaderSize ≤ data.length ∧
      ∃ header, checkHeader data = .ok header ∧
        kHeaderSize + header.payloadSize.toNat ≤ data.length ∧
        frame = ⟨header.type, header.streamId,
          (data.drop kHeaderSize).take header.payloadSize.toNat⟩ ∧
        payloadRefusal frame = none ∧
        rest = data.drop (kHeaderSize + header.payloadSize.toNat) := by
  unfold nextFrame
  by_cases hshort : data.length < kHeaderSize
  · simp only [hshort, if_true, reduceCtorEq, false_iff]
    omega
  simp only [hshort, if_false, Nat.le_of_not_lt hshort, true_and]
  rcases hcheck : checkHeader data with refusal | header
  · simp
  simp only [Except.ok.injEq, exists_eq_left']
  by_cases hpiece : data.length < kHeaderSize + header.payloadSize.toNat
  · simp only [hpiece, if_true, reduceCtorEq, false_iff]
    omega
  simp only [hpiece, if_false, Nat.le_of_not_lt hpiece, true_and]
  constructor
  · intro h
    split at h
    · cases h
    · next hnone =>
      obtain ⟨rfl, rfl⟩ := Next.token.inj h
      exact ⟨rfl, hnone, rfl⟩
  · rintro ⟨rfl, hnone, rfl⟩
    simp only [hnone]

/-- What a refusal means: a header that fails its checks, or a payload that does. -/
theorem nextFrame_eq_refused {data : Bytes} {error : WireError} :
    nextFrame data = .refused error ↔
      kHeaderSize ≤ data.length ∧
      (checkHeader data = .error error ∨
        ∃ header, checkHeader data = .ok header ∧
          kHeaderSize + header.payloadSize.toNat ≤ data.length ∧
          payloadRefusal ⟨header.type, header.streamId,
            (data.drop kHeaderSize).take header.payloadSize.toNat⟩ = some error) := by
  unfold nextFrame
  by_cases hshort : data.length < kHeaderSize
  · simp only [hshort, if_true, reduceCtorEq, false_iff]
    omega
  simp only [hshort, if_false, Nat.le_of_not_lt hshort, true_and]
  rcases hcheck : checkHeader data with refusal | header
  · simp
  simp only [reduceCtorEq, Except.ok.injEq, exists_eq_left', false_or]
  by_cases hpiece : data.length < kHeaderSize + header.payloadSize.toNat
  · simp only [hpiece, if_true, reduceCtorEq, false_iff]
    omega
  simp only [hpiece, if_false, Nat.le_of_not_lt hpiece, true_and]
  split <;> simp_all

/-- A frame is behind a header and takes all the bytes of its payload. -/
theorem length_of_nextFrame {data rest : Bytes} {frame : Frame}
    (h : nextFrame data = .token frame rest) :
    rest = data.drop (kHeaderSize + frame.payload.length) ∧
      kHeaderSize + frame.payload.length ≤ data.length := by
  obtain ⟨_, header, _, hsize, rfl, _, rfl⟩ := nextFrame_eq_token.1 h
  have hlen : ((data.drop kHeaderSize).take header.payloadSize.toNat).length =
      header.payloadSize.toNat := by
    rw [List.length_take, List.length_drop]
    omega
  simp only [hlen, hsize, and_true]

/-- The loop body as a reader of a stream in pieces. -/
def frameScanner : Scanner Frame WireError UInt8 where
  next := nextFrame
  shorter := by
    intro data frame rest h
    obtain ⟨rfl, hlen⟩ := length_of_nextFrame h
    simp only [kHeaderSize, List.length_drop] at hlen ⊢
    omega
  refused_append := by
    intro data error rest h
    obtain ⟨hlen, hrefused⟩ := nextFrame_eq_refused.1 h
    refine nextFrame_eq_refused.2 ⟨by simp; omega, ?_⟩
    simp only [checkHeader_append hlen]
    rcases hrefused with hcheck | ⟨header, hcheck, hsize, hpayload⟩
    · exact .inl hcheck
    · refine .inr ⟨header, hcheck, by simp; omega, ?_⟩
      rwa [List.drop_append_of_le_length hlen,
        List.take_append_of_le_length (by rw [List.length_drop]; omega)]
  token_append := by
    intro data frame rest more h
    obtain ⟨hlen, header, hcheck, hsize, rfl, hpayload, rfl⟩ := nextFrame_eq_token.1 h
    refine nextFrame_eq_token.2 ⟨by simp; omega, header, ?_, by simp; omega, ?_, hpayload, ?_⟩
    · rw [checkHeader_append hlen, hcheck]
    · rw [List.drop_append_of_le_length hlen,
        List.take_append_of_le_length (by rw [List.length_drop]; omega)]
    · rw [List.drop_append_of_le_length hsize]

namespace FrameParser

/-- What the loop leaves: the frames of the buffer queued, or the refusal it met. -/
def afterRead (p : FrameParser) : List Frame × Except WireError Bytes → FrameParser
  | (_, .error error) => p.refuse error
  | (frames, .ok rest) => { p with frames := p.frames ++ frames, buffer := rest }

theorem parseFrom_eq (fuel offset : ℕ) (p : FrameParser) :
    parseFrom fuel offset p = p.afterRead (frameScanner.readUpTo fuel (p.buffer.drop offset)) := by
  induction fuel generalizing offset p with
  | zero => simp [parseFrom, Scanner.readUpTo, afterRead]
  | succ fuel ih =>
    have hnext : frameScanner.next (p.buffer.drop offset) = nextFrame (p.buffer.drop offset) := rfl
    simp only [parseFrom, Scanner.readUpTo, hnext]
    rcases hhead : nextFrame (p.buffer.drop offset) with _ | error | ⟨frame, rest⟩
    · simp [afterRead]
    · simp [afterRead]
    · obtain ⟨hrest, _⟩ := length_of_nextFrame hhead
      rw [List.drop_drop] at hrest
      simp only [ih, ← hrest]
      rcases frameScanner.readUpTo fuel rest with ⟨frames, error | left⟩
      · simp [afterRead, refuse]
      · simp [afterRead, List.append_assoc]

theorem parse_eq (p : FrameParser) : p.parse = p.afterRead (frameScanner.read p.buffer) := by
  rw [parse, parseFrom_eq, List.drop_zero]
  rfl

/-- A parser between two feeds: it failed and holds nothing, or it waits for more bytes. -/
def Settled (p : FrameParser) : Prop :=
  if p.failed then p.buffer = [] ∧ p.frames = [] else nextFrame p.buffer = .more

theorem settled_new : Settled {} := by simp [Settled, nextFrame, kHeaderSize]

theorem settled_parse {p : FrameParser} (h : p.failed = false) : p.parse.Settled := by
  rw [parse_eq]
  have hread := Scanner.reads_read (S := frameScanner) p.buffer
  rcases hr : frameScanner.read p.buffer with ⟨frames, error | rest⟩
  · simp [afterRead, refuse, Settled]
  · rw [hr] at hread
    have hmore : nextFrame rest = .more := hread.next_left
    simpa [afterRead, Settled, h] using hmore

/-- For a settled parser the tests for no bytes in `feed` change nothing. -/
theorem feed_eq {p : FrameParser} (h : p.Settled) (hp : p.failed = false) (data : Bytes) :
    p.feed data = p.afterRead (frameScanner.read (p.buffer ++ data)) := by
  rcases data with _ | ⟨b, data⟩
  · simp only [Settled, hp, Bool.false_eq_true, if_false] at h
    have hread := Scanner.read_of_more (S := frameScanner) h
    simp [feed, hread, afterRead]
  · simp [feed, hp, parse_eq, afterRead, refuse]

theorem feed_of_failed {p : FrameParser} (h : p.failed = true) (data : Bytes) :
    p.feed data = p := by
  simp [feed, h]

theorem Settled.feed {p : FrameParser} (h : p.Settled) (data : Bytes) : (p.feed data).Settled := by
  by_cases hp : p.failed = true
  · rwa [feed_of_failed hp]
  · rw [Bool.not_eq_true] at hp
    rcases data with _ | ⟨b, data⟩
    · simpa [FrameParser.feed] using h
    · have hparse : ({ p with buffer := p.buffer ++ b :: data } : FrameParser).parse.Settled :=
        settled_parse hp
      simpa [FrameParser.feed, hp] using hparse

/-- **Two feeds are one feed** of the two pieces. -/
theorem feed_append {p : FrameParser} (h : p.Settled) (data more : Bytes) :
    p.feed (data ++ more) = (p.feed data).feed more := by
  by_cases hp : p.failed = true
  · simp [feed_of_failed hp]
  rw [Bool.not_eq_true] at hp
  have hmid := h.feed data
  rw [feed_eq h hp, ← List.append_assoc, Scanner.read_append]
  rw [feed_eq h hp] at hmid ⊢
  rcases hread : frameScanner.read (p.buffer ++ data) with ⟨frames, error | rest⟩
  · simp [afterRead, refuse, FrameParser.feed]
  · rw [hread] at hmid
    rw [feed_eq hmid (by simp [afterRead, hp])]
    rcases hlast : frameScanner.read (rest ++ more) with ⟨others, error | left⟩
    · simp [afterRead, hlast, refuse]
    · simp [afterRead, hlast, List.append_assoc]

/-! ### Sessions: feeds with pops in between -/

/-- Pop up to `n` frames. -/
def popFrames : ℕ → FrameParser → List Frame × FrameParser
  | 0, p => ([], p)
  | n + 1, p =>
    match p.popFrame with
    | none => ([], p)
    | some (frame, p) => (frame :: (popFrames n p).1, (popFrames n p).2)

/-- Feed each piece, and pop up to the given number of frames behind it. -/
def session : List (Bytes × ℕ) → FrameParser → List Frame × FrameParser
  | [], p => ([], p)
  | (data, pops) :: rest, p =>
    let (popped, p) := popFrames pops (p.feed data)
    (popped ++ (session rest p).1, (session rest p).2)

/-- `p` is `q` with the frames `popped` taken off its queue. -/
structure Popped (popped : List Frame) (p q : FrameParser) : Prop where
  failed : p.failed = q.failed
  error : p.error = q.error
  buffer : p.buffer = q.buffer
  frames : q.failed = false → popped ++ p.frames = q.frames
  dropped : q.failed = true → p.frames = []

theorem Settled.popped_nil {p : FrameParser} (h : p.Settled) : Popped [] p p where
  failed := rfl
  error := rfl
  buffer := rfl
  frames := fun _ => rfl
  dropped := fun hp => by
    rw [Settled, if_pos hp] at h
    exact h.2

theorem Popped.popFrames {popped : List Frame} {p q : FrameParser} (h : Popped popped p q)
    (n : ℕ) : Popped (popped ++ (popFrames n p).1) (popFrames n p).2 q := by
  induction n generalizing popped p with
  | zero => simpa [FrameParser.popFrames] using h
  | succ n ih =>
    rcases hf : p.frames with _ | ⟨frame, frames⟩
    · simpa [FrameParser.popFrames, popFrame, hf] using h
    · have hpop : Popped (popped ++ [frame]) { p with frames := frames } q :=
        { failed := h.failed
          error := h.error
          buffer := h.buffer
          frames := fun hq => by simpa [hf] using h.frames hq
          dropped := fun hq => by simpa [hf] using h.dropped hq }
      simpa [FrameParser.popFrames, popFrame, hf] using ih hpop

theorem Popped.settled {popped : List Frame} {p q : FrameParser} (h : Popped popped p q)
    (hq : q.Settled) : p.Settled := by
  unfold Settled at hq ⊢
  rw [h.failed, h.buffer]
  split_ifs with hfailed
  · rw [if_pos hfailed] at hq
    exact ⟨hq.1, h.dropped hfailed⟩
  · rwa [if_neg hfailed] at hq

/-- Popping does not change what a feed does. -/
theorem Popped.feed {popped : List Frame} {p q : FrameParser} (h : Popped popped p q)
    (hq : q.Settled) (data : Bytes) : Popped popped (p.feed data) (q.feed data) := by
  have hp := h.settled hq
  by_cases hfailed : q.failed = true
  · rwa [feed_of_failed hfailed, feed_of_failed (h.failed.trans hfailed)]
  rw [Bool.not_eq_true] at hfailed
  rw [feed_eq hp (h.failed.trans hfailed), feed_eq hq hfailed, h.buffer]
  rcases frameScanner.read (q.buffer ++ data) with ⟨frames, error | rest⟩
  · constructor <;> simp [afterRead, refuse]
  · have hframes := h.frames hfailed
    constructor <;> simp [afterRead, h.failed, h.error, hfailed, ← hframes]

/-- **A session reads its whole input**: however the input was cut and whenever frames were
popped, the parser ends as if it had been fed once, less the frames popped. -/
theorem session_popped (steps : List (Bytes × ℕ)) {p : FrameParser} (h : p.Settled) :
    Popped (session steps p).1 (session steps p).2 (p.feed (steps.flatMap Prod.fst)) := by
  suffices hrun : ∀ {popped : List Frame} {p q : FrameParser}, Popped popped p q → q.Settled →
      Popped (popped ++ (session steps p).1) (session steps p).2
        (q.feed (steps.flatMap Prod.fst)) by
    simpa using hrun h.popped_nil h
  intro popped p q hpq hq
  induction steps generalizing popped p q with
  | nil =>
    simpa [session, FrameParser.feed] using hpq
  | cons step rest ih =>
    obtain ⟨data, pops⟩ := step
    have hfed := (hpq.feed hq data).popFrames pops
    have := ih hfed (hq.feed data)
    simpa [session, List.flatMap_cons, feed_append hq, List.append_assoc] using this

end FrameParser

end Link

end ArgusBackend
