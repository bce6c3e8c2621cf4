import ArgusBackend.Link.Frames

/-!
# The grammar of the home link

What a stream of bytes must look like, said without a parser: the ordered checks on a header and
on a payload, the frames that pass them, and the two ways a stream can end.

* `Accepts` : valid frames, then less than one frame whose header, if it is complete, is valid;
* `Violates` : valid frames, then a frame whose first violated check has the given error.

The reason of a GOAWAY is a field of two bytes.  The checks take a function that says how it is
read: `wholeReason` is the wire, `lowReason` is what `decodeGoAway` keeps of it.  The parser
follows the grammar of `lowReason` (`parser_meets_low_grammar`), so it meets the grammar of the wire
exactly on the streams where the difference cannot be seen.
-/

namespace ArgusBackend

namespace Link

/-! ### Checks -/

/-- The fields of a header, as numbers. -/
@[ext] structure Fields where
  magic : ℕ
  version : ℕ
  type : ℕ
  streamId : ℕ
  payloadSize : ℕ
  deriving DecidableEq

/-- The fields at the head of a stream. -/
def fieldsOf (data : Bytes) : Fields where
  magic := leNat (data.take 2)
  version := leNat ((data.drop 2).take 1)
  type := leNat ((data.drop 3).take 1)
  streamId := leNat ((data.drop 4).take 4)
  payloadSize := leNat ((data.drop 8).take 4)

/-- The error of the first check that is violated. -/
def firstViolated : List (Bool × WireError) → Option WireError
  | [] => none
  | (violated, error) :: checks => if violated then some error else firstViolated checks

/-- The types that belong to the link and not to a stream. -/
def controlTypes : List ℕ := [1, 5, 6, 7, 8, 10, 11]

/-- The types whose payload has one size, with that size and the error for any other. -/
def lengthChecks (h : Fields) : List (Bool × WireError) :=
  [(h.type = 1 ∧ h.payloadSize ≠ 8, .malformedHello),
   (h.type = 2 ∧ h.payloadSize ≠ 0, .malformedOpen),
   (h.type = 4 ∧ h.payloadSize ≠ 1, .closeReasonRequired),
   (h.type = 5 ∧ h.payloadSize ≠ 8, .malformedPing),
   (h.type = 6 ∧ h.payloadSize ≠ 8, .malformedPong),
   (h.type = 8 ∧ h.payloadSize ≠ 4, .malformedGoAway),
   (h.type = 9 ∧ h.payloadSize ≠ 4, .malformedCredit)]

/-- The checks on a header, in order, each with the condition that violates it. -/
def headerChecks (h : Fields) : List (Bool × WireError) :=
  (h.magic ≠ 0xA755, .badMagic) ::
  (h.version ≠ 2, .badVersion) ::
  (h.type < 1 ∨ 11 < h.type, .unknownFrameType) ::
  (256 * 1024 < h.payloadSize, .payloadTooLarge) ::
  (h.type ∈ controlTypes ∧ h.streamId ≠ 0, .streamIdForbidden) ::
  (h.type ∉ controlTypes ∧ h.streamId = 0, .streamIdRequired) ::
  (h.type = 3 ∧ 64 * 1024 < h.payloadSize, .dataFrameTooLarge) ::
  lengthChecks h

/-- The reason of a GOAWAY as the wire has it. -/
def wholeReason (field : ℕ) : ℕ := field

/-- The reason of a GOAWAY as an enumeration of one byte keeps it. -/
def lowReason (field : ℕ) : ℕ := field % 256

/-- The checks on a payload, in order; `reason` says how the reason of a GOAWAY is read. -/
def payloadChecks (reason : ℕ → ℕ) (type : ℕ) (payload : Bytes) : List (Bool × WireError) :=
  [(type = 1 ∧ leNat (payload.take 2) ≠ 2, .unsupportedVersion),
   (type = 1 ∧ leNat ((payload.drop 2).take 2) ≠ 0, .malformedHello),
   (type = 4 ∧ 4 < leNat payload, .unknownCloseReason),
   (type = 9 ∧ leNat payload = 0, .malformedCredit),
   (type = 8 ∧ 2 < reason (leNat (payload.take 2)), .malformedGoAway)]

/-! ### Frames and streams -/

/-- The bytes of a frame. -/
def Frame.bytes (f : Frame) : Bytes :=
  leBytes 2 0xA755 ++ (leBytes 1 2 ++ (leBytes 1 f.type.raw.toNat ++
    (leBytes 4 f.streamId.toNat ++ (leBytes 4 f.payload.length ++ f.payload))))

/-- The header fields of a frame. -/
def Frame.fields (f : Frame) : Fields :=
  ⟨0xA755, 2, f.type.raw.toNat, f.streamId.toNat, f.payload.length⟩

/-- A frame that violates no check. -/
structure Frame.Valid (reason : ℕ → ℕ) (f : Frame) : Prop where
  header : firstViolated (headerChecks f.fields) = none
  payload : firstViolated (payloadChecks reason f.type.raw.toNat f.payload) = none

instance (reason : ℕ → ℕ) (f : Frame) : Decidable (f.Valid reason) :=
  decidable_of_iff (firstViolated (headerChecks f.fields) = none ∧
      firstViolated (payloadChecks reason f.type.raw.toNat f.payload) = none)
    ⟨fun h => ⟨h.1, h.2⟩, fun h => ⟨h.1, h.2⟩⟩

/-- Less than one frame, whose header, if it is complete, is valid. -/
def Incomplete (data : Bytes) : Prop :=
  data.length < 12 ∨
    firstViolated (headerChecks (fieldsOf data)) = none ∧
      data.length < 12 + (fieldsOf data).payloadSize

/-- The first frame of `data` violates a check, and the first one it violates has error `e`. -/
def HeadViolates (reason : ℕ → ℕ) (data : Bytes) (e : WireError) : Prop :=
  12 ≤ data.length ∧
    (firstViolated (headerChecks (fieldsOf data)) = some e ∨
      firstViolated (headerChecks (fieldsOf data)) = none ∧
        12 + (fieldsOf data).payloadSize ≤ data.length ∧
        firstViolated (payloadChecks reason (fieldsOf data).type
          ((data.drop 12).take (fieldsOf data).payloadSize)) = some e)

/-- Valid frames followed by less than one. -/
def Accepts (reason : ℕ → ℕ) (data : Bytes) : Prop :=
  ∃ (frames : List Frame) (rest : Bytes), (∀ f ∈ frames, f.Valid reason) ∧
    data = frames.flatMap Frame.bytes ++ rest ∧ Incomplete rest

/-- Valid frames followed by one whose first violated check has error `e`. -/
def Violates (reason : ℕ → ℕ) (data : Bytes) (e : WireError) : Prop :=
  ∃ (frames : List Frame) (rest : Bytes), (∀ f ∈ frames, f.Valid reason) ∧
    data = frames.flatMap Frame.bytes ++ rest ∧ HeadViolates reason rest e

/-! ### The code's checks are these -/

theorem encodeFrame_eq (f : Frame) : encodeFrame f = f.bytes := by
  have hsize : leBytes 4 (UInt32.ofNat f.payload.length).toNat = leBytes 4 f.payload.length := by
    rw [← leBytes_mod 4 f.payload.length]
    simp
  simp only [encodeFrame, appendU16_eq, appendU32_eq, hsize, Frame.bytes, List.nil_append,
    List.append_assoc, leBytes_one]
  rfl

theorem FrameType.ofRaw?_eq_some {b : UInt8} {type : FrameType} :
    FrameType.ofRaw? b = some type ↔ b = type.raw := by
  constructor
  · unfold FrameType.ofRaw?
    split <;> rintro ⟨rfl⟩ <;> rfl
  · rintro rfl
    cases type <;> rfl

theorem FrameType.ofRaw?_eq_none {b : UInt8} :
    FrameType.ofRaw? b = none ↔ b.toNat < 1 ∨ 11 < b.toNat := by
  unfold FrameType.ofRaw?
  split
  case h_12 h₁ h₂ h₃ h₄ h₅ h₆ h₇ h₈ h₉ h₁₀ h₁₁ =>
    simp only [imp_false, ← UInt8.toNat_inj, UInt8.reduceToNat] at *
    refine iff_of_true trivial ?_
    omega
  all_goals simp

theorem FrameType.raw_injective : Function.Injective FrameType.raw := by
  intro a b h
  simpa [h] using (FrameType.ofRaw?_eq_some.2 rfl : FrameType.ofRaw? a.raw = some a).symm.trans
    (h ▸ FrameType.ofRaw?_eq_some.2 rfl : FrameType.ofRaw? a.raw = some b)

theorem isControlFrame_iff (type : FrameType) :
    isControlFrame type = true ↔ type.raw.toNat ∈ controlTypes := by
  cases type <;> decide

theorem firstBytes_eq_take {k : ℕ} {data : Bytes} (h : k ≤ data.length) :
    firstBytes k data = data.take k := by
  conv_lhs => rw [← List.take_append_drop k data]
  exact firstBytes_append (by simpa using h) _

theorem leNat_take_one {data : Bytes} (h : 1 ≤ data.length) :
    leNat (data.take 1) = (byteAt data 0).toNat := by
  rw [← firstBytes_eq_take h]
  simp [firstBytes, leNat]

/-- The header fields are what the code reads. -/
theorem fieldsOf_eq {data : Bytes} (h : kHeaderSize ≤ data.length) :
    fieldsOf data =
      ⟨(readU16 data).toNat, (byteAt data 2).toNat, (byteAt data 3).toNat,
        (readU32 (data.drop 4)).toNat, (readU32 (data.drop 8)).toNat⟩ := by
  simp only [kHeaderSize] at h
  have hbyte : ∀ i, byteAt (data.drop i) 0 = byteAt data i := fun i => by simp [byteAt]
  simp only [fieldsOf, toNat_readU16, toNat_readU32,
    firstBytes_eq_take (show 2 ≤ data.length by omega),
    firstBytes_eq_take (show 4 ≤ (data.drop 4).length by rw [List.length_drop]; omega),
    firstBytes_eq_take (show 4 ≤ (data.drop 8).length by rw [List.length_drop]; omega),
    leNat_take_one (show 1 ≤ (data.drop 2).length by rw [List.length_drop]; omega),
    leNat_take_one (show 1 ≤ (data.drop 3).length by rw [List.length_drop]; omega), hbyte]

theorem lengthRefusal_eq (type : FrameType) (length : UInt32) (magic version streamId : ℕ) :
    lengthRefusal type length =
      firstViolated
        (lengthChecks ⟨magic, version, type.raw.toNat, streamId, length.toNat⟩) := by
  cases type <;>
    simp [lengthRefusal, lengthChecks, firstViolated, FrameType.raw, ← UInt32.toNat_inj]

/-- **The header checks of the parser** are the checks of the grammar, in its order. -/
theorem checkHeader_spec {data : Bytes} (h : kHeaderSize ≤ data.length) :
    match checkHeader data with
    | .error e => firstViolated (headerChecks (fieldsOf data)) = some e
    | .ok header =>
      firstViolated (headerChecks (fieldsOf data)) = none ∧
        (fieldsOf data).type = header.type.raw.toNat ∧
        (fieldsOf data).streamId = header.streamId.toNat ∧
        (fieldsOf data).payloadSize = header.payloadSize.toNat := by
  have hmagic : readU16 data = kMagic ↔ (readU16 data).toNat = 0xA755 := UInt16.toNat_inj.symm
  have hversion : byteAt data 2 = kWireVersion ↔ (byteAt data 2).toNat = 2 := UInt8.toNat_inj.symm
  rw [fieldsOf_eq h]
  simp only [checkHeader, headerChecks, firstViolated, decide_eq_true_eq, ne_eq, hmagic, hversion]
  generalize (readU16 data).toNat = magic, (byteAt data 2).toNat = version,
    byteAt data 3 = raw, readU32 (data.drop 4) = streamId, readU32 (data.drop 8) = payloadSize
  by_cases hm : magic = 0xA755
  case neg => simp only [hm, not_false_eq_true, if_true]
  by_cases hv : version = 2
  case neg => simp only [hm, hv, not_true_eq_false, not_false_eq_true, if_true, if_false]
  simp only [hm, hv, not_true_eq_false, if_false]
  rcases htype : FrameType.ofRaw? raw with _ | type
  · simp only [FrameType.ofRaw?_eq_none.1 htype, if_true]
  have hknown : ¬ (raw.toNat < 1 ∨ 11 < raw.toNat) := by
    rw [← FrameType.ofRaw?_eq_none, htype]
    simp
  obtain rfl := FrameType.ofRaw?_eq_some.1 htype
  have hid : streamId = 0 ↔ streamId.toNat = 0 := UInt32.toNat_inj.symm
  have hdata : type = .data ↔ type.raw.toNat = 3 := by cases type <;> decide
  simp only [hknown, if_false, isControlFrame_iff, hid, hdata, kMaxPayload, kDataFrameMax,
    lengthRefusal_eq type payloadSize 0xA755 2 streamId.toNat]
  split_ifs
  any_goals rfl
  -- every check before the sizes passed
  rcases firstViolated (lengthChecks _) with _ | e
  · exact ⟨rfl, rfl, rfl, rfl⟩
  · rfl

/-! ### Reading by the grammar -/

theorem firstViolated_eq_none {checks : List (Bool × WireError)} :
    firstViolated checks = none ↔ ∀ c ∈ checks, c.1 = false := by
  induction checks with
  | nil => simp [firstViolated]
  | cons c checks ih =>
    obtain ⟨_ | _, error⟩ := c <;> simp [firstViolated, ih]

/-- The frame at the head of a stream whose header is valid. -/
def frameOf (data : Bytes) : Frame where
  type := (FrameType.ofRaw? (byteAt data 3)).getD .hello
  streamId := readU32 (data.drop 4)
  payload := (data.drop 12).take (fieldsOf data).payloadSize

/-- One look at the head of a stream, by the checks of the grammar. -/
def readHead (reason : ℕ → ℕ) (data : Bytes) : Next Frame WireError UInt8 :=
  if data.length < 12 then .more
  else
    match firstViolated (headerChecks (fieldsOf data)) with
    | some e => .refused e
    | none =>
      if data.length < 12 + (fieldsOf data).payloadSize then .more
      else
        match firstViolated (payloadChecks reason (fieldsOf data).type (frameOf data).payload) with
        | some e => .refused e
        | none => .token (frameOf data) (data.drop (12 + (fieldsOf data).payloadSize))

/-- A stream is the fields at its head and the bytes behind them. -/
theorem eq_fields_append {data : Bytes} (h : 12 ≤ data.length) :
    data = leBytes 2 (fieldsOf data).magic ++ (leBytes 1 (fieldsOf data).version ++
      (leBytes 1 (fieldsOf data).type ++ (leBytes 4 (fieldsOf data).streamId ++
        (leBytes 4 (fieldsOf data).payloadSize ++ data.drop 12)))) := by
  have hfield : ∀ i k, i + k ≤ 12 →
      leBytes k (leNat ((data.drop i).take k)) ++ data.drop (i + k) = data.drop i := by
    intro i k hik
    rw [leBytes_of_length (by rw [List.length_take, List.length_drop]; omega), ← List.drop_drop,
      List.take_append_drop]
  simp only [fieldsOf, hfield 8 4 (by omega), hfield 4 4 (by omega), hfield 3 1 (by omega),
    hfield 2 1 (by omega)]
  simpa using (hfield 0 2 (by omega)).symm

/-- The header of a frame's bytes holds its fields. -/
theorem fieldsOf_bytes {f : Frame} (h : f.payload.length < 256 ^ 4) (rest : Bytes) :
    fieldsOf (f.bytes ++ rest) = f.fields := by
  have hid : f.streamId.toNat % 4294967296 = f.streamId.toNat :=
    Nat.mod_eq_of_lt f.streamId.toNat_lt
  have htype : f.type.raw.toNat % 256 = f.type.raw.toNat := Nat.mod_eq_of_lt f.type.raw.toNat_lt
  have hsize : f.payload.length % 4294967296 = f.payload.length := Nat.mod_eq_of_lt h
  simp [fieldsOf, Frame.bytes, Frame.fields, List.drop_append, List.drop_of_length_le,
    -leBytes_one, hid, htype, hsize]

theorem length_bytes (f : Frame) : f.bytes.length = 12 + f.payload.length := by
  simp only [Frame.bytes, List.length_append, length_leBytes]
  omega

theorem length_le_of_headerChecks {f : Frame} (h : firstViolated (headerChecks f.fields) = none) :
    f.payload.length ≤ 256 * 1024 := by
  have hsize := firstViolated_eq_none.1 h
    (decide (256 * 1024 < f.fields.payloadSize), .payloadTooLarge) (by simp [headerChecks])
  exact Nat.le_of_not_lt (of_decide_eq_false hsize)

/-- What a header that passes its checks says: the magic, the version and a known type. -/
theorem of_headerChecks {h : Fields} (hchecks : firstViolated (headerChecks h) = none) :
    h.magic = 0xA755 ∧ h.version = 2 ∧ 1 ≤ h.type ∧ h.type ≤ 11 := by
  rw [firstViolated_eq_none] at hchecks
  simp only [headerChecks, List.forall_mem_cons, decide_eq_false_iff_not, ne_eq, not_not, not_or,
    not_lt] at hchecks
  exact ⟨hchecks.1, hchecks.2.1, hchecks.2.2.1.1, hchecks.2.2.1.2⟩

/-- A complete frame whose header is valid is at the head of its stream. -/
theorem eq_bytes_append {data : Bytes} (h : 12 ≤ data.length)
    (hheader : firstViolated (headerChecks (fieldsOf data)) = none)
    (hsize : 12 + (fieldsOf data).payloadSize ≤ data.length) :
    (frameOf data).fields = fieldsOf data ∧
      data = (frameOf data).bytes ++ data.drop (12 + (fieldsOf data).payloadSize) := by
  obtain ⟨hmagic, hversion, hlow, hhigh⟩ := of_headerChecks hheader
  have htype : (frameOf data).type.raw.toNat = (fieldsOf data).type := by
    have hread : (fieldsOf data).type = (byteAt data 3).toNat := by rw [fieldsOf_eq h]
    rw [hread] at hlow hhigh ⊢
    rcases hraw : FrameType.ofRaw? (byteAt data 3) with _ | type
    · have := FrameType.ofRaw?_eq_none.1 hraw
      omega
    · rw [frameOf, hraw, Option.getD_some, FrameType.ofRaw?_eq_some.1 hraw]
  have hid : (frameOf data).streamId.toNat = (fieldsOf data).streamId := by
    rw [fieldsOf_eq h]
    rfl
  have hlen : (frameOf data).payload.length = (fieldsOf data).payloadSize := by
    rw [frameOf, List.length_take, List.length_drop]
    omega
  constructor
  · simp only [Frame.fields, htype, hid, hlen, ← hmagic, ← hversion]
  · have hpayload : (frameOf data).payload ++ data.drop (12 + (fieldsOf data).payloadSize) =
        data.drop 12 := by
      rw [frameOf, ← List.drop_drop, List.take_append_drop]
    conv_lhs => rw [eq_fields_append h]
    simp only [Frame.bytes, List.append_assoc, hpayload, htype, hid, hlen, ← hmagic, ← hversion]

theorem frameOf_bytes {f : Frame} (h : f.payload.length < 256 ^ 4) (rest : Bytes) :
    frameOf (f.bytes ++ rest) = f := by
  have hlen : 12 ≤ (f.bytes ++ rest).length := by
    rw [List.length_append, length_bytes]
    omega
  have hfields := fieldsOf_bytes h rest
  have hread := fieldsOf_eq hlen
  rw [hfields, Frame.fields, Fields.mk.injEq] at hread
  obtain ⟨_, _, htype, hid, _⟩ := hread
  have hraw : byteAt (f.bytes ++ rest) 3 = f.type.raw := (UInt8.toNat_inj.1 htype).symm
  have hpayload : ((f.bytes ++ rest).drop 12).take f.payload.length = f.payload := by
    have hdrop : (f.bytes ++ rest).drop 12 = f.payload ++ rest := by
      simp [Frame.bytes, List.drop_append, List.drop_of_length_le, -leBytes_one]
    rw [hdrop, List.take_left']
    rfl
  rw [frameOf, hfields, hraw, FrameType.ofRaw?_eq_some.2 rfl, ← UInt32.toNat_inj.1 hid]
  simp only [Option.getD_some, Frame.fields, hpayload]

section Reading

variable (reason : ℕ → ℕ)

theorem readHead_eq_more {data : Bytes} : readHead reason data = .more ↔ Incomplete data := by
  unfold readHead Incomplete
  by_cases hshort : data.length < 12
  · simp [hshort]
  simp only [hshort, if_false, false_or]
  rcases firstViolated (headerChecks (fieldsOf data)) with _ | e
  · by_cases hpiece : data.length < 12 + (fieldsOf data).payloadSize
    · simp [hpiece]
    · simp only [hpiece, if_false, and_false, iff_false]
      rcases firstViolated (payloadChecks reason _ _) with _ | e <;> simp
  · simp

theorem readHead_eq_refused {data : Bytes} {e : WireError} :
    readHead reason data = .refused e ↔ HeadViolates reason data e := by
  unfold readHead HeadViolates
  by_cases hshort : data.length < 12
  · simp [hshort]
  simp only [hshort, if_false, Nat.le_of_not_lt hshort, true_and]
  rcases firstViolated (headerChecks (fieldsOf data)) with _ | e'
  · by_cases hpiece : data.length < 12 + (fieldsOf data).payloadSize
    · simp [hpiece]
    · simp only [hpiece, if_false, Nat.le_of_not_lt hpiece, true_and, reduceCtorEq, false_or,
        frameOf]
      rcases firstViolated (payloadChecks reason _ _) with _ | e' <;> simp
  · simp

/-- A token of the grammar is a valid frame at the head of the stream. -/
theorem readHead_eq_token {data rest : Bytes} {f : Frame} :
    readHead reason data = .token f rest ↔ f.Valid reason ∧ data = f.bytes ++ rest := by
  constructor
  · intro h
    unfold readHead at h
    by_cases hshort : data.length < 12
    · simp [hshort] at h
    rcases hheader : firstViolated (headerChecks (fieldsOf data)) with _ | e
    case some => simp [hshort, hheader] at h
    by_cases hpiece : data.length < 12 + (fieldsOf data).payloadSize
    · simp [hshort, hheader, hpiece] at h
    rcases hpayload : firstViolated
        (payloadChecks reason (fieldsOf data).type (frameOf data).payload) with _ | e
    case some => simp [hshort, hheader, hpiece, hpayload] at h
    simp only [hshort, hheader, hpiece, hpayload, if_false, Next.token.injEq] at h
    obtain ⟨rfl, rfl⟩ := h
    obtain ⟨hfields, hdata⟩ := eq_bytes_append (Nat.le_of_not_lt hshort) hheader
      (Nat.le_of_not_lt hpiece)
    have htype : (frameOf data).type.raw.toNat = (fieldsOf data).type := by rw [← hfields]; rfl
    exact ⟨⟨hfields ▸ hheader, htype ▸ hpayload⟩, hdata⟩
  · rintro ⟨hvalid, rfl⟩
    have hlt : f.payload.length < 256 ^ 4 := by
      have := length_le_of_headerChecks hvalid.header
      omega
    have hlen : (f.bytes ++ rest).length = 12 + f.payload.length + rest.length := by
      rw [List.length_append, length_bytes]
    have hdrop : (f.bytes ++ rest).drop (12 + f.payload.length) = rest :=
      List.drop_left' (length_bytes f)
    have hheader := hvalid.header
    have hpayload := hvalid.payload
    have hshort : ¬ (f.bytes ++ rest).length < 12 := by omega
    have hpiece : ¬ (f.bytes ++ rest).length < 12 + f.payload.length := by omega
    simp only [readHead, fieldsOf_bytes hlt, frameOf_bytes hlt, hheader, if_neg hshort]
    simp only [Frame.fields, hpayload, if_neg hpiece, hdrop]

theorem fieldsOf_append {data : Bytes} (h : 12 ≤ data.length) (more : Bytes) :
    fieldsOf (data ++ more) = fieldsOf data := by
  have htake : ∀ i k, i + k ≤ 12 → ((data ++ more).drop i).take k = (data.drop i).take k := by
    intro i k hik
    rw [List.drop_append_of_le_length (by omega),
      List.take_append_of_le_length (by rw [List.length_drop]; omega)]
  simp only [fieldsOf, htake 2 1 (by omega), htake 3 1 (by omega), htake 4 4 (by omega),
    htake 8 4 (by omega), List.take_append_of_le_length (show 2 ≤ data.length by omega)]

theorem HeadViolates.append {data : Bytes} {e : WireError} (h : HeadViolates reason data e)
    (more : Bytes) : HeadViolates reason (data ++ more) e := by
  obtain ⟨hlen, hviolated⟩ := h
  refine ⟨by simp; omega, ?_⟩
  rw [fieldsOf_append hlen]
  rcases hviolated with hheader | ⟨hheader, hsize, hpayload⟩
  · exact .inl hheader
  · refine .inr ⟨hheader, by simp; omega, ?_⟩
    rwa [List.drop_append_of_le_length hlen,
      List.take_append_of_le_length (by rw [List.length_drop]; omega)]

/-- The grammar as a reader of a stream in pieces. -/
def grammarScanner : Scanner Frame WireError UInt8 where
  next := readHead reason
  shorter := by
    intro data f rest h
    obtain ⟨_, rfl⟩ := (readHead_eq_token reason).1 h
    rw [List.length_append, length_bytes]
    omega
  refused_append := by
    intro data e more h
    exact (readHead_eq_refused reason).2 (((readHead_eq_refused reason).1 h).append reason more)
  token_append := by
    intro data f rest more h
    obtain ⟨hvalid, rfl⟩ := (readHead_eq_token reason).1 h
    exact (readHead_eq_token reason).2 ⟨hvalid, List.append_assoc _ _ _⟩

variable {reason}

/-- How a reading ends at the bytes it did not take. -/
def EndsIn (reason : ℕ → ℕ) (rest : Bytes) : Except WireError Bytes → Prop
  | .ok left => left = rest ∧ Incomplete rest
  | .error e => HeadViolates reason rest e

/-- What a reading has taken is valid frames. -/
theorem reads_split {data : Bytes} {frames : List Frame} {r : Except WireError Bytes}
    (h : (grammarScanner reason).Reads data frames r) :
    (∀ f ∈ frames, f.Valid reason) ∧
      ∃ rest, data = frames.flatMap Frame.bytes ++ rest ∧ EndsIn reason rest r := by
  induction h with
  | more hn => exact ⟨by simp, _, rfl, rfl, (readHead_eq_more reason).1 hn⟩
  | refused hn => exact ⟨by simp, _, rfl, (readHead_eq_refused reason).1 hn⟩
  | token hn _ ih =>
    obtain ⟨hvalid, rfl⟩ := (readHead_eq_token reason).1 hn
    obtain ⟨hvalids, rest, rfl, hend⟩ := ih
    exact ⟨by simpa using ⟨hvalid, hvalids⟩, rest, by simp [List.append_assoc], hend⟩

/-- Valid frames in front of a stream are read first. -/
theorem reads_append {frames : List Frame} (hvalid : ∀ f ∈ frames, f.Valid reason)
    {rest : Bytes} {more : List Frame} {r : Except WireError Bytes}
    (h : (grammarScanner reason).Reads rest more r) :
    (grammarScanner reason).Reads (frames.flatMap Frame.bytes ++ rest) (frames ++ more) r := by
  induction frames with
  | nil => exact h
  | cons f frames ih =>
    rw [List.forall_mem_cons] at hvalid
    have hhead : (grammarScanner reason).next
        (f.bytes ++ (frames.flatMap Frame.bytes ++ rest)) = .token f _ :=
      (readHead_eq_token reason).2 ⟨hvalid.1, rfl⟩
    rw [List.flatMap_cons, List.append_assoc]
    exact .token hhead (ih hvalid.2)

theorem accepts_iff {data : Bytes} :
    Accepts reason data ↔ ∃ frames rest, (grammarScanner reason).Reads data frames (.ok rest) := by
  constructor
  · rintro ⟨frames, rest, hvalid, rfl, hrest⟩
    exact ⟨_, rest, reads_append hvalid (.more ((readHead_eq_more reason).2 hrest))⟩
  · rintro ⟨frames, left, h⟩
    obtain ⟨hvalid, rest, rfl, rfl, hrest⟩ := reads_split h
    exact ⟨frames, left, hvalid, rfl, hrest⟩

theorem violates_iff {data : Bytes} {e : WireError} :
    Violates reason data e ↔ ∃ frames, (grammarScanner reason).Reads data frames (.error e) := by
  constructor
  · rintro ⟨frames, rest, hvalid, rfl, hrest⟩
    exact ⟨_, reads_append hvalid (.refused ((readHead_eq_refused reason).2 hrest))⟩
  · rintro ⟨frames, h⟩
    obtain ⟨hvalid, rest, rfl, hrest⟩ := reads_split h
    exact ⟨frames, rest, hvalid, rfl, hrest⟩

/-- The first violated check of a stream is one check. -/
theorem Violates.unique {data : Bytes} {e e' : WireError} (h : Violates reason data e)
    (h' : Violates reason data e') : e = e' := by
  obtain ⟨_, hread⟩ := violates_iff.1 h
  obtain ⟨_, hread'⟩ := violates_iff.1 h'
  exact Except.error.inj (hread.deterministic hread').2

/-- A stream that violates a check is not accepted. -/
theorem Violates.not_accepts {data : Bytes} {e : WireError} (h : Violates reason data e) :
    ¬ Accepts reason data := by
  intro haccepts
  obtain ⟨_, hread⟩ := violates_iff.1 h
  obtain ⟨_, _, hread'⟩ := accepts_iff.1 haccepts
  cases (hread.deterministic hread').2

/-- Every stream is accepted or violates a check. -/
theorem accepts_or_violates (reason : ℕ → ℕ) (data : Bytes) :
    Accepts reason data ∨ ∃ e, Violates reason data e := by
  have hread := Scanner.reads_read (S := grammarScanner reason) data
  rcases hr : (grammarScanner reason).read data with ⟨frames, e | rest⟩
  · rw [hr] at hread
    exact .inr ⟨e, violates_iff.2 ⟨frames, hread⟩⟩
  · rw [hr] at hread
    exact .inl (accepts_iff.2 ⟨frames, rest, hread⟩)

/-- Valid frames in front do not change which check a stream violates first. -/
theorem violates_append_iff {frames : List Frame} (hvalid : ∀ f ∈ frames, f.Valid reason)
    {rest : Bytes} {e : WireError} :
    Violates reason (frames.flatMap Frame.bytes ++ rest) e ↔ Violates reason rest e := by
  constructor
  · intro h
    rcases accepts_or_violates reason rest with haccepts | ⟨e', h'⟩
    · obtain ⟨_, _, hread⟩ := accepts_iff.1 haccepts
      exact absurd (accepts_iff.2 ⟨_, _, reads_append hvalid hread⟩) h.not_accepts
    · obtain ⟨_, hread⟩ := violates_iff.1 h'
      rwa [h.unique (violates_iff.2 ⟨_, reads_append hvalid hread⟩)]
  · rintro ⟨others, tail, hothers, rfl, htail⟩
    refine ⟨frames ++ others, tail, ?_, by simp, htail⟩
    simpa [or_imp, forall_and] using ⟨hvalid, hothers⟩

end Reading

/-! ### The parser reads by the grammar of the low byte -/

/-- The size check of the parser, in a frame whose header is valid. -/
theorem length_of_headerChecks {f : Frame} (h : firstViolated (headerChecks f.fields) = none)
    (size : UInt32)
    (hsize : lengthRefusal f.type (UInt32.ofNat f.payload.length) = none →
      UInt32.ofNat f.payload.length = size) : f.payload.length = size.toNat := by
  have hle := length_le_of_headerChecks h
  have hword : (UInt32.ofNat f.payload.length).toNat = f.payload.length :=
    Nat.mod_eq_of_lt (by omega)
  have hnone : lengthRefusal f.type (UInt32.ofNat f.payload.length) = none := by
    rw [lengthRefusal_eq f.type _ 0xA755 2 f.streamId.toNat, hword, firstViolated_eq_none]
    intro c hc
    refine firstViolated_eq_none.1 h c ?_
    simp only [headerChecks, List.mem_cons]
    tauto
  rw [← hword, hsize hnone]

theorem toNat_readU16_take {data : Bytes} (h : 2 ≤ data.length) :
    (readU16 data).toNat = leNat (data.take 2) := by
  rw [toNat_readU16, firstBytes_eq_take h]

/-- **The payload checks of the parser** are those of the grammar, with one byte of the reason. -/
theorem payloadRefusal_eq {f : Frame} (h : firstViolated (headerChecks f.fields) = none) :
    payloadRefusal f = firstViolated (payloadChecks lowReason f.type.raw.toNat f.payload) := by
  obtain ⟨type, streamId, payload⟩ := f
  cases type
  case hello =>
    have hlen : payload.length = 8 :=
      length_of_headerChecks h 8 (by simp [lengthRefusal])
    have hversion := @toNat_readU16_take payload (by omega)
    have hreserved := @toNat_readU16_take (payload.drop 2) (by rw [List.length_drop]; omega)
    simp [payloadRefusal, payloadChecks, firstViolated, FrameType.raw, decodeHello, ← hversion,
      ← hreserved, ← UInt16.toNat_inj]
    rfl
  case close =>
    have hlen : payload.length = 1 :=
      length_of_headerChecks h 1 (by simp [lengthRefusal])
    have hraw := @leNat_take_one payload (by omega)
    rw [← hlen, List.take_length] at hraw
    simp [payloadRefusal, payloadChecks, firstViolated, FrameType.raw, decodeCloseReason, hraw,
      UInt8.lt_iff_toNat_lt]
    rfl
  case goAway =>
    have hlen : payload.length = 4 :=
      length_of_headerChecks h 4 (by simp [lengthRefusal])
    have hreason := @toNat_readU16_take payload (by omega)
    simp [payloadRefusal, payloadChecks, firstViolated, FrameType.raw, decodeGoAway, ← hreason,
      UInt16.lt_iff_toNat_lt, lowReason]
    rfl
  case credit =>
    have hlen : payload.length = 4 :=
      length_of_headerChecks h 4 (by simp [lengthRefusal])
    have hcredit := toNat_readU32 payload
    rw [firstBytes_eq_take (by omega), ← hlen, List.take_length] at hcredit
    simp [payloadRefusal, payloadChecks, firstViolated, FrameType.raw, decodeCredit, ← hcredit,
      ← UInt32.toNat_inj]
  all_goals rfl

theorem nextFrame_eq (data : Bytes) : nextFrame data = readHead lowReason data := by
  unfold nextFrame readHead
  simp only [kHeaderSize]
  by_cases hshort : data.length < 12
  · simp only [hshort, if_true]
  simp only [hshort, if_false]
  have hspec := checkHeader_spec (Nat.le_of_not_lt hshort)
  rcases hcheck : checkHeader data with e | header
  · rw [hcheck] at hspec
    simp only [hspec]
  rw [hcheck] at hspec
  obtain ⟨hheader, htype, hid, hsize⟩ := hspec
  simp only [hheader, ← hsize]
  by_cases hpiece : data.length < 12 + (fieldsOf data).payloadSize
  · simp only [hpiece, if_true]
  simp only [hpiece, if_false]
  obtain ⟨hfields, -⟩ := eq_bytes_append (Nat.le_of_not_lt hshort) hheader
    (Nat.le_of_not_lt hpiece)
  have hread := hfields
  simp only [Frame.fields, Fields.ext_iff, htype, hid] at hread
  have hframe : (⟨header.type, header.streamId, (data.drop 12).take (fieldsOf data).payloadSize⟩ :
      Frame) = frameOf data := by
    rw [← FrameType.raw_injective (UInt8.toNat_inj.1 hread.2.2.1),
      ← UInt32.toNat_inj.1 hread.2.2.2.1]
    rfl
  have hrefusal := payloadRefusal_eq (hfields ▸ hheader)
  rw [hread.2.2.1, ← htype] at hrefusal
  rcases hviolated : firstViolated (payloadChecks lowReason (fieldsOf data).type
      (frameOf data).payload) with _ | error <;>
    simp only [hframe, hrefusal, hviolated]

theorem frameScanner_eq : frameScanner = grammarScanner lowReason := by
  have hnext : frameScanner.next = (grammarScanner lowReason).next := funext nextFrame_eq
  revert hnext
  generalize frameScanner = S, grammarScanner lowReason = S'
  intro hnext
  cases S; cases S'
  congr

/-- What a fresh parser is after one feed of the whole stream. -/
theorem feed_new (data : Bytes) :
    ({} : FrameParser).feed data =
      ({} : FrameParser).afterRead ((grammarScanner lowReason).read data) := by
  rw [FrameParser.feed_eq FrameParser.settled_new rfl, frameScanner_eq]
  rfl

/-- **The parser meets the grammar of the low byte**: it has not failed exactly on the streams
that grammar accepts, and its error is the first check the stream violates. -/
theorem parser_meets_low_grammar (data : Bytes) :
    ((({} : FrameParser).feed data).failed = false ↔ Accepts lowReason data) ∧
      ∀ e, (({} : FrameParser).feed data).failed = true →
        ((({} : FrameParser).feed data).error = e ↔ Violates lowReason data e) := by
  have hread := Scanner.reads_read (S := grammarScanner lowReason) data
  rw [feed_new]
  rcases hr : (grammarScanner lowReason).read data with ⟨frames, e | rest⟩
  · rw [hr] at hread
    have hviolates : Violates lowReason data e := violates_iff.2 ⟨frames, hread⟩
    refine ⟨by simpa [FrameParser.afterRead, FrameParser.refuse] using hviolates.not_accepts, ?_⟩
    intro e' _
    simp only [FrameParser.afterRead, FrameParser.refuse]
    exact ⟨fun h => h ▸ hviolates, hviolates.unique⟩
  · rw [hr] at hread
    have haccepts : Accepts lowReason data := accepts_iff.2 ⟨frames, rest, hread⟩
    simpa [FrameParser.afterRead] using haccepts

/-! ### The parser and the wire -/

/-- What the wire asks of the parser at `data`: however it is cut, the parser ends as after one
feed, it has not failed exactly when the stream is accepted, and when it has failed the error is
that of the first violated check and no frame is left. -/
def MeetsGrammar (data : Bytes) : Prop :=
  ∀ steps : List (Bytes × ℕ), steps.flatMap Prod.fst = data →
    let whole := ({} : FrameParser).feed data
    let popped := (FrameParser.session steps {}).1
    let p := (FrameParser.session steps {}).2
    p.failed = whole.failed ∧ p.error = whole.error ∧
      (p.failed = false → popped ++ p.frames = whole.frames) ∧
      (p.failed = false ↔ Accepts wholeReason data) ∧
      (p.failed = true → Violates wholeReason data p.error ∧ p.frames = [])

/-- A GOAWAY with a reason that is unknown, but not by its low byte. -/
structure WideGoAway (f : Frame) : Prop where
  type : f.type = .goAway
  streamId : f.streamId = 0
  length : f.payload.length = 4
  unknown : 2 < leNat (f.payload.take 2)
  lowByte : leNat (f.payload.take 2) % 256 ≤ 2

/-- The check on the reason of a GOAWAY comes last. -/
theorem firstViolated_payloadChecks (reason : ℕ → ℕ) (type : ℕ) (payload : Bytes) :
    firstViolated (payloadChecks reason type payload) =
      (firstViolated ((payloadChecks wholeReason type payload).take 4)).or
        (if type = 8 ∧ 2 < reason (leNat (payload.take 2)) then some .malformedGoAway
        else none) := by
  simp only [payloadChecks, List.take, firstViolated, decide_eq_true_eq]
  split_ifs <;> rfl

theorem payloadChecks_whole_of_low {type : ℕ} {payload : Bytes} {e : WireError}
    (h : firstViolated (payloadChecks lowReason type payload) = some e) :
    firstViolated (payloadChecks wholeReason type payload) = some e := by
  rw [firstViolated_payloadChecks, Option.or_eq_some_iff] at h ⊢
  simp only [Option.ite_none_right_eq_some] at h ⊢
  rcases h with h | ⟨hnone, ⟨htype, hreason⟩, he⟩
  · exact .inl h
  · exact .inr ⟨hnone, ⟨htype, hreason.trans_le (Nat.mod_le _ _)⟩, he⟩

/-- Where one byte of the reason passes, the whole reason is what can be wrong. -/
theorem payloadChecks_whole_of_low_none {type : ℕ} {payload : Bytes}
    (h : firstViolated (payloadChecks lowReason type payload) = none) :
    firstViolated (payloadChecks wholeReason type payload) =
      if type = 8 ∧ 2 < leNat (payload.take 2) then some .malformedGoAway else none := by
  rw [firstViolated_payloadChecks, Option.or_eq_none_iff] at h
  rw [firstViolated_payloadChecks, h.1]
  rfl

theorem HeadViolates.whole {data : Bytes} {e : WireError} (h : HeadViolates lowReason data e) :
    HeadViolates wholeReason data e := by
  obtain ⟨hlen, hheader | ⟨hheader, hsize, hpayload⟩⟩ := h
  · exact ⟨hlen, .inl hheader⟩
  · exact ⟨hlen, .inr ⟨hheader, hsize, payloadChecks_whole_of_low hpayload⟩⟩

theorem Frame.Valid.low {f : Frame} (h : f.Valid wholeReason) : f.Valid lowReason where
  header := h.header
  payload := by
    rcases hlow : firstViolated (payloadChecks lowReason f.type.raw.toNat f.payload) with _ | e
    · rfl
    · rw [← h.payload, payloadChecks_whole_of_low hlow]

theorem WideGoAway.low {f : Frame} (h : WideGoAway f) : f.Valid lowReason := by
  obtain ⟨type, streamId, payload⟩ := f
  obtain ⟨rfl, rfl, hlength, -, hlow⟩ := h
  simp only at hlength hlow
  constructor
  · simp only [Frame.fields, hlength]
    decide
  · simp [payloadChecks, firstViolated, FrameType.raw, lowReason, hlow]

/-- The two grammars differ in the wide GOAWAY frames and nowhere else. -/
theorem valid_or_wide {f : Frame} (h : f.Valid lowReason) :
    f.Valid wholeReason ∨ WideGoAway f := by
  have hwhole := payloadChecks_whole_of_low_none h.payload
  split_ifs at hwhole with hreason
  case neg => exact .inl ⟨h.header, hwhole⟩
  obtain ⟨type, streamId, payload⟩ := f
  obtain rfl : type = .goAway := FrameType.raw_injective (UInt8.toNat_inj.1 hreason.1)
  have hlength : payload.length = 4 := length_of_headerChecks h.header 4 (by simp [lengthRefusal])
  have hlow := h.payload
  rw [firstViolated_payloadChecks, Option.or_eq_none_iff] at hlow
  simp only [ite_eq_right_iff, reduceCtorEq, imp_false, not_and, not_lt] at hlow
  have hid : ¬ (FrameType.goAway.raw.toNat ∈ controlTypes ∧ streamId.toNat ≠ 0) :=
    of_decide_eq_false (firstViolated_eq_none.1 h.header (_, .streamIdForbidden)
      (.tail _ (.tail _ (.tail _ (.tail _ (.head _))))))
  have hzero : streamId.toNat = 0 := by
    by_contra hne
    exact hid ⟨by decide, hne⟩
  exact .inr ⟨rfl, UInt32.toNat_inj.1 hzero, hlength, hreason.2, hlow.2 rfl⟩

/-- The bytes of a wide GOAWAY violate the grammar of the wire there. -/
theorem WideGoAway.headViolates {f : Frame} (h : WideGoAway f) (rest : Bytes) :
    HeadViolates wholeReason (f.bytes ++ rest) .malformedGoAway := by
  have hlow := h.low
  have hlt : f.payload.length < 256 ^ 4 := by
    have := length_le_of_headerChecks hlow.header
    omega
  have hpayload : ((f.bytes ++ rest).drop 12).take (fieldsOf (f.bytes ++ rest)).payloadSize =
      f.payload := congrArg Frame.payload (frameOf_bytes hlt rest)
  have hlen : (f.bytes ++ rest).length = 12 + f.payload.length + rest.length := by
    rw [List.length_append, length_bytes]
  refine ⟨by omega, .inr ?_⟩
  rw [hpayload, fieldsOf_bytes hlt]
  refine ⟨hlow.header, by simp only [Frame.fields, hlen]; omega, ?_⟩
  have htype : f.type.raw.toNat = 8 := by rw [h.type]; rfl
  rw [Frame.fields, payloadChecks_whole_of_low_none hlow.payload, if_pos ⟨htype, h.unknown⟩]

/-- Valid frames up to the first wide GOAWAY, if there is one. -/
theorem split_at_wide {frames : List Frame} (h : ∀ f ∈ frames, f.Valid lowReason) :
    (∀ f ∈ frames, f.Valid wholeReason) ∨
      ∃ before g after, frames = before ++ g :: after ∧
        (∀ f ∈ before, f.Valid wholeReason) ∧ WideGoAway g := by
  induction frames with
  | nil => exact .inl (by simp)
  | cons f frames ih =>
    rw [List.forall_mem_cons] at h
    rcases valid_or_wide h.1 with hf | hf
    · rcases ih h.2 with hall | ⟨before, g, after, rfl, hbefore, hg⟩
      · exact .inl (List.forall_mem_cons.2 ⟨hf, hall⟩)
      · exact .inr ⟨f :: before, g, after, rfl, List.forall_mem_cons.2 ⟨hf, hbefore⟩, hg⟩
    · exact .inr ⟨[], f, frames, rfl, by simp, hf⟩

/-- Every stream and cut: what does not depend on the grammar, and what the parser's own does. -/
theorem session_spec {data : Bytes} {steps : List (Bytes × ℕ)}
    (h : steps.flatMap Prod.fst = data) :
    let whole := ({} : FrameParser).feed data
    let popped := (FrameParser.session steps {}).1
    let p := (FrameParser.session steps {}).2
    p.failed = whole.failed ∧ p.error = whole.error ∧
      (p.failed = false → popped ++ p.frames = whole.frames) ∧
      (p.failed = true → p.frames = []) := by
  have hsession := FrameParser.session_popped steps FrameParser.settled_new
  rw [h] at hsession
  refine ⟨hsession.failed, hsession.error, fun hp => ?_, fun hp => ?_⟩
  · exact hsession.frames (hsession.failed ▸ hp)
  · exact hsession.dropped (hsession.failed ▸ hp)

/-- Every wide GOAWAY that only valid frames precede is followed by bytes in which the grammar of
the low byte finds a malformed GOAWAY first. -/
def WideGoAwaysMasked (data : Bytes) : Prop :=
  ∀ (frames : List Frame) (g : Frame) (rest : Bytes), (∀ f ∈ frames, f.Valid wholeReason) →
    WideGoAway g → data = frames.flatMap Frame.bytes ++ (g.bytes ++ rest) →
      Violates lowReason rest .malformedGoAway

theorem violates_of_wide {frames : List Frame} {g : Frame}
    (hvalid : ∀ f ∈ frames, f.Valid wholeReason) (hwide : WideGoAway g) (rest : Bytes) :
    Violates wholeReason (frames.flatMap Frame.bytes ++ (g.bytes ++ rest)) .malformedGoAway :=
  ⟨frames, g.bytes ++ rest, hvalid, rfl, hwide.headViolates rest⟩

/-- The grammar of the low byte reads on behind a wide GOAWAY. -/
theorem violates_low_behind_wide {frames : List Frame} {g : Frame}
    (hvalid : ∀ f ∈ frames, f.Valid wholeReason) (hwide : WideGoAway g) {rest : Bytes}
    {e : WireError} :
    Violates lowReason (frames.flatMap Frame.bytes ++ (g.bytes ++ rest)) e ↔
      Violates lowReason rest e := by
  have hlow : ∀ f ∈ frames ++ [g], f.Valid lowReason := by
    simp only [List.mem_append, List.mem_singleton]
    rintro f (hf | rfl)
    · exact (hvalid f hf).low
    · exact hwide.low
  simpa using @violates_append_iff lowReason _ hlow rest e

/-- Where the wide GOAWAYs are masked, the two grammars give one verdict. -/
theorem WideGoAwaysMasked.agree {data : Bytes} (h : WideGoAwaysMasked data) :
    (Accepts lowReason data → Accepts wholeReason data) ∧
      ∀ e, Violates lowReason data e → Violates wholeReason data e := by
  constructor
  · rintro ⟨frames, rest, hvalid, rfl, hrest⟩
    rcases split_at_wide hvalid with hall | ⟨before, g, after, rfl, hbefore, hwide⟩
    · exact ⟨frames, rest, hall, rfl, hrest⟩
    · have hmasked := h before g (after.flatMap Frame.bytes ++ rest) hbefore hwide (by simp)
      rw [← violates_low_behind_wide hbefore hwide] at hmasked
      refine absurd ?_ hmasked.not_accepts
      exact ⟨_, rest, hvalid, by simp, hrest⟩
  · rintro e ⟨frames, rest, hvalid, rfl, hrest⟩
    rcases split_at_wide hvalid with hall | ⟨before, g, after, rfl, hbefore, hwide⟩
    · exact ⟨frames, rest, hall, rfl, hrest.whole⟩
    · have hmasked := h before g (after.flatMap Frame.bytes ++ rest) hbefore hwide (by simp)
      rw [← violates_low_behind_wide hbefore hwide] at hmasked
      have he : e = .malformedGoAway :=
        @Violates.unique lowReason _ _ _ ⟨_, rest, hvalid, by simp, hrest⟩ hmasked
      subst he
      simpa using violates_of_wide hbefore hwide (after.flatMap Frame.bytes ++ rest)

/-- **The parser meets the grammar of the wire** exactly on the streams whose wide GOAWAYs are
masked; on every other stream it reads on where the wire has an error. -/
theorem meetsGrammar_iff (data : Bytes) : MeetsGrammar data ↔ WideGoAwaysMasked data := by
  obtain ⟨hfailed, herror⟩ := parser_meets_low_grammar data
  constructor
  · intro h frames g rest hvalid hwide hdata
    have hviolates := violates_of_wide hvalid hwide rest
    rw [← hdata] at hviolates
    obtain ⟨hsame, hsameError, -, haccepts, hfirst⟩ := h [(data, 0)] (by simp)
    have hp : (FrameParser.session [(data, 0)] {}).2.failed = true :=
      Bool.of_not_eq_false fun hp => hviolates.not_accepts (haccepts.1 hp)
    have he := (hfirst hp).1.unique hviolates
    rw [← violates_low_behind_wide hvalid hwide, ← hdata]
    exact (herror _ (hsame ▸ hp)).1 (hsameError ▸ he)
  · intro h steps hsteps
    obtain ⟨hsame, hsameError, hframes, hdropped⟩ := session_spec hsteps
    obtain ⟨haccepts, hviolates⟩ := h.agree
    refine ⟨hsame, hsameError, hframes, ?_, fun hp => ⟨?_, hdropped hp⟩⟩
    · rw [hsame, hfailed]
      refine ⟨haccepts, fun hwhole => ?_⟩
      rcases accepts_or_violates lowReason data with hlow | ⟨e, he⟩
      · exact hlow
      · exact absurd hwhole (hviolates e he).not_accepts
    · rw [hsameError]
      exact hviolates _ ((herror _ (hsame ▸ hp)).1 rfl)

/-- A GOAWAY with reason 256 and no seconds. -/
def goAway256 : Bytes := [0x55, 0xA7, 2, 8, 0, 0, 0, 0, 4, 0, 0, 0, 0x00, 0x01, 0, 0]

/-- The parser takes a GOAWAY with reason 256, which the wire refuses. -/
theorem not_meetsGrammar_goAway256 : ¬ MeetsGrammar goAway256 := by
  intro h
  obtain ⟨-, -, -, haccepts, -⟩ := h [(goAway256, 0)] (by simp)
  have hhead : HeadViolates wholeReason goAway256 .malformedGoAway :=
    ⟨by decide, .inr ⟨by decide, by decide, by decide⟩⟩
  have hviolates : Violates wholeReason goAway256 .malformedGoAway := ⟨[], _, by simp, rfl, hhead⟩
  exact hviolates.not_accepts (haccepts.1 (by decide +kernel))

end Link

end ArgusBackend
