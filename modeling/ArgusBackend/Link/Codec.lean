import ArgusBackend.Link.Grammar
import Mathlib.Data.List.Forall2

/-!
# Encoders against the parser

A `Message` is a call of one of the encoders with its arguments.  `Message.InRange` is what the
encoders leave to their callers: they check none of the bounds the parser enforces.

* `parses_back` : a parser fed the encodings of messages in range, in any pieces, gives their
  frames in order, and the decoders give the arguments back;
* `reencodes` : whatever a parser that has not failed was fed, its frames encode to the bytes
  they were parsed from.
-/

namespace ArgusBackend

namespace Link

/-- A call of an encoder. -/
inductive Message where
  | hello (capabilities : UInt32)
  | «open» (streamId : UInt32)
  | data (streamId : UInt32) (bytes : Bytes)
  | close (streamId : UInt32) (reason : CloseReason)
  | push (intent : Bytes)
  | ping (nonce : UInt64)
  | pong (nonce : UInt64)
  | goAway (reason : GoAwayReason) (seconds : UInt16)
  | credit (streamId bytes : UInt32)
  deriving DecidableEq

namespace Message

/-- The bytes of a message. -/
def encode : Message → Bytes
  | hello capabilities => encodeHello capabilities
  | «open» streamId => encodeOpen streamId
  | data streamId bytes => encodeData streamId bytes
  | close streamId reason => encodeClose streamId reason
  | push intent => encodePush intent
  | ping nonce => encodePing nonce
  | pong nonce => encodePong nonce
  | goAway reason seconds => encodeGoAway reason seconds
  | credit streamId bytes => encodeCredit streamId bytes

/-- The frame a message stands for. -/
def frame : Message → Frame
  | hello capabilities =>
    ⟨.hello, 0, leBytes 2 2 ++ (leBytes 2 0 ++ leBytes 4 (capabilities &&& capability.kKnown).toNat)⟩
  | «open» streamId => ⟨.open, streamId, []⟩
  | data streamId bytes => ⟨.data, streamId, bytes⟩
  | close streamId reason => ⟨.close, streamId, [reason.raw]⟩
  | push intent => ⟨.push, 0, intent⟩
  | ping nonce => ⟨.ping, 0, leBytes 8 nonce.toNat⟩
  | pong nonce => ⟨.pong, 0, leBytes 8 nonce.toNat⟩
  | goAway reason seconds =>
    ⟨.goAway, 0, leBytes 2 reason.raw.toNat ++ leBytes 2 seconds.toNat⟩
  | credit streamId bytes => ⟨.credit, streamId, leBytes 4 bytes.toNat⟩

/-- Arguments the link gives the encoder: a stream id that is not zero, payloads that fit, a
reason of the enumeration, some credit. -/
def InRange : Message → Prop
  | hello _ | ping _ | pong _ => True
  | «open» streamId => streamId ≠ 0
  | data streamId bytes => streamId ≠ 0 ∧ bytes.length ≤ kDataFrameMax
  | close streamId reason => streamId ≠ 0 ∧ reason.raw ≤ CloseReason.error.raw
  | push intent => intent.length ≤ kMaxPayload
  | goAway reason _ => reason.raw ≤ GoAwayReason.protocolError.raw
  | credit streamId bytes => streamId ≠ 0 ∧ bytes ≠ 0

instance : DecidablePred InRange
  | hello _ | ping _ | pong _ => .isTrue trivial
  | «open» _ => inferInstanceAs (Decidable (_ ≠ _))
  | data _ _ | close _ _ | credit _ _ => inferInstanceAs (Decidable (_ ∧ _))
  | push _ | goAway _ _ => inferInstanceAs (Decidable (_ ≤ _))

/-- What the decoders say about a frame, read against a message. -/
def DecodesTo (f : Frame) : Message → Prop
  | hello capabilities => decodeHello f = ⟨2, 0, capabilities &&& capability.kKnown⟩
  | «open» streamId => f.streamId = streamId ∧ f.payload = []
  | data streamId bytes => f.streamId = streamId ∧ f.payload = bytes
  | close streamId reason => f.streamId = streamId ∧ decodeCloseReason f = reason
  | push intent => f.payload = intent
  | ping nonce | pong nonce => decodeNonce f = nonce
  | goAway reason seconds => decodeGoAway f = ⟨reason, seconds⟩
  | credit streamId bytes => f.streamId = streamId ∧ decodeCredit f = bytes

end Message

/-! ### The encoders write the frames -/

theorem nonceBytes_eq (nonce : UInt64) : nonceBytes nonce = leBytes 8 nonce.toNat := by
  simp only [nonceBytes, List.range_succ, List.range_zero, List.map_nil,
    List.map_cons, List.nil_append, List.cons_append, leBytes, List.cons.injEq, and_true,
    ← UInt8.toNat_inj]
  refine ⟨?_, ?_, ?_, ?_, ?_, ?_, ?_, ?_⟩ <;>
    simp [Nat.shiftRight_eq_div_pow, Nat.and_two_pow_sub_one_eq_mod _ 8, Nat.div_div_eq_div_mul]

theorem Message.encode_eq (m : Message) : m.encode = m.frame.bytes := by
  cases m with
  | pong nonce =>
    -- the fourth byte of the ping is its type
    simp only [encode, encodePong, encodePing, encodeFrame_eq, frame, nonceBytes_eq]
    simp [Frame.bytes, leBytes, FrameType.raw]
  | hello capabilities =>
    simp only [encode, encodeHello, encodeFrame_eq, frame, appendU16_eq, appendU32_eq,
      List.nil_append, List.append_assoc]
    rfl
  | goAway reason seconds =>
    simp only [encode, encodeGoAway, encodeFrame_eq, frame, appendU16_eq, List.nil_append,
      UInt8.toNat_toUInt16]
  | credit streamId bytes =>
    simp only [encode, encodeCredit, encodeFrame_eq, frame, appendU32_eq, List.nil_append]
  | ping nonce => simp only [encode, encodePing, encodeFrame_eq, frame, nonceBytes_eq]
  | «open» | data | close | push =>
    simp only [encode, encodeOpen, encodeData, encodeClose, encodePush, encodeFrame_eq, frame]

theorem streamId_toNat_ne {streamId : UInt32} (h : streamId ≠ 0) : streamId.toNat ≠ 0 :=
  fun hzero => h (UInt32.toNat_inj.1 hzero)

/-- A frame with arguments in range passes every check of the wire. -/
theorem Message.InRange.valid {m : Message} (h : m.InRange) : m.frame.Valid wholeReason := by
  cases m with
  | hello capabilities =>
    constructor <;>
      simp [frame, headerChecks, lengthChecks, payloadChecks, firstViolated, Frame.fields,
        FrameType.raw, controlTypes]
  | ping nonce | pong nonce =>
    constructor <;>
      simp [frame, headerChecks, lengthChecks, payloadChecks, firstViolated, Frame.fields,
        FrameType.raw, controlTypes]
  | «open» streamId =>
    have hid := streamId_toNat_ne h
    constructor <;>
      simp [frame, headerChecks, lengthChecks, payloadChecks, firstViolated, Frame.fields,
        FrameType.raw, controlTypes, hid]
  | data streamId bytes =>
    obtain ⟨hne, hlen⟩ := h
    have hid := streamId_toNat_ne hne
    have hdata : ¬ 64 * 1024 < bytes.length := Nat.not_lt.2 hlen
    have hmax : ¬ 256 * 1024 < bytes.length := fun h => hdata (by omega)
    constructor <;>
      simp [frame, headerChecks, lengthChecks, payloadChecks, firstViolated, Frame.fields,
        FrameType.raw, controlTypes, hid, hdata, hmax]
  | close streamId reason =>
    obtain ⟨hne, hreason⟩ := h
    have hid := streamId_toNat_ne hne
    have hraw : reason.raw.toNat ≤ 4 := UInt8.le_iff_toNat_le.1 hreason
    constructor <;>
      simp [frame, headerChecks, lengthChecks, payloadChecks, firstViolated, Frame.fields,
        FrameType.raw, controlTypes, hid, leNat, hraw]
  | push intent =>
    simp only [InRange, kMaxPayload] at h
    constructor <;>
      simp [frame, headerChecks, lengthChecks, payloadChecks, firstViolated, Frame.fields,
        FrameType.raw, controlTypes]
    omega
  | goAway reason seconds =>
    have hraw : reason.raw.toNat ≤ 2 := UInt8.le_iff_toNat_le.1 h
    constructor <;>
      simp [frame, headerChecks, lengthChecks, payloadChecks, firstViolated, Frame.fields,
        FrameType.raw, controlTypes, wholeReason]
    omega
  | credit streamId bytes =>
    obtain ⟨hne, hbytes⟩ := h
    have hid := streamId_toNat_ne hne
    have hcredit := streamId_toNat_ne hbytes
    constructor <;>
      simp [frame, headerChecks, lengthChecks, payloadChecks, firstViolated, Frame.fields,
        FrameType.raw, controlTypes, hid, hcredit]

/-! ### The decoders read the arguments back -/

/-- Bytes shifted in from the last to the first are the number they hold. -/
theorem toNat_foldr_shiftLeft {bytes : Bytes} (h : bytes.length ≤ 8) :
    (bytes.foldr (fun b (nonce : UInt64) => (nonce <<< 8) ||| b.toUInt64) 0).toNat =
      leNat bytes := by
  induction bytes with
  | nil => rfl
  | cons b bytes ih =>
    have htail := ih (Nat.le_of_succ_le h)
    have hlt : leNat bytes < 256 ^ 7 :=
      (leNat_lt bytes).trans_le (Nat.pow_le_pow_right (by omega) (Nat.le_of_succ_le_succ h))
    rw [List.foldr_cons, UInt64.toNat_shiftLeft_or (s := 8) (i := 8) rfl (by omega)
      (by simpa using b.toNat_lt) (by rw [htail]; omega), htail]
    simp [leNat]

theorem decodeNonce_eq {f : Frame} {nonce : UInt64} (h : f.payload = leBytes 8 nonce.toNat) :
    decodeNonce f = nonce := by
  apply UInt64.toNat_inj.1
  have hfold : decodeNonce f =
      (firstBytes 8 f.payload).foldr
        (fun b (nonce : UInt64) => (nonce <<< 8) ||| b.toUInt64) 0 := by
    rw [decodeNonce, List.foldl_reverse, firstBytes, List.foldr_map]
  rw [hfold, toNat_foldr_shiftLeft (by simp [firstBytes]), h,
    firstBytes_eq_take (by rw [length_leBytes]), List.take_of_length_le (by rw [length_leBytes]),
    leNat_leBytes]
  exact Nat.mod_eq_of_lt nonce.toNat_lt

theorem Message.decodesTo (m : Message) : DecodesTo m.frame m := by
  have hdrop : ∀ (n : ℕ) (tail : Bytes), (leBytes 2 n ++ tail).drop 2 = tail :=
    fun n tail => List.drop_left' (length_leBytes 2 n)
  cases m with
  | hello capabilities =>
    have hversion := readU16_leBytes 2
      (leBytes 2 0 ++ leBytes 4 (capabilities &&& capability.kKnown).toNat)
    have hreserved := readU16_leBytes 0 (leBytes 4 (capabilities &&& capability.kKnown).toNat)
    have hcapabilities := readU32_leBytes (capabilities &&& capability.kKnown) []
    rw [List.append_nil] at hcapabilities
    have hskip : (leBytes 2 2 ++ (leBytes 2 0 ++
        leBytes 4 (capabilities &&& capability.kKnown).toNat)).drop 4 =
        leBytes 4 (capabilities &&& capability.kKnown).toNat := by
      rw [show 4 = 2 + 2 from rfl, ← List.drop_drop, hdrop, hdrop]
    simp only [DecodesTo, decodeHello, frame, hdrop, hskip, hcapabilities]
    exact congrArg₂ (HelloPayload.mk · · _) hversion hreserved
  | ping nonce | pong nonce => exact decodeNonce_eq rfl
  | goAway reason seconds =>
    have hreason := readU16_leBytes reason.raw.toUInt16 (leBytes 2 seconds.toNat)
    have hseconds := readU16_leBytes seconds []
    rw [List.append_nil] at hseconds
    rw [UInt8.toNat_toUInt16] at hreason
    simp only [DecodesTo, decodeGoAway, frame, hdrop, hreason, hseconds, UInt8.toUInt8_toUInt16]
  | credit streamId bytes =>
    have hbytes := readU32_leBytes bytes []
    rw [List.append_nil] at hbytes
    exact ⟨rfl, hbytes⟩
  | close streamId reason => exact ⟨rfl, rfl⟩
  | «open» | data => exact ⟨rfl, rfl⟩
  | push => rfl

/-! ### Round trips -/

/-- What a session over a stream ends in, read by the grammar. -/
theorem session_eq {data : Bytes} {steps : List (Bytes × ℕ)}
    (hsteps : steps.flatMap Prod.fst = data) {frames : List Frame} {rest : Bytes}
    (hread : (grammarScanner lowReason).Reads data frames (.ok rest)) :
    let popped := (FrameParser.session steps {}).1
    let p := (FrameParser.session steps {}).2
    p.failed = false ∧ popped ++ p.frames = frames ∧ p.buffer = rest := by
  have hfeed : ({} : FrameParser).feed data = { frames := frames, buffer := rest } := by
    rw [feed_new, Scanner.reads_iff.1 hread]
    rfl
  have hsession := FrameParser.session_popped steps FrameParser.settled_new
  rw [hsteps, hfeed] at hsession
  exact ⟨hsession.failed, hsession.frames rfl, hsession.buffer⟩

/-- A message is parsed back: from the encodings of messages, cut in any way, the parser pops
their frames in order, and each decodes to its arguments. -/
def ParsesBack (messages : List Message) : Prop :=
  ∀ steps : List (Bytes × ℕ), steps.flatMap Prod.fst = messages.flatMap Message.encode →
    let popped := (FrameParser.session steps {}).1
    let p := (FrameParser.session steps {}).2
    p.failed = false ∧ p.buffer = [] ∧ popped ++ p.frames = messages.map Message.frame ∧
      List.Forall₂ Message.DecodesTo (popped ++ p.frames) messages

/-- The frames popped encode to the bytes they were parsed from, also when the parser fails
later; while it has not failed, so do the frames still queued, up to the unread bytes. -/
def Reencodes (steps : List (Bytes × ℕ)) : Prop :=
  let popped := (FrameParser.session steps {}).1
  let p := (FrameParser.session steps {}).2
  (∃ rest, popped.flatMap encodeFrame ++ rest = steps.flatMap Prod.fst) ∧
    (p.failed = false →
      (popped ++ p.frames).flatMap encodeFrame ++ p.buffer = steps.flatMap Prod.fst)

theorem parsesBack {messages : List Message} (h : ∀ m ∈ messages, m.InRange) :
    ParsesBack messages := by
  intro steps hsteps
  have hvalid : ∀ f ∈ messages.map Message.frame, f.Valid lowReason := by
    simp only [List.mem_map]
    rintro f ⟨m, hm, rfl⟩
    exact (h m hm).valid.low
  have hend : (grammarScanner lowReason).Reads [] [] (.ok []) := .more rfl
  have hread := reads_append hvalid hend
  have hencode : messages.flatMap Message.encode =
      (messages.map Message.frame).flatMap Frame.bytes ++ [] := by
    rw [List.append_nil, List.flatMap_map, funext Message.encode_eq]
  rw [← hencode, List.append_nil] at hread
  obtain ⟨hfailed, hframes, hbuffer⟩ := session_eq hsteps hread
  refine ⟨hfailed, hbuffer, hframes, ?_⟩
  rw [hframes, List.forall₂_map_left_iff, List.forall₂_same]
  exact fun m _ => m.decodesTo

/-- The frames of a stream, up to its end or its first violated check. -/
def framesOf (data : Bytes) : List Frame := ((grammarScanner lowReason).read data).1

theorem framesOf_append (data more : Bytes) : framesOf data <+: framesOf (data ++ more) := by
  rw [framesOf, framesOf, Scanner.read_append]
  rcases (grammarScanner lowReason).read data with ⟨frames, e | rest⟩
  · exact List.prefix_rfl
  · exact List.prefix_append _ _

/-- Queued frames are frames of the stream. -/
theorem prefix_framesOf {data : Bytes} {popped : List Frame} {p : FrameParser}
    (h : FrameParser.Popped popped p (({} : FrameParser).feed data))
    (hpopped : popped <+: framesOf data) : popped ++ p.frames <+: framesOf data := by
  by_cases hfailed : (({} : FrameParser).feed data).failed = true
  · rwa [h.dropped hfailed, List.append_nil]
  · rw [Bool.not_eq_true] at hfailed
    rw [h.frames hfailed]
    rw [feed_new] at hfailed ⊢
    rcases hread : (grammarScanner lowReason).read data with ⟨frames, e | rest⟩
    · rw [hread] at hfailed
      cases hfailed
    · simp only [framesOf, hread, FrameParser.afterRead, List.nil_append]
      exact List.prefix_rfl

theorem popFrames_prefixed (n : ℕ) (p : FrameParser) :
    (FrameParser.popFrames n p).1 <+: p.frames := by
  induction n generalizing p with
  | zero => exact List.nil_prefix
  | succ n ih =>
    rcases hframes : p.frames with _ | ⟨frame, frames⟩
    · simp [FrameParser.popFrames, FrameParser.popFrame, hframes]
    · simpa [FrameParser.popFrames, FrameParser.popFrame, hframes] using
        ih { p with frames := frames }

/-- What a session pops is the first frames of its input. -/
theorem session_prefix (steps : List (Bytes × ℕ)) {data : Bytes} {popped : List Frame}
    {p : FrameParser} (h : FrameParser.Popped popped p (({} : FrameParser).feed data))
    (hpopped : popped <+: framesOf data) :
    popped ++ (FrameParser.session steps p).1 <+: framesOf (data ++ steps.flatMap Prod.fst) := by
  induction steps generalizing data popped p with
  | nil => simpa [FrameParser.session] using hpopped
  | cons step rest ih =>
    obtain ⟨bytes, pops⟩ := step
    have hsettled := FrameParser.settled_new.feed data
    have hfed := h.feed hsettled bytes
    rw [← FrameParser.feed_append FrameParser.settled_new] at hfed
    have hqueued := prefix_framesOf hfed (hpopped.trans (framesOf_append data bytes))
    have hnow : popped ++ (FrameParser.popFrames pops (p.feed bytes)).1 <+:
        framesOf (data ++ bytes) :=
      ((List.prefix_append_right_inj popped).2 (popFrames_prefixed pops _)).trans hqueued
    have hrest := ih (hfed.popFrames pops) hnow
    simpa [FrameParser.session, List.flatMap_cons, List.append_assoc] using hrest

theorem reencodes_session (steps : List (Bytes × ℕ)) : Reencodes steps := by
  have hencode : encodeFrame = Frame.bytes := funext encodeFrame_eq
  constructor
  · have hnew : FrameParser.Popped [] {} (({} : FrameParser).feed []) :=
      FrameParser.settled_new.popped_nil
    obtain ⟨frames, hframes⟩ := session_prefix steps hnew List.nil_prefix
    obtain ⟨-, rest, hdata, -⟩ :=
      reads_split (Scanner.reads_read (S := grammarScanner lowReason) (steps.flatMap Prod.fst))
    rw [List.nil_append, List.nil_append, framesOf] at hframes
    rw [← hframes, List.flatMap_append, List.append_assoc] at hdata
    exact ⟨_, hencode ▸ hdata.symm⟩
  · intro hfailed
    obtain ⟨hsame, -, -, -⟩ := @session_spec _ steps rfl
    obtain ⟨haccepts, -⟩ := parser_meets_low_grammar (steps.flatMap Prod.fst)
    obtain ⟨frames, rest, hread⟩ := accepts_iff.1 (haccepts.1 (hsame ▸ hfailed))
    obtain ⟨-, hframes, hbuffer⟩ := session_eq rfl hread
    obtain ⟨-, left, hdata, rfl, -⟩ := reads_split hread
    rw [hframes, hbuffer, hdata, hencode]

/-- **Encoders and parser are inverse**, for every list of messages in range and every input of a
parser that does not fail. -/
theorem encoders_parser_inverse :
    (∀ messages : List Message, (∀ m ∈ messages, m.InRange) → ParsesBack messages) ∧
      ∀ steps : List (Bytes × ℕ), Reencodes steps :=
  ⟨fun _ => parsesBack, reencodes_session⟩

theorem encoders_parser_inverse_three :
    ParsesBack [.hello 5, .data 3 [1, 2], .close 3 .normal] :=
  encoders_parser_inverse.1 _ (by decide)

end Link

end ArgusBackend
