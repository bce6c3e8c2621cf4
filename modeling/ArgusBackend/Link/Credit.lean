import ArgusBackend.Library.Runs
import ArgusBackend.Link.Frames
import Mathlib.Algebra.BigOperators.Group.List.Basic

/-!
# Credit between two ends of a stream

`CreditWindow` is the counter each end of a stream keeps for each direction.  `Ends` joins the
window of a sender (what `flushToHome` does with it) to the window of a receiver (what
`handleData`, `flushToLocal` and `grantConsumedCredit` do with it) by two first-in-first-out
channels, one of data frames and one of credit frames.

* `Balanced` is the invariant: every byte of the window is in exactly one of five places;
* `credit_conserved` : in every reachable state the window covers what arrives, the five places
  add up to the window, no saturation bites, and an idle stream can send.
-/

namespace ArgusBackend

namespace Link

/-! ### The window -/

/-- The credit of one direction of a stream. -/
structure CreditWindow where
  limited : Bool := false
  window : UInt32 := 0
  remaining : UInt32 := 0
  consumed : UInt32 := 0
  grantThreshold : UInt32 := kCreditGrantThreshold
  deriving DecidableEq

namespace CreditWindow

/-- The constructor; a threshold of zero means the default. -/
def ofParams (limited : Bool) (window grantThreshold : UInt32) : CreditWindow where
  limited := limited
  window := window
  remaining := window
  grantThreshold := if grantThreshold = 0 then kCreditGrantThreshold else grantThreshold

/-- The credit is enough. -/
def covers (w : CreditWindow) (bytes : ℕ) : Bool :=
  if !w.limited then true else bytes ≤ w.remaining.toNat

/-- Credit is used. -/
def recordUsed (w : CreditWindow) (bytes : ℕ) : CreditWindow :=
  if !w.limited then w
  else
    let used := UInt32.ofNat (min bytes w.remaining.toNat)
    { w with remaining := w.remaining - used }

/-- Credit is granted. -/
def grant (w : CreditWindow) (bytes : UInt32) : CreditWindow :=
  if !w.limited then w
  else
    let total := w.remaining.toNat + bytes.toNat
    { w with remaining := UInt32.ofNat (min total w.window.toNat) }

/-- Bytes are consumed, for which credit is owed. -/
def markConsumed (w : CreditWindow) (bytes : ℕ) : CreditWindow :=
  if !w.limited then w
  else
    let total := w.consumed.toNat + bytes
    { w with consumed := UInt32.ofNat (min total w.window.toNat) }

/-- The credit that is owed, once it is enough to be granted. -/
def takePendingGrant (w : CreditWindow) : UInt32 × CreditWindow :=
  if !w.limited ∨ w.consumed < w.grantThreshold then (0, w)
  else
    let granted := w.consumed
    (granted, grant { w with consumed := 0 } granted)

/-- The size of the next data frame for `pending` waiting bytes; none when there is no byte or
no credit. -/
def nextChunk (w : CreditWindow) (pending : ℕ) : Option ℕ :=
  if pending = 0 then none
  else
    let chunk := min pending kDataFrameMax
    if w.limited then
      let available := w.remaining.toNat
      if available = 0 then none else some (min chunk available)
    else some chunk

/-- What consuming bytes does to the receiver's window, and the credit to send for it. -/
def grantConsumedCredit (w : CreditWindow) (consumedBytes : ℕ) : Option UInt32 × CreditWindow :=
  let (granted, w) := (w.markConsumed consumedBytes).takePendingGrant
  (if 0 < granted then some granted else none, w)

/-! #### What the operations do where nothing saturates -/

variable {w : CreditWindow}

theorem toNat_ofNat_of_le {n : ℕ} {v : UInt32} (h : n ≤ v.toNat) : (UInt32.ofNat n).toNat = n :=
  Nat.mod_eq_of_lt (h.trans_lt v.toNat_lt)

theorem recordUsed_eq (hl : w.limited = true) {bytes : ℕ} (h : bytes ≤ w.remaining.toNat) :
    w.recordUsed bytes = { w with remaining := w.remaining - UInt32.ofNat bytes } := by
  simp [recordUsed, hl, Nat.min_eq_left h]

theorem toNat_recordUsed (hl : w.limited = true) {bytes : ℕ} (h : bytes ≤ w.remaining.toNat) :
    (w.recordUsed bytes).remaining.toNat = w.remaining.toNat - bytes := by
  have hbytes := toNat_ofNat_of_le h
  rw [recordUsed_eq hl h, UInt32.toNat_sub_of_le _ _ (by rwa [UInt32.le_iff_toNat_le, hbytes]),
    hbytes]

theorem grant_eq (hl : w.limited = true) {bytes : UInt32}
    (h : w.remaining.toNat + bytes.toNat ≤ w.window.toNat) :
    w.grant bytes = { w with remaining := UInt32.ofNat (w.remaining.toNat + bytes.toNat) } := by
  simp [grant, hl, Nat.min_eq_left h]

theorem markConsumed_eq (hl : w.limited = true) {bytes : ℕ}
    (h : w.consumed.toNat + bytes ≤ w.window.toNat) :
    w.markConsumed bytes = { w with consumed := UInt32.ofNat (w.consumed.toNat + bytes) } := by
  simp [markConsumed, hl, Nat.min_eq_left h]

theorem nextChunk_le (hl : w.limited = true) {pending chunk : ℕ}
    (h : w.nextChunk pending = some chunk) :
    0 < chunk ∧ chunk ≤ pending ∧ chunk ≤ kDataFrameMax ∧ chunk ≤ w.remaining.toNat := by
  simp only [nextChunk, hl, if_true] at h
  split_ifs at h with hpending havailable
  obtain rfl := Option.some.inj h
  simp only [kDataFrameMax]
  omega

/-- Below the threshold, consumed bytes are only counted. -/
theorem grantConsumedCredit_of_lt (hl : w.limited = true) {bytes : ℕ}
    (h : w.consumed.toNat + bytes ≤ w.window.toNat)
    (hlt : w.consumed.toNat + bytes < w.grantThreshold.toNat) :
    w.grantConsumedCredit bytes =
      (none, { w with consumed := UInt32.ofNat (w.consumed.toNat + bytes) }) := by
  have htotal := toNat_ofNat_of_le h
  rw [grantConsumedCredit, markConsumed_eq hl h]
  generalize UInt32.ofNat (w.consumed.toNat + bytes) = total at htotal
  have hbelow : total < w.grantThreshold := by rwa [UInt32.lt_iff_toNat_lt, htotal]
  simp [takePendingGrant, hbelow]

/-- From the threshold on, they are granted back at once. -/
theorem grantConsumedCredit_of_le (hl : w.limited = true) {bytes : ℕ}
    (h : w.remaining.toNat + (w.consumed.toNat + bytes) ≤ w.window.toNat)
    (hpos : 0 < w.consumed.toNat + bytes)
    (hle : w.grantThreshold.toNat ≤ w.consumed.toNat + bytes) :
    w.grantConsumedCredit bytes =
      (some (UInt32.ofNat (w.consumed.toNat + bytes)),
        { w with
          consumed := 0
          remaining := UInt32.ofNat (w.remaining.toNat + (w.consumed.toNat + bytes)) }) := by
  have hfit : w.consumed.toNat + bytes ≤ w.window.toNat := by omega
  have htotal := toNat_ofNat_of_le hfit
  rw [grantConsumedCredit, markConsumed_eq hl hfit]
  generalize UInt32.ofNat (w.consumed.toNat + bytes) = total at htotal
  rw [← htotal] at h hpos hle ⊢
  have hreached : ¬ total < w.grantThreshold := by
    rw [UInt32.lt_iff_toNat_lt]
    omega
  have hsome : 0 < total := UInt32.lt_iff_toNat_lt.2 hpos
  simp only [takePendingGrant, hl, hreached, hsome, Bool.not_true, Bool.false_eq_true, or_self,
    if_false, if_true, grant, Nat.min_eq_left h]

end CreditWindow

/-! ### Two ends -/

/-- A stream in one direction: the sender, the receiver, and the frames between them. -/
structure Ends where
  /-- Bytes waiting at the sender. -/
  pending : ℕ
  sendWindow : CreditWindow
  /-- Payload sizes of the data frames in flight, oldest first. -/
  data : List ℕ
  /-- Bytes the receiver holds for its local peer. -/
  held : ℕ
  receiveWindow : CreditWindow
  /-- Credit frames in flight, oldest first. -/
  credit : List UInt32
  /-- The receiver saw a data frame its window did not cover. -/
  overCredit : Bool

/-- What either end does. -/
inductive Action where
  /-- The sender's local peer gives it bytes. -/
  | read (bytes : ℕ)
  /-- The sender's loop sends one data frame. -/
  | send
  /-- The oldest data frame reaches the receiver. -/
  | deliverData
  /-- The receiver's local peer takes bytes. -/
  | consume (bytes : ℕ)
  /-- The oldest credit frame reaches the sender. -/
  | deliverCredit
  deriving DecidableEq

namespace Ends

/-- Both windows as a stream gets them. -/
def initial (window threshold : UInt32) : Ends where
  pending := 0
  sendWindow := .ofParams true window threshold
  data := []
  held := 0
  receiveWindow := .ofParams true window threshold
  credit := []
  overCredit := false

/-- One action, where it is possible. -/
def step? (s : Ends) : Action → Option Ends
  | .read bytes => some { s with pending := s.pending + bytes }
  | .send =>
    (s.sendWindow.nextChunk s.pending).map fun chunk =>
      { s with
        pending := s.pending - chunk
        sendWindow := s.sendWindow.recordUsed chunk
        data := s.data ++ [chunk] }
  | .deliverData =>
    match s.data with
    | [] => none
    | size :: data =>
      if s.receiveWindow.covers size then
        some { s with
          data := data
          held := s.held + size
          receiveWindow := s.receiveWindow.recordUsed size }
      else some { s with data := data, overCredit := true }
  | .consume bytes =>
    if bytes ≤ s.held then
      let (granted, receiveWindow) := s.receiveWindow.grantConsumedCredit bytes
      some { s with
        held := s.held - bytes
        receiveWindow := receiveWindow
        credit := s.credit ++ granted.toList }
    else none
  | .deliverCredit =>
    match s.credit with
    | [] => none
    | bytes :: credit =>
      some { s with sendWindow := s.sendWindow.grant bytes, credit := credit }

/-- The step relation; a step leaves no note. -/
def Step (s : Ends) (notes : List Unit) (s' : Ends) : Prop :=
  notes = [] ∧ ∃ a, s.step? a = some s'

/-- Bytes of credit in flight. -/
def creditBytes (s : Ends) : ℕ := (s.credit.map UInt32.toNat).sum

/-- Every byte of the window is with the sender, in flight as data, held by the receiver,
consumed and not granted back yet, or in flight as credit. -/
structure Balanced (W T : UInt32) (s : Ends) : Prop where
  sendLimited : s.sendWindow.limited = true
  sendWindow : s.sendWindow.window = W
  receiveLimited : s.receiveWindow.limited = true
  receiveWindow : s.receiveWindow.window = W
  threshold : s.receiveWindow.grantThreshold = T
  covered : s.overCredit = false
  total : s.sendWindow.remaining.toNat + s.data.sum + s.held + s.receiveWindow.consumed.toNat +
    s.creditBytes = W.toNat
  received : s.receiveWindow.remaining.toNat =
    s.sendWindow.remaining.toNat + s.data.sum + s.creditBytes
  below : s.receiveWindow.consumed.toNat < T.toNat

theorem balanced_initial {W T : UInt32} (hT : 0 < T) : Balanced W T (initial W T) := by
  have hT' : 0 < T.toNat := UInt32.lt_iff_toNat_lt.1 hT
  have hne : T ≠ 0 := by
    rintro rfl
    exact absurd hT' (by decide)
  constructor <;> simp [initial, CreditWindow.ofParams, creditBytes, hne, hT']

variable {W T : UInt32} {s s' : Ends}

theorem Balanced.send (h : Balanced W T s) (hs : s.step? .send = some s') : Balanced W T s' := by
  simp only [step?, Option.map_eq_some_iff] at hs
  obtain ⟨chunk, hchunk, rfl⟩ := hs
  obtain ⟨-, -, -, hle⟩ := CreditWindow.nextChunk_le h.sendLimited hchunk
  have hremaining := CreditWindow.toNat_recordUsed h.sendLimited hle
  have heq := CreditWindow.recordUsed_eq h.sendLimited hle
  have htotal := h.total
  have hreceived := h.received
  refine { h with sendLimited := ?_, sendWindow := ?_, total := ?_, received := ?_ }
  · simpa [heq] using h.sendLimited
  · simpa [heq] using h.sendWindow
  · simp only [creditBytes, hremaining, List.sum_append, List.sum_singleton] at htotal ⊢
    omega
  · simp only [creditBytes, hremaining, List.sum_append, List.sum_singleton] at hreceived ⊢
    omega

/-- The window of the receiver covers whatever arrives. -/
theorem Balanced.covers (h : Balanced W T s) {size : ℕ} {data : List ℕ}
    (hd : s.data = size :: data) : size ≤ s.receiveWindow.remaining.toNat := by
  rw [h.received, hd, List.sum_cons]
  omega

theorem Balanced.deliverData (h : Balanced W T s) (hs : s.step? .deliverData = some s') :
    Balanced W T s' := by
  rcases hd : s.data with _ | ⟨size, data⟩
  · simp [step?, hd] at hs
  have hle := h.covers hd
  simp only [step?, hd, CreditWindow.covers, h.receiveLimited, Bool.not_true, Bool.false_eq_true,
    if_false, hle, decide_true, if_true, Option.some.injEq] at hs
  subst hs
  have hremaining := CreditWindow.toNat_recordUsed h.receiveLimited hle
  have heq := CreditWindow.recordUsed_eq h.receiveLimited hle
  have htotal := h.total
  have hreceived := h.received
  have hbelow := h.below
  rw [hd, List.sum_cons] at htotal hreceived
  constructor
  · exact h.sendLimited
  · exact h.sendWindow
  · simpa [heq] using h.receiveLimited
  · simpa [heq] using h.receiveWindow
  · simpa [heq] using h.threshold
  · exact h.covered
  · simp only [creditBytes, heq] at htotal ⊢
    omega
  · simp only [creditBytes, hremaining] at hreceived ⊢
    omega
  · simpa [heq] using hbelow

theorem Balanced.deliverCredit (h : Balanced W T s) (hs : s.step? .deliverCredit = some s') :
    Balanced W T s' := by
  rcases hc : s.credit with _ | ⟨bytes, credit⟩
  · simp [step?, hc] at hs
  simp only [step?, hc, Option.some.injEq] at hs
  subst hs
  have htotal := h.total
  have hreceived := h.received
  simp only [creditBytes, hc, List.map_cons, List.sum_cons] at htotal hreceived
  have hle : s.sendWindow.remaining.toNat + bytes.toNat ≤ s.sendWindow.window.toNat := by
    rw [h.sendWindow]
    omega
  have heq := CreditWindow.grant_eq h.sendLimited hle
  have hremaining : (s.sendWindow.grant bytes).remaining.toNat =
      s.sendWindow.remaining.toNat + bytes.toNat := by
    rw [heq]
    exact CreditWindow.toNat_ofNat_of_le hle
  refine { h with sendLimited := ?_, sendWindow := ?_, total := ?_, received := ?_ }
  · simpa [heq] using h.sendLimited
  · simpa [heq] using h.sendWindow
  · simp only [creditBytes, hremaining]
    omega
  · simp only [creditBytes, hremaining]
    omega

/-- What the receiver can spend, holds and has consumed is the whole window. -/
theorem Balanced.receiver_total (h : Balanced W T s) :
    s.receiveWindow.remaining.toNat + s.held + s.receiveWindow.consumed.toNat = W.toNat := by
  have htotal := h.total
  have hreceived := h.received
  omega

theorem Balanced.consume (h : Balanced W T s) {bytes : ℕ}
    (hs : s.step? (.consume bytes) = some s') : Balanced W T s' := by
  have hreceiver := h.receiver_total
  have htotal := h.total
  have hreceived := h.received
  have hbelow := h.below
  simp only [step?] at hs
  split_ifs at hs with hheld
  have hfit : s.receiveWindow.remaining.toNat + (s.receiveWindow.consumed.toNat + bytes) ≤
      s.receiveWindow.window.toNat := by
    rw [h.receiveWindow]
    omega
  have hcount := CreditWindow.toNat_ofNat_of_le (Nat.le_of_add_left_le hfit)
  rcases Nat.lt_or_ge (s.receiveWindow.consumed.toNat + bytes) T.toNat with hlt | hge
  · have hgrant := CreditWindow.grantConsumedCredit_of_lt h.receiveLimited
      (Nat.le_of_add_left_le hfit) (h.threshold ▸ hlt)
    simp only [hgrant, Option.some.injEq] at hs
    subst hs
    refine { h with total := ?_, received := ?_, below := ?_ }
    · simp only [creditBytes, hcount, Option.toList_none, List.append_nil] at htotal ⊢
      omega
    · simpa [creditBytes] using hreceived
    · simpa only [hcount] using hlt
  · have hgrant := CreditWindow.grantConsumedCredit_of_le h.receiveLimited hfit (by omega)
      (h.threshold ▸ hge)
    have hremaining := CreditWindow.toNat_ofNat_of_le hfit
    simp only [hgrant, Option.some.injEq] at hs
    subst hs
    refine { h with total := ?_, received := ?_, below := ?_ }
    · simp only [creditBytes, Option.toList_some, List.map_append, List.sum_append, List.map_cons,
        List.map_nil, List.sum_singleton, hcount, UInt32.toNat_zero] at htotal ⊢
      omega
    · simp only [creditBytes, Option.toList_some, List.map_append, List.sum_append, List.map_cons,
        List.map_nil, List.sum_singleton, hcount, hremaining] at hreceived ⊢
      omega
    · simp only [UInt32.toNat_zero]
      omega

/-- One step keeps the window balanced. -/
theorem Balanced.step (h : Balanced W T s) {a : Action} (hs : s.step? a = some s') :
    Balanced W T s' := by
  cases a with
  | read bytes =>
    obtain rfl := Option.some.inj hs
    exact { h with }
  | send => exact h.send hs
  | deliverData => exact h.deliverData hs
  | consume bytes => exact h.consume hs
  | deliverCredit => exact h.deliverCredit hs

theorem balanced_of_run {notes : List Unit} (hT : 0 < T) (hrun : Run Step (initial W T) notes s) :
    Balanced W T s :=
  hrun.invariant (J := fun _ => Balanced W T) (balanced_initial hT)
    fun _ _ _ _ h ⟨_, _, hs⟩ => h.step hs

/-- No `min` in the next operation of either window changes a value. -/
structure Unclamped (s : Ends) : Prop where
  used : ∀ chunk, s.sendWindow.nextChunk s.pending = some chunk →
    min chunk s.sendWindow.remaining.toNat = chunk
  received : ∀ size data, s.data = size :: data →
    min size s.receiveWindow.remaining.toNat = size
  granted : ∀ bytes credit, s.credit = bytes :: credit →
    min (s.sendWindow.remaining.toNat + bytes.toNat) s.sendWindow.window.toNat =
      s.sendWindow.remaining.toNat + bytes.toNat
  consumed : ∀ bytes ≤ s.held,
    min (s.receiveWindow.consumed.toNat + bytes) s.receiveWindow.window.toNat =
      s.receiveWindow.consumed.toNat + bytes
  returned : ∀ bytes ≤ s.held,
    min (s.receiveWindow.remaining.toNat + (s.receiveWindow.consumed.toNat + bytes))
        s.receiveWindow.window.toNat =
      s.receiveWindow.remaining.toNat + (s.receiveWindow.consumed.toNat + bytes)

theorem Balanced.unclamped (h : Balanced W T s) : Unclamped s where
  used _ hchunk := Nat.min_eq_left (CreditWindow.nextChunk_le h.sendLimited hchunk).2.2.2
  received _ _ hd := Nat.min_eq_left (h.covers hd)
  granted bytes credit hc := by
    have htotal := h.total
    simp only [creditBytes, hc, List.map_cons, List.sum_cons] at htotal
    rw [h.sendWindow]
    omega
  consumed bytes hb := by
    have hreceiver := h.receiver_total
    rw [h.receiveWindow]
    omega
  returned bytes hb := by
    have hreceiver := h.receiver_total
    rw [h.receiveWindow]
    omega

/-- **Credit is conserved**: in every state two ends with one window and one threshold can reach,
the receiver has never seen a data frame its window did not cover and sees none next, every byte
of the window is in one of the five places, no saturation bites, and when nothing is in flight
and everything is consumed the sender has more than `W - T` left, so it can send. -/
theorem credit_conserved {notes : List Unit} (hT : 0 < T) (hTW : T ≤ W)
    (hrun : Run Step (initial W T) notes s) :
    s.overCredit = false ∧
      (∀ size data, s.data = size :: data → s.receiveWindow.covers size = true) ∧
      s.sendWindow.remaining.toNat + s.data.sum + s.held + s.receiveWindow.consumed.toNat +
        s.creditBytes = W.toNat ∧
      Unclamped s ∧
      (s.data = [] → s.credit = [] → s.held = 0 →
        W.toNat - T.toNat < s.sendWindow.remaining.toNat ∧
          (0 < s.pending → (s.step? .send).isSome)) := by
  have h := balanced_of_run hT hrun
  refine ⟨h.covered, fun size data hd => ?_, h.total, h.unclamped, fun hd hc hheld => ?_⟩
  · simpa [CreditWindow.covers, h.receiveLimited] using h.covers hd
  · have htotal := h.total
    have hbelow := h.below
    have hTW' := UInt32.le_iff_toNat_le.1 hTW
    simp only [creditBytes, hd, hc, hheld, List.sum_nil, List.map_nil] at htotal
    refine ⟨by omega, fun hpending => ?_⟩
    have hremaining : s.sendWindow.remaining.toNat ≠ 0 := by omega
    simp [step?, CreditWindow.nextChunk, h.sendLimited, hremaining, Nat.ne_of_gt hpending]

/-- A window of four bytes with threshold two, after three bytes went through and came back. -/
theorem credit_conserved_round_trip :
    ∃ s, Run Step (initial 4 2) [] s ∧ s.sendWindow.remaining = 4 ∧ s.overCredit = false := by
  have act {a : Action} {s s' : Ends} (hrun : Run Step (initial 4 2) [] s)
      (hs : s.step? a = some s') : Run Step (initial 4 2) [] s' := hrun.next ⟨rfl, a, hs⟩
  have hread := act (a := .read 3) .start rfl
  have hsend := act (a := .send) hread rfl
  have hdata := act (a := .deliverData) hsend rfl
  have hconsume := act (a := .consume 3) hdata rfl
  have hcredit := act (a := .deliverCredit) hconsume rfl
  exact ⟨_, hcredit, by decide, (credit_conserved (by decide) (by decide) hcredit).1⟩

end Ends

end Link

end ArgusBackend
