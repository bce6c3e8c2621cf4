import ArgusBackend.Sync.DeliveryInbox

/-!
# Deliveries are dispatched until they are settled

What every run of the consumer's lane keeps.  `Phase.Holds` says what a try knows of its row,
`RowOk` what a row says of the notes, and `Sound` puts them together; the lane is sequential, so
what a try has read stays true until it writes.

* `sound_exec` : one statement;
* `sound_of_run` : every run;
* `delivered_until_settled` : a delivery is dispatched until it is settled, and never after.
-/

namespace ArgusBackend

namespace Sync

namespace Delivery

open Response (Json)

section Sound

variable (stream : ℕ → NotificationDeliveryEvent) (fingerprint : Json → String)
  (poisonMaxAttempts : ℤ) (inbox₀ : DeliveryInbox)

/-- The dispatch of a message was tried. -/
def Tried (h : List Note) (message : ℕ) : Prop :=
  .dispatched message ∈ h ∨ ∃ text, .threw message text ∈ h

/-- The broker was told that a message need not come again. -/
def Done (h : List Note) (message : ℕ) : Prop :=
  ∃ disposition, .settled message disposition ∈ h ∧ disposition ≠ .nak

/-- The failed dispatches of an id. -/
def failures (h : List Note) (id : ℤ) : ℕ :=
  h.countP fun n => match n with
    | .threw message _ => idOf stream message = id
    | _ => false

/-- A row that takes no more dispatches. -/
def ReceiptRow.Closed (row : ReceiptRow) : Prop :=
  row.status = some .dispatched ∨ row.status = some .conflict ∨ row.status = some .deadLettered

/-- What the row of an id says of the notes. -/
def RowOk (h : List Note) (id : ℤ) (row : ReceiptRow) : Prop :=
  match row.status with
  | none => (∃ row₀, inbox₀ id = some row₀ ∧ row₀.status = none) ∧
      ∀ m, idOf stream m = id → ¬Tried h m
  | some .received =>
    (∃ m, .seen m ∈ h ∧ idOf stream m = id ∧ printOf stream fingerprint m = row.fingerprint) ∧
      (∀ m, idOf stream m = id → Tried h m → printOf stream fingerprint m = row.fingerprint) ∧
      row.attempts ≤ failures stream h id
  | some .dispatched =>
    (∃ m, idOf stream m = id ∧ printOf stream fingerprint m = row.fingerprint ∧
      .seen m ∈ h ∧ (.dispatched m ∈ h ∨ .threw m "" ∈ h)) ∧
      ∀ m, idOf stream m = id → Tried h m → printOf stream fingerprint m = row.fingerprint
  | some .conflict =>
    ∃ m m', .seen m ∈ h ∧ .seen m' ∈ h ∧ idOf stream m = id ∧ idOf stream m' = id ∧
      printOf stream fingerprint m ≠ printOf stream fingerprint m'
  | some .deadLettered =>
    poisonMaxAttempts ≤ failures stream h id ∨ ∃ row₀, inbox₀ id = some row₀ ∧ row₀.status = none

/-- The row of a message is closed, and if it was dispatched, then with the content of it. -/
def ClosedFor (inbox : DeliveryInbox) (m : ℕ) : Prop :=
  ∃ row, inbox (idOf stream m) = some row ∧ row.Closed ∧
    (row.status = some .dispatched → row.fingerprint = printOf stream fingerprint m)

/-- The row of a message is received, with its content. -/
def OpenFor (inbox : DeliveryInbox) (m : ℕ) (row : ReceiptRow) : Prop :=
  inbox (idOf stream m) = some row ∧ row.status = some .received ∧
    row.fingerprint = printOf stream fingerprint m

/-- What a try knows. -/
def Phase.Holds (h : List Note) (inbox : DeliveryInbox) : Phase → Prop
  | .missing m => inbox (idOf stream m) = none
  | .unreadable m => ∃ row, inbox (idOf stream m) = some row ∧ row.status = none
  | .clash m => ∃ row, inbox (idOf stream m) = some row ∧
      (row.status = some .received ∨ row.status = some .dispatched) ∧
        row.fingerprint ≠ printOf stream fingerprint m
  | .bound m => ∃ row, OpenFor stream fingerprint inbox m row
  | .dispatched m => (∃ row, OpenFor stream fingerprint inbox m row) ∧
      (.dispatched m ∈ h ∨ .threw m "" ∈ h)
  | .failed m => ∃ row, OpenFor stream fingerprint inbox m row ∧
      row.attempts + 1 ≤ failures stream h (idOf stream m)
  | .attempted m attempts => ∃ row, OpenFor stream fingerprint inbox m row ∧ row.attempts = attempts
  | .closed m => ClosedFor stream fingerprint inbox m
  | _ => True

/-- What the table says of the notes. -/
structure Sound (h : List Note) (inbox : DeliveryInbox) : Prop where
  rows : ∀ id row, inbox id = some row →
    RowOk stream fingerprint poisonMaxAttempts inbox₀ h id row
  blank : ∀ m, inbox (idOf stream m) = none → ¬Tried h m
  same : ∀ m m', idOf stream m = idOf stream m' → Tried h m → Tried h m' →
    printOf stream fingerprint m = printOf stream fingerprint m'
  done : ∀ m, Done h m → ClosedFor stream fingerprint inbox m

/-- What a try awaits in a phase. -/
def Phase.allows : Phase → Op → Prop
  | .fresh m, .select m' id => m' = m ∧ id = idOf stream m
  | .missing m, .insert id print => id = idOf stream m ∧ print = printOf stream fingerprint m
  | .unreadable m, .forceDeadLettered id => id = idOf stream m
  | .clash m, .markConflict id print => id = idOf stream m ∧ print = printOf stream fingerprint m
  | .bound m, .dispatch m' => m' = m
  | .dispatched m, .markDispatched id => id = idOf stream m
  | .failed m, .noteAttempt id => id = idOf stream m
  | .attempted m attempts, .markDeadLettered id =>
    id = idOf stream m ∧ poisonMaxAttempts ≤ attempts
  | .closed m, .settle m' _ => m' = m
  | .attempted m _, .settle m' disposition | .aborted m, .settle m' disposition =>
    m' = m ∧ disposition = .nak
  | _, _ => False

/-- The answers that come in these phases: a row that was written here has a fingerprint, and the
row that was read is still the same. -/
def Expected : Phase → (op : Op) → Option op.Ans → Prop
  | _, .select _ _, some (some row) =>
    row.status = some .received ∨ row.status = some .dispatched → row.fingerprint ≠ ""
  | _, .insert _ _, some inserted => inserted = true
  | _, .markDispatched _, some marked | _, .markDeadLettered _, some marked => marked = true
  | _, _, _ => True

/-- The operations that each phase of a try allows, and what they answer. -/
def protocol : Protocol (Phase.after stream fingerprint) where
  allowed := Phase.allows stream fingerprint poisonMaxAttempts
  answers := Expected

end Sound

section Programs

variable {stream : ℕ → NotificationDeliveryEvent} {fingerprint : Json → String}
  {poisonMaxAttempts : ℤ}

/-- How a `receive` ends. -/
def Received (m : ℕ) : Option Bool → Phase → Prop
  | none, k => k = .aborted m
  | some true, k => k = .closed m
  | some false, k => k = .bound m

theorem obeys_receiveRow {m : ℕ} {row : ReceiptRow}
    (hrow : row.status = some .received ∨ row.status = some .dispatched → row.fingerprint ≠ "") :
    (receiveRow (idOf stream m) (printOf stream fingerprint m) row).Obeys
      (protocol stream fingerprint poisonMaxAttempts) (Received m)
      (Phase.ofRow stream fingerprint m (some row)) := by
  have hconflict : (do
      ask (.markConflict (idOf stream m) (printOf stream fingerprint m))
      pure true : DeliveryTask Bool).Obeys (protocol stream fingerprint poisonMaxAttempts)
        (Received m) (.clash m) :=
    Task.obeys_call ⟨rfl, rfl⟩ (fun _ => rfl) fun _ _ => rfl
  unfold receiveRow Phase.ofRow
  dsimp only
  split
  next => exact Task.obeys_call rfl (fun _ => rfl) fun _ _ => rfl
  next hstatus =>
    rw [if_neg (hrow (.inl hstatus))]
    split_ifs with hsame
    · exact rfl
    · exact hconflict
  next hstatus =>
    have hprint := hrow (.inr hstatus)
    by_cases hsame : row.fingerprint = printOf stream fingerprint m
    · rw [if_pos hsame, if_neg (fun hclash => hclash.2 hsame), if_neg hprint]
      exact rfl
    · rw [if_neg hsame, if_pos ⟨hprint, hsame⟩]
      exact hconflict
  next => exact rfl

theorem obeys_receive {m : ℕ} (hpos : 0 < idOf stream m) :
    (receive stream fingerprint m).Obeys (protocol stream fingerprint poisonMaxAttempts)
      (Received m) (.fresh m) := by
  rw [receive, if_neg (not_le.2 hpos)]
  refine Task.obeys_call ⟨rfl, rfl⟩ (fun _ => rfl) fun existing hrow => ?_
  cases existing with
  | none =>
    refine Task.obeys_call ⟨rfl, rfl⟩ (fun _ => rfl) fun inserted hinserted => ?_
    obtain rfl : inserted = true := hinserted
    exact rfl
  | some row => exact obeys_receiveRow hrow

/-- A try ends in what may be told to the broker. -/
theorem obeys_handleEvent {m : ℕ} (hpos : 0 < idOf stream m)
    (hids : 0 < (stream m).notificationId ∧ 0 < (stream m).userId) :
    (handleEvent stream fingerprint poisonMaxAttempts m).Obeys
      (protocol stream fingerprint poisonMaxAttempts)
      (fun r k => k.allows stream fingerprint poisonMaxAttempts (.settle m (r.getD .nak)))
      (.fresh m) := by
  have hgood : ¬(idOf stream m ≤ 0 ∨ (stream m).notificationId ≤ 0 ∨ (stream m).userId ≤ 0) := by
    omega
  simp only [handleEvent, hgood, if_false]
  refine Task.obeys_bind (obeys_receive hpos) (fun k hk => ?_) fun duplicate k hk => ?_
  · rw [show k = .aborted m from hk]
    exact ⟨rfl, rfl⟩
  cases duplicate with
  | true =>
    rw [show k = .closed m from hk]
    exact (rfl : m = m)
  | false =>
    rw [show k = .bound m from hk]
    refine Task.obeys_call rfl (fun _ => ⟨rfl, rfl⟩) fun error _ => ?_
    by_cases htext : error.getD "" ≠ ""
    · have hphase : (Phase.bound m).after stream fingerprint (.dispatch m) (some error) =
          .failed m := if_pos htext
      rw [if_pos htext, hphase]
      refine Task.obeys_call rfl (fun _ => ⟨rfl, rfl⟩) fun attempts _ => ?_
      split_ifs with hpoison
      · refine Task.obeys_call ⟨rfl, hpoison.2⟩ (fun _ => ⟨rfl, rfl⟩) fun dead hdead => ?_
        obtain rfl : dead = true := hdead
        exact (rfl : m = m)
      · exact ⟨rfl, rfl⟩
    · have hphase : (Phase.bound m).after stream fingerprint (.dispatch m) (some error) =
          .dispatched m := if_neg htext
      rw [if_neg htext, hphase]
      refine Task.obeys_call rfl (fun _ => ⟨rfl, rfl⟩) fun settled hsettled => ?_
      obtain rfl : settled = true := hsettled
      exact (rfl : m = m)

theorem obeys_handle {m : ℕ} (hpos : 0 < idOf stream m)
    (hids : 0 < (stream m).notificationId ∧ 0 < (stream m).userId) :
    ((workshop stream fingerprint poisonMaxAttempts).program m).Obeys
      (protocol stream fingerprint poisonMaxAttempts) (fun _ _ => True) (.fresh m) := by
  refine Task.obeys_bind (Q := fun r k => ∃ d, r = some d ∧
      k.allows stream fingerprint poisonMaxAttempts (.settle m (d.getD .nak)))
    (Task.obeys_attempt ((obeys_handleEvent hpos hids).mono fun r k hk => ⟨r, rfl, hk⟩))
    (fun _ _ => trivial) fun disposition k hk => ?_
  obtain ⟨d, heq, hallows⟩ := hk
  obtain rfl := Option.some.inj heq
  exact Task.obeys_last hallows fun _ _ => trivial

end Programs

/-! ### One statement -/

section Steps

variable {stream : ℕ → NotificationDeliveryEvent} {fingerprint : Json → String}
  {poisonMaxAttempts : ℤ} {inbox₀ inbox inbox' : DeliveryInbox} {h : List Note} {n : Note}
  {m : ℕ} {id : ℤ} {row : ReceiptRow}

theorem Tried.append (hm : Tried h m) : Tried (h ++ [n]) m :=
  hm.imp (List.mem_append_left _) fun ⟨text, htext⟩ => ⟨text, List.mem_append_left _ htext⟩

theorem tried_append {h' : List Note} : Tried (h ++ h') m ↔ Tried h m ∨ Tried h' m := by
  simp only [Tried, List.mem_append, exists_or]
  tauto

/-- Notes that are no dispatches leave what was tried. -/
theorem tried_concat (hn : ∀ m, n ≠ .dispatched m ∧ ∀ text, n ≠ .threw m text) :
    Tried (h ++ [n]) m ↔ Tried h m := by
  refine ⟨fun hm => ?_, Tried.append⟩
  rcases hm with hm | ⟨text, hm⟩
  · rcases List.mem_append.1 hm with hm | hm
    · exact .inl hm
    · exact absurd (List.mem_singleton.1 hm).symm (hn m).1
  · rcases List.mem_append.1 hm with hm | hm
    · exact .inr ⟨text, hm⟩
    · exact absurd (List.mem_singleton.1 hm).symm ((hn m).2 text)

theorem failures_le (h : List Note) (n : Note) (id : ℤ) :
    failures stream h id ≤ failures stream (h ++ [n]) id := by
  rw [failures, failures, List.countP_append]
  exact Nat.le_add_right _ _

/-- A row says the same after notes that are no dispatches of its id. -/
theorem RowOk.concat (hrow : RowOk stream fingerprint poisonMaxAttempts inbox₀ h id row)
    (hn : ∀ m, idOf stream m = id → (Tried (h ++ [n]) m ↔ Tried h m)) :
    RowOk stream fingerprint poisonMaxAttempts inbox₀ (h ++ [n]) id row := by
  have hfailures : (failures stream h id : ℤ) ≤ failures stream (h ++ [n]) id := by
    exact_mod_cast failures_le h n id
  unfold RowOk at hrow ⊢
  split at hrow
  · exact ⟨hrow.1, fun m hm htried => hrow.2 m hm ((hn m hm).1 htried)⟩
  · obtain ⟨⟨m, hseen, hm, hprint⟩, hsame, hattempts⟩ := hrow
    exact ⟨⟨m, List.mem_append_left _ hseen, hm, hprint⟩,
      fun m hm htried => hsame m hm ((hn m hm).1 htried), hattempts.trans hfailures⟩
  · obtain ⟨⟨m, hm, hprint, hseen, hdone⟩, hsame⟩ := hrow
    exact ⟨⟨m, hm, hprint, List.mem_append_left _ hseen,
      hdone.imp (List.mem_append_left _) (List.mem_append_left _)⟩,
      fun m hm htried => hsame m hm ((hn m hm).1 htried)⟩
  · obtain ⟨m, m', hseen, hseen', hrest⟩ := hrow
    exact ⟨m, m', List.mem_append_left _ hseen, List.mem_append_left _ hseen', hrest⟩
  · exact hrow.imp_left fun hpoison => hpoison.trans hfailures

/-- A note that is no dispatch, and that only tells the broker of a closed row. -/
theorem Sound.concat (hS : Sound stream fingerprint poisonMaxAttempts inbox₀ h inbox)
    (hn : ∀ m, Tried (h ++ [n]) m ↔ Tried h m)
    (hdone : ∀ m d, n = .settled m d → d ≠ .nak → ClosedFor stream fingerprint inbox m) :
    Sound stream fingerprint poisonMaxAttempts inbox₀ (h ++ [n]) inbox where
  rows id row hrow := (hS.rows id row hrow).concat fun m _ => hn m
  blank m hnone htried := hS.blank m hnone ((hn m).1 htried)
  same m m' hid hm hm' := hS.same m m' hid ((hn m).1 hm) ((hn m').1 hm')
  done m := by
    rintro ⟨d, hd, hne⟩
    rcases List.mem_append.1 hd with hd | hd
    · exact hS.done m ⟨d, hd, hne⟩
    · exact hdone m d (List.mem_singleton.1 hd).symm hne

/-- A statement that writes the row of an id. -/
theorem Sound.put (hS : Sound stream fingerprint poisonMaxAttempts inbox₀ h inbox)
    (hrow : RowOk stream fingerprint poisonMaxAttempts inbox₀ h id row)
    (hdone : ∀ m, idOf stream m = id → Done h m →
      row.Closed ∧ (row.status = some .dispatched → row.fingerprint = printOf stream fingerprint m)) :
    Sound stream fingerprint poisonMaxAttempts inbox₀ h (inbox.put id row) where
  rows id' row' hrow' := by
    by_cases hid : id' = id
    · subst hid
      obtain rfl : row = row' := by simpa using hrow'
      exact hrow
    · exact hS.rows id' row' (by rwa [DeliveryInbox.put_ne hid] at hrow')
  blank m hnone := by
    by_cases hid : idOf stream m = id
    · simp [hid] at hnone
    · exact hS.blank m (by rwa [DeliveryInbox.put_ne hid] at hnone)
  same := hS.same
  done m hm := by
    by_cases hid : idOf stream m = id
    · exact ⟨row, by rw [hid, DeliveryInbox.put_self], hdone m hid hm⟩
    · obtain ⟨row', hrow', hrest⟩ := hS.done m hm
      exact ⟨row', by rwa [DeliveryInbox.put_ne hid], hrest⟩

/-- No message of an id was told of while the row is open. -/
theorem Sound.not_done (hS : Sound stream fingerprint poisonMaxAttempts inbox₀ h inbox)
    (hrow : ∀ row, inbox (idOf stream m) = some row → ¬row.Closed) : ¬Done h m := fun hdone => by
  obtain ⟨row, hget, hclosed, -⟩ := hS.done m hdone
  exact hrow row hget hclosed

theorem not_closed_received (hstatus : row.status = some .received) : ¬row.Closed := by
  simp [ReceiptRow.Closed, hstatus]

/-- A row that is received or dispatched was written for a message that was looked at. -/
theorem RowOk.writer (hrow : RowOk stream fingerprint poisonMaxAttempts inbox₀ h id row)
    (hstatus : row.status = some .received ∨ row.status = some .dispatched) :
    ∃ m, .seen m ∈ h ∧ idOf stream m = id ∧ printOf stream fingerprint m = row.fingerprint := by
  unfold RowOk at hrow
  rcases hstatus with hstatus | hstatus <;> rw [hstatus] at hrow
  · exact hrow.1
  · obtain ⟨⟨m, hid, hprint, hseen, -⟩, -⟩ := hrow
    exact ⟨m, hseen, hid, hprint⟩

/-- A try that goes on has looked at its message. -/
def Phase.Sees (h : List Note) : Phase → Prop
  | .fresh _ | .aborted _ | .over _ => True
  | k => .seen k.message ∈ h

/-- What a try knows and has seen. -/
def Phase.Known (stream : ℕ → NotificationDeliveryEvent) (fingerprint : Json → String)
    (h : List Note) (inbox : DeliveryInbox) (k : Phase) : Prop :=
  k.Holds stream fingerprint h inbox ∧ k.Sees h

theorem sees_ofRow (hseen : .seen m ∈ h) (row : Option ReceiptRow) :
    (Phase.ofRow stream fingerprint m row).Sees h := by
  unfold Phase.ofRow
  split
  · exact hseen
  · split <;> first | exact hseen | (split_ifs <;> exact hseen)

/-- While the row of an id is open, the broker was told of none of its messages. -/
theorem not_done_of_open (hS : Sound stream fingerprint poisonMaxAttempts inbox₀ h inbox)
    (hopen : OpenFor stream fingerprint inbox m row) {m' : ℕ}
    (hid : idOf stream m' = idOf stream m) : ¬Done h m' :=
  hS.not_done fun row' hget => by
    obtain rfl : row = row' := Option.some.inj (hopen.1.symm.trans (hid ▸ hget))
    exact not_closed_received hopen.2.1

/-- What a try knows from its select. -/
theorem holds_ofRow (h : List Note) (inbox : DeliveryInbox) (m : ℕ) :
    (Phase.ofRow stream fingerprint m (inbox (idOf stream m))).Holds stream fingerprint h inbox := by
  cases hget : inbox (idOf stream m) with
  | none => exact hget
  | some row =>
    simp only [Phase.ofRow]
    split
    next hstatus => exact ⟨row, hget, hstatus⟩
    next hstatus =>
      split_ifs with hsame
      · exact ⟨row, hget, hstatus, hsame⟩
      · exact ⟨row, hget, .inl hstatus, hsame⟩
    next hstatus =>
      split_ifs with hsame
      · exact ⟨row, hget, .inl hstatus, fun _ => hsame⟩
      · exact ⟨row, hget, .inr hstatus, hsame⟩
    next status hreceived hdispatched hstatus =>
      refine ⟨row, hget, ?_, fun heq => absurd (Option.some.inj (hstatus.symm.trans heq)) ?_⟩
      · cases status with
        | received => exact absurd rfl hreceived
        | dispatched => exact absurd rfl hdispatched
        | conflict => exact .inr (.inl hstatus)
        | deadLettered => exact .inr (.inr hstatus)
      · exact fun heq => hdispatched heq

/-- A dispatch of a message whose row is received, with its content. -/
theorem Sound.dispatch (hS : Sound stream fingerprint poisonMaxAttempts inbox₀ h inbox)
    (hopen : OpenFor stream fingerprint inbox m row)
    (hn : ∀ m', Tried (h ++ [n]) m' ↔ Tried h m' ∨ m' = m)
    (hdone : ∀ m d, n ≠ .settled m d) :
    Sound stream fingerprint poisonMaxAttempts inbox₀ (h ++ [n]) inbox := by
  obtain ⟨hget, hstatus, hprint⟩ := hopen
  have hrow := hS.rows _ _ hget
  have hfailures : (failures stream h (idOf stream m) : ℤ) ≤
      failures stream (h ++ [n]) (idOf stream m) := by
    exact_mod_cast failures_le h n _
  have hopenRow : ∀ m', idOf stream m' = idOf stream m → Tried h m' →
      printOf stream fingerprint m' = printOf stream fingerprint m := by
    unfold RowOk at hrow
    rw [hstatus] at hrow
    exact fun m' hid htried => (hrow.2.1 m' hid htried).trans hprint
  refine ⟨fun id' row' hget' => ?_, fun m' hnone htried => ?_, fun m₁ m₂ hid h₁ h₂ => ?_,
    fun m' hm' => ?_⟩
  · by_cases hid : id' = idOf stream m
    · -- the row of the message stays received
      subst hid
      obtain rfl : row = row' := Option.some.inj (hget.symm.trans hget')
      unfold RowOk at hrow ⊢
      rw [hstatus] at hrow ⊢
      obtain ⟨⟨w, hseen, hw⟩, -, hattempts⟩ := hrow
      refine ⟨⟨w, List.mem_append_left _ hseen, hw⟩, fun m' hid htried => ?_,
        hattempts.trans hfailures⟩
      rcases (hn m').1 htried with htried | rfl
      · exact (hopenRow m' hid htried).trans hprint.symm
      · exact hprint.symm
    · refine (hS.rows id' row' hget').concat fun m' hid' => (hn m').trans (or_iff_left ?_)
      rintro rfl
      exact hid hid'.symm
  · rcases (hn m').1 htried with htried | rfl
    · exact hS.blank m' hnone htried
    · simp [hget] at hnone
  · rcases (hn m₁).1 h₁ with h₁ | rfl <;> rcases (hn m₂).1 h₂ with h₂ | rfl
    · exact hS.same m₁ m₂ hid h₁ h₂
    · exact hopenRow m₁ hid h₁
    · exact (hopenRow m₂ hid.symm h₂).symm
    · rfl
  · obtain ⟨d, hd, hne⟩ := hm'
    rcases List.mem_append.1 hd with hd | hd
    · exact hS.done m' ⟨d, hd, hne⟩
    · exact absurd (List.mem_singleton.1 hd).symm (hdone m' d)

theorem tried_dispatched (m' : ℕ) : Tried (h ++ [.dispatched m]) m' ↔ Tried h m' ∨ m' = m := by
  simp only [Tried, List.mem_append, List.mem_singleton, Note.dispatched.injEq, reduceCtorEq,
    or_false]
  tauto

theorem tried_threw (text : String) (m' : ℕ) :
    Tried (h ++ [.threw m text]) m' ↔ Tried h m' ∨ m' = m := by
  simp only [Tried, List.mem_append, List.mem_singleton, Note.threw.injEq, reduceCtorEq, or_false,
    exists_or, or_assoc]
  constructor
  · rintro (hm | hm | ⟨text', rfl, -⟩)
    · exact .inl hm
    · exact .inr (.inl hm)
    · exact .inr (.inr rfl)
  · rintro (hm | hm | rfl)
    · exact .inl hm
    · exact .inr (.inl hm)
    · exact .inr (.inr ⟨text, rfl, rfl⟩)

/-- What a statement keeps. -/
theorem sound_exec (hnonempty : ∀ json, fingerprint json ≠ "") (error : Option String) {k : Phase}
    {op : Op} (hS : Sound stream fingerprint poisonMaxAttempts inbox₀ h inbox)
    (hk : k.Known stream fingerprint h inbox)
    (hallows : k.allows stream fingerprint poisonMaxAttempts op) :
    Expected k op (some (exec error op inbox).1) ∧
      Sound stream fingerprint poisonMaxAttempts inbox₀ (h ++ (exec error op inbox).2.1)
        (exec error op inbox).2.2 ∧
      (k.after stream fingerprint op (some (exec error op inbox).1)).Known stream fingerprint
        (h ++ (exec error op inbox).2.1) (exec error op inbox).2.2 := by
  obtain ⟨hholds, hseen⟩ := hk
  cases op with
  | select m id =>
    obtain ⟨rfl, rfl⟩ : ∃ _ : k = .fresh m, id = idOf stream m := by
      cases k <;> simp_all [Phase.allows]
    refine ⟨?_, hS.concat (fun m' => tried_concat fun _ => ⟨by simp, by simp⟩) (by simp),
      holds_ofRow _ inbox m, sees_ofRow (List.mem_append_right _ (List.mem_singleton_self _)) _⟩
    simp only [exec]
    cases hget : inbox (idOf stream m) with
    | none => exact trivial
    | some row =>
      intro hstatus
      obtain ⟨w, -, -, hprint⟩ := (hS.rows _ _ hget).writer hstatus
      exact hprint ▸ hnonempty _
  | insert id print =>
    obtain ⟨m, rfl, rfl, rfl⟩ : ∃ m, k = .missing m ∧ id = idOf stream m ∧
        print = printOf stream fingerprint m := by
      cases k <;> simp_all [Phase.allows]
    have hsees : .seen m ∈ h := hseen
    have hinsert : inbox.insertReceipt (idOf stream m) (printOf stream fingerprint m) =
        (true, inbox.put (idOf stream m) { fingerprint := printOf stream fingerprint m }) := by
      rw [DeliveryInbox.insertReceipt, show inbox (idOf stream m) = none from hholds]
    simp only [exec, hinsert, List.append_nil]
    refine ⟨rfl, hS.put ⟨⟨m, hsees, rfl, rfl⟩, fun m' hid htried => ?_, by simp⟩
      fun m' hid hdone => ?_, ⟨_, DeliveryInbox.put_self, rfl, rfl⟩, hsees⟩
    · exact absurd htried (hS.blank m' (hid ▸ hholds))
    · refine absurd hdone (hS.not_done fun row hget => ?_)
      rw [hid, show inbox (idOf stream m) = none from hholds] at hget
      cases hget
  | adopt id print => cases k <;> exact hallows.elim
  | markConflict id print =>
    obtain ⟨m, rfl, rfl, rfl⟩ : ∃ m, k = .clash m ∧ id = idOf stream m ∧
        print = printOf stream fingerprint m := by
      cases k <;> simp_all [Phase.allows]
    have hsees : .seen m ∈ h := hseen
    obtain ⟨row, hget, hstatus, hne⟩ := hholds
    have hmark : inbox.markConflict (idOf stream m) (printOf stream fingerprint m) =
        inbox.put (idOf stream m) { row with
          status := some .conflict, fingerprint := printOf stream fingerprint m } := by
      rw [DeliveryInbox.markConflict, DeliveryInbox.update_eq hget (by simpa using hstatus)]
    obtain ⟨w, hw, hid, hprint⟩ := (hS.rows _ _ hget).writer hstatus
    simp only [exec, hmark, List.append_nil]
    exact ⟨trivial, hS.put ⟨w, m, hw, hsees, hid, rfl, hprint ▸ hne⟩
      fun _ _ _ => ⟨.inr (.inl rfl), fun heq => by cases heq⟩,
      ⟨_, DeliveryInbox.put_self, .inr (.inl rfl), fun heq => by cases heq⟩, hsees⟩
  | forceDeadLettered id =>
    obtain ⟨m, rfl, rfl⟩ : ∃ m, k = .unreadable m ∧ id = idOf stream m := by
      cases k <;> simp_all [Phase.allows]
    have hsees : .seen m ∈ h := hseen
    obtain ⟨row, hget, hstatus⟩ := hholds
    have hforce : inbox.forceDeadLettered (idOf stream m) =
        inbox.put (idOf stream m) { row with status := some .deadLettered } := by
      rw [DeliveryInbox.forceDeadLettered, DeliveryInbox.update_eq hget rfl]
    have hrow := hS.rows _ _ hget
    unfold RowOk at hrow
    rw [hstatus] at hrow
    simp only [exec, hforce, List.append_nil]
    exact ⟨trivial, hS.put (.inr hrow.1) fun _ _ _ => ⟨.inr (.inr rfl), fun heq => by cases heq⟩,
      ⟨_, DeliveryInbox.put_self, .inr (.inr rfl), fun heq => by cases heq⟩, hsees⟩
  | dispatch m =>
    obtain rfl : k = .bound m := by
      cases k <;> simp_all [Phase.allows]
    have hsees : .seen m ∈ h := hseen
    obtain ⟨row, hopen⟩ := hholds
    cases error with
    | none =>
      exact ⟨trivial, hS.dispatch hopen tried_dispatched (by simp),
        ⟨⟨row, hopen⟩, .inl (List.mem_append_right _ (List.mem_singleton_self _))⟩,
        List.mem_append_left _ hsees⟩
    | some text =>
      refine ⟨trivial, hS.dispatch hopen (tried_threw text) (by simp), ?_⟩
      by_cases htext : text = ""
      · subst htext
        exact ⟨⟨⟨row, hopen⟩, .inr (List.mem_append_right _ (List.mem_singleton_self _))⟩,
          List.mem_append_left _ hsees⟩
      · have hphase : (Phase.bound m).after stream fingerprint (.dispatch m) (some (some text)) =
            .failed m := if_pos htext
        have hrow := hS.rows _ _ hopen.1
        unfold RowOk at hrow
        rw [hopen.2.1] at hrow
        simp only [exec, hphase]
        refine ⟨⟨row, hopen, ?_⟩, List.mem_append_left _ hsees⟩
        have hattempts := hrow.2.2
        simp only [failures, List.countP_append, List.countP_singleton, decide_true, if_true]
        rw [failures] at hattempts
        push_cast
        omega
  | noteAttempt id =>
    obtain ⟨m, rfl, rfl⟩ : ∃ m, k = .failed m ∧ id = idOf stream m := by
      cases k <;> simp_all [Phase.allows]
    have hsees : .seen m ∈ h := hseen
    obtain ⟨row, hopen, hattempts⟩ := hholds
    have hnote : inbox.noteAttempt (idOf stream m) = (some (row.attempts + 1),
        inbox.put (idOf stream m) { row with attempts := row.attempts + 1 }) := by
      rw [DeliveryInbox.noteAttempt, DeliveryInbox.update_eq hopen.1 rfl, hopen.1]
      rfl
    have hrow := hS.rows _ _ hopen.1
    unfold RowOk at hrow
    rw [hopen.2.1] at hrow
    simp only [exec, hnote, List.append_nil]
    refine ⟨trivial, hS.put ?_ fun m' hid hdone => ?_,
      ⟨_, ⟨DeliveryInbox.put_self, hopen.2.1, hopen.2.2⟩, rfl⟩, hsees⟩
    · unfold RowOk
      dsimp only
      rw [hopen.2.1]
      exact ⟨hrow.1, hrow.2.1, hattempts⟩
    · exact absurd hdone (not_done_of_open hS hopen hid)
  | markDispatched id =>
    obtain ⟨m, rfl, rfl⟩ : ∃ m, k = .dispatched m ∧ id = idOf stream m := by
      cases k <;> simp_all [Phase.allows]
    have hsees : .seen m ∈ h := hseen
    obtain ⟨⟨row, hopen⟩, hdispatched⟩ := hholds
    have hmark : inbox.markDispatched (idOf stream m) =
        (true, inbox.put (idOf stream m) { row with status := some .dispatched }) := by
      rw [DeliveryInbox.markDispatched, DeliveryInbox.update_eq hopen.1 (by simp [hopen.2.1])]
    have hrow := hS.rows _ _ hopen.1
    unfold RowOk at hrow
    rw [hopen.2.1] at hrow
    simp only [exec, hmark, List.append_nil]
    exact ⟨rfl, hS.put ⟨⟨m, rfl, hopen.2.2.symm, hsees, hdispatched⟩, hrow.2.1⟩
      fun m' hid hdone => absurd hdone (not_done_of_open hS hopen hid),
      ⟨_, DeliveryInbox.put_self, .inl rfl, fun _ => hopen.2.2⟩, hsees⟩
  | markDeadLettered id =>
    obtain ⟨m, attempts, rfl, rfl, hpoison⟩ : ∃ m attempts, k = .attempted m attempts ∧
        id = idOf stream m ∧ poisonMaxAttempts ≤ attempts := by
      cases k <;> simp_all [Phase.allows]
    have hsees : .seen m ∈ h := hseen
    obtain ⟨row, hopen, rfl⟩ := hholds
    have hmark : inbox.markDeadLettered (idOf stream m) =
        (true, inbox.put (idOf stream m) { row with status := some .deadLettered }) := by
      rw [DeliveryInbox.markDeadLettered, DeliveryInbox.update_eq hopen.1 (by simp [hopen.2.1])]
    have hrow := hS.rows _ _ hopen.1
    unfold RowOk at hrow
    rw [hopen.2.1] at hrow
    simp only [exec, hmark, List.append_nil]
    exact ⟨rfl, hS.put (.inl (hpoison.trans hrow.2.2))
      fun m' hid hdone => absurd hdone (not_done_of_open hS hopen hid),
      ⟨_, DeliveryInbox.put_self, .inr (.inr rfl), fun heq => by cases heq⟩, hsees⟩
  | settle m d =>
    have hclosed : d ≠ .nak → ClosedFor stream fingerprint inbox m := by
      intro hne
      cases k with
      | closed m' =>
        obtain rfl : m = m' := hallows
        exact hholds
      | attempted m' attempts => exact absurd hallows.2 hne
      | aborted m' => exact absurd hallows.2 hne
      | _ => exact hallows.elim
    refine ⟨by cases k <;> trivial, hS.concat (fun m' => tried_concat fun _ => ⟨by simp, by simp⟩)
      fun m' d' heq hne => ?_, trivial, trivial⟩
    obtain ⟨rfl, rfl⟩ := Note.settled.inj heq
    exact hclosed hne

/-- An update that keeps closed rows closed. -/
theorem closed_update {id' : ℤ} {p : ReceiptRow → Bool} {f : ReceiptRow → ReceiptRow}
    (hf : ∀ row, row.Closed → (f row).Closed) (hclosed : ∃ row, inbox id = some row ∧ row.Closed) :
    ∃ row, (inbox.update id' p f).2 id = some row ∧ row.Closed := by
  obtain ⟨row, hget, hrow⟩ := hclosed
  unfold DeliveryInbox.update
  split
  · exact ⟨row, hget, hrow⟩
  · next row' hfound =>
    by_cases hid : id = id'
    · subst hid
      obtain rfl : row = row' := Option.some.inj
        (hget.symm.trans (Option.filter_eq_some_iff.1 hfound).1)
      exact ⟨f row, DeliveryInbox.put_self, hf row hrow⟩
    · exact ⟨row, (DeliveryInbox.put_ne hid).trans hget, hrow⟩

/-- A closed row stays closed, and nothing is dispatched under its id. -/
theorem closed_exec (error : Option String) {k : Phase} {op : Op}
    (hk : k.Holds stream fingerprint h inbox)
    (hallows : k.allows stream fingerprint poisonMaxAttempts op)
    (hclosed : ∃ row, inbox id = some row ∧ row.Closed) :
    (∃ row, (exec error op inbox).2.2 id = some row ∧ row.Closed) ∧
      ∀ m, idOf stream m = id → ¬Tried (exec error op inbox).2.1 m := by
  have hquiet {n : Note} (hn : ∀ m, n ≠ .dispatched m ∧ ∀ text, n ≠ .threw m text) (m : ℕ) :
      ¬Tried [n] m := by
    rintro (hm | ⟨text, hm⟩)
    · exact (hn m).1 (List.mem_singleton.1 hm).symm
    · exact (hn m).2 text (List.mem_singleton.1 hm).symm
  have hnothing (m : ℕ) : ¬Tried [] m := by simp [Tried]
  cases op with
  | select m id' => exact ⟨hclosed, fun m' _ => hquiet (by simp) m'⟩
  | insert id' print =>
    refine ⟨?_, fun m' _ => hnothing m'⟩
    obtain ⟨row, hget, hrow⟩ := hclosed
    simp only [exec, DeliveryInbox.insertReceipt]
    split
    · exact ⟨row, hget, hrow⟩
    · next hnone =>
      have hid : id ≠ id' := fun heq => by simp [← heq, hget] at hnone
      exact ⟨row, (DeliveryInbox.put_ne hid).trans hget, hrow⟩
  | adopt id' print => cases k <;> exact hallows.elim
  | markConflict id' print =>
    exact ⟨closed_update (fun _ _ => .inr (.inl rfl)) hclosed, fun m' _ => hnothing m'⟩
  | forceDeadLettered id' =>
    exact ⟨closed_update (fun _ _ => .inr (.inr rfl)) hclosed, fun m' _ => hnothing m'⟩
  | dispatch m =>
    refine ⟨hclosed, fun m' hid htried => ?_⟩
    have heq : m' = m := by
      cases error with
      | none => exact ((tried_dispatched (h := []) m').1 htried).resolve_left (hnothing m')
      | some text => exact ((tried_threw (h := []) text m').1 htried).resolve_left (hnothing m')
    obtain rfl : k = .bound m := by cases k <;> simp_all [Phase.allows]
    obtain ⟨row, hget, hstatus, -⟩ := hk
    obtain ⟨row', hget', hrow'⟩ := hclosed
    obtain rfl : row = row' := Option.some.inj (hget.symm.trans (by rwa [← heq, hid]))
    exact not_closed_received hstatus hrow'
  | noteAttempt id' => exact ⟨closed_update (fun _ hrow => hrow) hclosed, fun m' _ => hnothing m'⟩
  | markDispatched id' =>
    exact ⟨closed_update (fun _ _ => .inl rfl) hclosed, fun m' _ => hnothing m'⟩
  | markDeadLettered id' =>
    exact ⟨closed_update (fun _ _ => .inr (.inr rfl)) hclosed, fun m' _ => hnothing m'⟩
  | settle m d => exact ⟨hclosed, fun m' _ => hquiet (by simp) m'⟩

end Steps

/-! ### Runs -/

section Runs

variable {stream : ℕ → NotificationDeliveryEvent} {fingerprint : Json → String}
  {poisonMaxAttempts : ℤ} {inbox₀ : DeliveryInbox} {h h₂ : List Note} {c c₂ : Consumer} {id : ℤ}

/-- A message with positive ids. -/
def Positive (event : NotificationDeliveryEvent) : Prop :=
  0 < event.deliveryId ∧ 0 < event.notificationId ∧ 0 < event.userId

theorem sound_start (hstart : ∀ id row, inbox₀ id = some row → row.status = none) :
    Sound stream fingerprint poisonMaxAttempts inbox₀ [] inbox₀ where
  rows id row hrow := by
    have hstatus := hstart id row hrow
    unfold RowOk
    rw [hstatus]
    exact ⟨⟨row, hrow, hstatus⟩, fun m _ => by simp [Tried]⟩
  blank m _ := by simp [Tried]
  same m m' _ hm := by simp [Tried] at hm
  done m hm := by simp [Done] at hm

theorem expected_none (k : Phase) (op : Op) : Expected k op none := by
  cases op <;> cases k <;> trivial

theorem known_failed (k : Phase) (op : Op) {inbox : DeliveryInbox} :
    (k.after stream fingerprint op none).Known stream fingerprint h inbox := by
  cases op <;> exact ⟨trivial, trivial⟩

/-- What every run keeps. -/
theorem sound_of_run (hpositive : ∀ m, Positive (stream m))
    (hnonempty : ∀ json, fingerprint json ≠ "")
    (hstart : ∀ id row, inbox₀ id = some row → row.status = none)
    (hrun : Run (Lane.Step (workshop stream fingerprint poisonMaxAttempts) Lane.Free)
      ⟨inbox₀, none⟩ h c) :
    (Sound stream fingerprint poisonMaxAttempts inbox₀ h c.shared ∧
      ∀ r ∈ c.role, r.2.Known stream fingerprint h c.shared) ∧
      ∀ m ∈ c.current, m.task.Obeys (protocol stream fingerprint poisonMaxAttempts)
        (fun _ _ => True) m.phase := by
  refine Lane.invariant (protocol stream fingerprint poisonMaxAttempts)
    (J := fun h s role => Sound stream fingerprint poisonMaxAttempts inbox₀ h s ∧
      ∀ r ∈ role, r.2.Known stream fingerprint h s) hrun
    ⟨sound_start hstart, fun _ hr => nomatch hr⟩
    (fun m => obeys_handle (hpositive m).1 (hpositive m).2) ?_ ?_ ?_ ?_
  · rintro h s req ⟨hS, -⟩
    refine ⟨hS, fun r hr => ?_⟩
    obtain rfl := Option.some.inj hr
    exact ⟨trivial, trivial⟩
  · rintro h s r ⟨hS, -⟩
    exact ⟨hS, fun _ hr => nomatch hr⟩
  · rintro h s req k error op ⟨hS, hk⟩ hallows -
    obtain ⟨hexpected, hS', hk'⟩ := sound_exec hnonempty error hS (hk _ rfl) hallows
    refine ⟨hexpected, hS', fun r hr => ?_⟩
    obtain rfl := Option.some.inj hr
    exact hk'
  · rintro h s req k op ⟨hS, -⟩ - -
    refine ⟨expected_none k op, hS, fun r hr => ?_⟩
    obtain rfl := Option.some.inj hr
    exact known_failed k op

/-- A closed row stays closed in every run on, and nothing is dispatched under its id. -/
theorem closed_of_run (hpositive : ∀ m, Positive (stream m))
    (hnonempty : ∀ json, fingerprint json ≠ "")
    (hstart : ∀ id row, inbox₀ id = some row → row.status = none)
    (hrun : Run (Lane.Step (workshop stream fingerprint poisonMaxAttempts) Lane.Free)
      ⟨inbox₀, none⟩ h c)
    (hclosed : ∃ row, c.shared id = some row ∧ row.Closed)
    (hon : Run (Lane.Step (workshop stream fingerprint poisonMaxAttempts) Lane.Free) c h₂ c₂) :
    (∃ row, c₂.shared id = some row ∧ row.Closed) ∧ ∀ m, idOf stream m = id → ¬Tried h₂ m := by
  obtain ⟨⟨hS, hknown⟩, hobeys⟩ := sound_of_run hpositive hnonempty hstart hrun
  refine (Lane.invariant_from (protocol stream fingerprint poisonMaxAttempts)
    (J := fun h₂ s role => (Sound stream fingerprint poisonMaxAttempts inbox₀ (h ++ h₂) s ∧
      ∀ r ∈ role, r.2.Known stream fingerprint (h ++ h₂) s) ∧
        (∃ row, s id = some row ∧ row.Closed) ∧ ∀ m, idOf stream m = id → ¬Tried h₂ m) hon
    ⟨by rw [List.append_nil]; exact ⟨hS, hknown⟩, hclosed, fun m _ => by simp [Tried]⟩ hobeys
    (fun m => obeys_handle (hpositive m).1 (hpositive m).2) ?_ ?_ ?_ ?_).1.2
  · rintro h₂ s req ⟨⟨hS, -⟩, hrest⟩
    refine ⟨⟨hS, fun r hr => ?_⟩, hrest⟩
    obtain rfl := Option.some.inj hr
    exact ⟨trivial, trivial⟩
  · rintro h₂ s r ⟨⟨hS, -⟩, hrest⟩
    exact ⟨⟨hS, fun _ hr => nomatch hr⟩, hrest⟩
  · rintro h₂ s req k error op ⟨⟨hS, hk⟩, hclosed, hquiet⟩ hallows -
    obtain ⟨hexpected, hS', hk'⟩ := sound_exec hnonempty error hS (hk _ rfl) hallows
    obtain ⟨hclosed', hquiet'⟩ := closed_exec error (hk _ rfl).1 hallows hclosed
    rw [List.append_assoc] at hS' hk'
    refine ⟨hexpected, ⟨hS', fun r hr => ?_⟩, hclosed', fun m hid htried => ?_⟩
    · obtain rfl := Option.some.inj hr
      exact hk'
    · exact (tried_append.1 htried).elim (hquiet m hid) (hquiet' m hid)
  · rintro h₂ s req k op ⟨⟨hS, -⟩, hrest⟩ - -
    refine ⟨expected_none k op, ⟨hS, fun r hr => ?_⟩, hrest⟩
    obtain rfl := Option.some.inj hr
    exact known_failed k op

/-- A delivery is dispatched until it is settled, and never after.  A row that is closed stays
closed and its id is not dispatched again; what was dispatched under an id is one content; a row
that is received has a message that the broker still has; and if no dispatch threw an exception
without a text, a message the broker need not deliver again was dispatched, or came under an id with
two contents, or failed too often under an id, or came under an id whose row could not be read. -/
theorem delivered_until_settled (hpositive : ∀ m, Positive (stream m))
    (hnonempty : ∀ json, fingerprint json ≠ "")
    (hcollision : ∀ m m', fingerprint (stream m).toJson = fingerprint (stream m').toJson →
      (stream m).toJson = (stream m').toJson)
    (hstart : ∀ id row, inbox₀ id = some row → row.status = none)
    (hrun : Run (Lane.Step (workshop stream fingerprint poisonMaxAttempts) Lane.Free)
      ⟨inbox₀, none⟩ h c) :
    (∀ id h₂ c₂, (∃ row, c.shared id = some row ∧ row.Closed) →
      Run (Lane.Step (workshop stream fingerprint poisonMaxAttempts) Lane.Free) c h₂ c₂ →
        (∃ row, c₂.shared id = some row ∧ row.Closed) ∧
          ∀ m, idOf stream m = id → ¬Tried h₂ m) ∧
    (∀ m m', idOf stream m = idOf stream m' → Tried h m → Tried h m' →
      (stream m).toJson = (stream m').toJson) ∧
    (∀ id row, c.shared id = some row → row.status = some .received →
      ∃ m, .seen m ∈ h ∧ idOf stream m = id ∧ printOf stream fingerprint m = row.fingerprint ∧
        ¬Done h m) ∧
    ((∀ m, .threw m "" ∉ h) → ∀ m, Done h m →
      (∃ m', idOf stream m' = idOf stream m ∧ (stream m').toJson = (stream m).toJson ∧
        .dispatched m' ∈ h) ∨
      ∃ row, c.shared (idOf stream m) = some row ∧
        ((row.status = some .conflict ∧ ∃ m₁ m₂, .seen m₁ ∈ h ∧ .seen m₂ ∈ h ∧
          idOf stream m₁ = idOf stream m ∧ idOf stream m₂ = idOf stream m ∧
            (stream m₁).toJson ≠ (stream m₂).toJson) ∨
        (row.status = some .deadLettered ∧
          (poisonMaxAttempts ≤ failures stream h (idOf stream m) ∨
            ∃ row₀, inbox₀ (idOf stream m) = some row₀ ∧ row₀.status = none)))) := by
  obtain ⟨⟨hS, -⟩, -⟩ := sound_of_run hpositive hnonempty hstart hrun
  refine ⟨fun id h₂ c₂ => closed_of_run hpositive hnonempty hstart hrun,
    fun m m' hid hm hm' => hcollision m m' (hS.same m m' hid hm hm'),
    fun id row hget hstatus => ?_, fun hquiet m hdone => ?_⟩
  · obtain ⟨m, hseen, rfl, hprint⟩ := (hS.rows id row hget).writer (.inl hstatus)
    refine ⟨m, hseen, rfl, hprint, hS.not_done fun row' hget' => ?_⟩
    obtain rfl : row = row' := Option.some.inj (hget.symm.trans hget')
    exact not_closed_received hstatus
  · obtain ⟨row, hget, hclosed, hprint⟩ := hS.done m hdone
    have hrow := hS.rows _ row hget
    unfold RowOk at hrow
    rcases hclosed with hstatus | hstatus | hstatus <;> rw [hstatus] at hrow
    · obtain ⟨⟨m', hid, hsame, -, hdispatched⟩, -⟩ := hrow
      exact .inl ⟨m', hid, hcollision m' m (hsame.trans (hprint hstatus)),
        hdispatched.resolve_right (hquiet m')⟩
    · obtain ⟨m₁, m₂, hseen₁, hseen₂, hid₁, hid₂, hne⟩ := hrow
      exact .inr ⟨row, hget, .inl ⟨hstatus, m₁, m₂, hseen₁, hseen₂, hid₁, hid₂,
        fun heq => hne (congrArg fingerprint heq)⟩⟩
    · exact .inr ⟨row, hget, .inr ⟨hstatus, hrow⟩⟩

end Runs

/-! ### A delivery that is cut short, and an exception without a text -/

/-- Every message of the stream is a copy of one delivery. -/
def copies : ℕ → NotificationDeliveryEvent := fun _ =>
  { deliveryId := 1, notificationId := 1, userId := 1 }

/-- Three dispatches that fail kill a delivery. -/
abbrev copyWorkshop := workshop copies (fun _ => "print") 3

/-- The first try is cut short before it marks its row, and the message comes again; after that the
delivery is not dispatched any more. -/
theorem delivered_until_settled_copies : ∃ h c,
    Run (Lane.Step copyWorkshop Lane.Free) ⟨fun _ => none, none⟩ h c ∧
      h = [.seen 0, .dispatched 0, .seen 1, .dispatched 1, .settled 1 .ack] ∧
      ∀ h₂ c₂, Run (Lane.Step copyWorkshop Lane.Free) c h₂ c₂ → ∀ m, ¬Tried h₂ m := by
  have hplay : (Lane.play copyWorkshop ⟨fun _ => none, none⟩
      ([Move.serve 0, Move.run none, Move.run none, Move.run none, Move.crash, Move.serve 1] ++
        List.replicate 4 (Move.run none))).map (fun r => ((r.1.shared 1).map (·.status), r.2)) =
      some (some (some .dispatched),
        [.seen 0, .dispatched 0, .seen 1, .dispatched 1, .settled 1 .ack]) := by
    decide +kernel
  obtain ⟨⟨c, h⟩, hrun, hends⟩ := Option.map_eq_some_iff.1 hplay
  obtain ⟨hrow, hnotes⟩ := Prod.mk.inj hends
  obtain ⟨row, hget, hstatus⟩ := Option.map_eq_some_iff.1 hrow
  have hrun := Lane.run_of_play hrun .start
  have hdelivered := delivered_until_settled (fun _ => by simp [Positive, copies])
    (fun _ => by decide) (fun _ _ _ => rfl) (fun _ _ hrow => by cases hrow) hrun
  exact ⟨h, c, hrun, hnotes, fun h₂ c₂ hon m =>
    (hdelivered.1 1 h₂ c₂ ⟨row, hget, .inl hstatus⟩ hon).2 m rfl⟩

/-- The dispatch throws an exception whose text is empty: the delivery is acked, and its row counts
it as dispatched, but it was not. -/
theorem silent_failure_acked : ∃ h c,
    Run (Lane.Step copyWorkshop Lane.Free) ⟨fun _ => none, none⟩ h c ∧ .settled 0 .ack ∈ h ∧
      (∀ m, .dispatched m ∉ h) ∧
      ∃ row, c.shared (idOf copies 0) = some row ∧ row.status = some .dispatched := by
  have hplay : (Lane.play copyWorkshop ⟨fun _ => none, none⟩
      (.serve 0 :: List.replicate 5 (.run (some "")))).map
        (fun r => ((r.1.shared 1).map (·.status), r.2)) =
      some (some (some .dispatched), [.seen 0, .threw 0 "", .settled 0 .ack]) := by
    decide +kernel
  obtain ⟨⟨c, h⟩, hrun, hends⟩ := Option.map_eq_some_iff.1 hplay
  obtain ⟨hrow, hnotes⟩ := Prod.mk.inj hends
  obtain ⟨row, hget, hstatus⟩ := Option.map_eq_some_iff.1 hrow
  obtain rfl : h = _ := hnotes
  exact ⟨_, c, Lane.run_of_play hrun .start, by decide, fun m => by simp, row, hget, hstatus⟩

end Delivery

end Sync

end ArgusBackend
