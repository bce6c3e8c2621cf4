import ArgusBackend.Safety.Service

/-!
# The duress settings

While duress is disabled no PIN and no phrase key is to be stored (`Consistent`).  `setPin` and
`update` look at the setting first and write later, each in a transaction of its own.

* `asks_program` : what a request can come to write;
* `consistent_effect_iff` : an operation that finds the tables consistent leaves them so exactly if
  it is `Timely`: a PIN is stored while duress is still enabled, and where an update disables
  duress no phrase is stored that its own read did not see;
* `duress_settings_consistent` : the same over runs, and which operations change the phrase.
-/

namespace ArgusBackend

namespace Safety

/-- While duress is disabled neither a PIN nor a phrase key is stored. -/
structure Consistent (db : Db) : Prop where
  noPin : db.setting.duressEnabled = false → db.pins.keys = []
  noPhrase : db.setting.duressEnabled = false → db.setting.phraseKey = ""

/-- The write of a request still finds what the request saw: duress enabled for a PIN, and for an
update that disables duress no phrase key unless it read one. -/
def Timely (db : Db) : Op → Bool
  | .upsertPin _ => db.setting.duressEnabled
  | .updateSetting change => change.input.toggle.duressEnabled ||
    decide (db.setting.phraseKey = "") || decide (change.current.phraseKey ≠ "")
  | _ => true

/-- The updates that are to change the phrase: a set, a clear, or one that disables duress. -/
def Op.ChangesPhrase : Op → Prop
  | .updateSetting change =>
    change.input.phraseChange ≠ .keep ∨ change.input.toggle.duressEnabled = false
  | _ => False

/-- What the phrase key in the transaction of an update is by the rules of `update`. -/
def Op.Ruled : Op → Prop
  | .updateSetting change =>
    (change.input.toggle.duressEnabled = false → change.phraseKey = "") ∧
      (change.input.phraseChange = .keep → change.input.toggle.duressEnabled = true →
        change.phraseKey = change.current.phraseKey)
  | _ => True

/-! ### What the requests await -/

section Asks

open ArgusBackend.Task

variable {limits : Limits}

theorem asks_refuse {α : Type} {userId : ℤ} {error : SafetyError} :
    (refuse userId error : SafetyTask α).Asks Op.Ruled :=
  asks_bind (asks_call.2 trivial) fun _ => asks_throw

theorem asks_reserve {at_ : PinAttemptAt} : (PinAttempts.reserve limits at_).Asks Op.Ruled := by
  refine asks_bind (asks_call.2 trivial) fun admitted => ?_
  split
  · exact asks_pure
  · refine asks_bind (asks_attempt (asks_bind ?_ fun lockedOut => ?_)) fun reservation => ?_
    · exact asks_bind (asks_call.2 trivial) fun _ => asks_bind (asks_call.2 trivial) fun _ =>
        asks_pure
    · split
      · exact asks_pure
      · exact asks_bind (asks_call.2 trivial) fun _ => asks_pure
    · cases reservation with
      | some reservation => exact asks_pure
      | none => exact asks_bind (asks_call.2 trivial) fun _ => asks_throw

theorem asks_settle {userId : ℤ} {success : Bool} :
    (PinAttempts.settle userId success).Asks Op.Ruled := by
  refine asks_bind (asks_call.2 trivial) fun _ => ?_
  split
  · exact asks_call.2 trivial
  · exact asks_pure

theorem asks_verifyPin {request : DisarmRequest} {pin : UserPinRow} :
    (SafetyService.verifyPin limits request pin).Asks Op.Ruled := by
  simp only [SafetyService.verifyPin]
  split
  · exact asks_refuse
  split
  · exact asks_refuse
  refine asks_bind (asks_call.2 trivial) fun now => asks_bind asks_reserve fun reservation => ?_
  split
  · exact asks_refuse
  refine asks_bind (asks_attempt (asks_call.2 trivial)) fun found => ?_
  cases found with
  | none => exact asks_bind (asks_call.2 trivial) fun _ => asks_throw
  | some found =>
    refine asks_bind asks_settle fun _ => ?_
    split
    · split
      · exact asks_bind (asks_call.2 trivial) fun _ => asks_refuse
      · exact asks_refuse
    · split_ifs
      · exact asks_pure
      · exact asks_pure
      · exact asks_refuse

theorem asks_requireCurrentPin {request : DisarmRequest} :
    (SafetyService.requireCurrentPin limits request).Asks Op.Ruled := by
  refine asks_bind (asks_call.2 trivial) fun stored => ?_
  cases stored with
  | none => exact asks_pure
  | some pin =>
    refine asks_bind asks_verifyPin fun verdict => ?_
    split
    · exact asks_call.2 trivial
    · exact asks_pure

theorem asks_status {userId : ℤ} {setting : SafetySetting} {hasPin : Bool} :
    (SafetyService.status userId setting hasPin).Asks Op.Ruled :=
  asks_bind (asks_call.2 trivial) fun _ => asks_bind (asks_call.2 trivial) fun _ => asks_pure

theorem asks_setPin {input : PinSetInput} :
    (SafetyService.setPin limits input).Asks Op.Ruled := by
  refine asks_bind (asks_call.2 trivial) fun setting => ?_
  split
  · exact asks_refuse
  split
  · exact asks_refuse
  refine asks_bind asks_requireCurrentPin fun _ => asks_bind (asks_call.2 trivial) fun hashes => ?_
  refine asks_bind (asks_call.2 trivial) fun now => asks_bind (asks_call.2 trivial) fun _ => ?_
  exact asks_bind (asks_call.2 trivial) fun _ => asks_status

theorem asks_removePin {input : PinRemoveInput} :
    (SafetyService.removePin limits input).Asks Op.Ruled := by
  refine asks_bind asks_requireCurrentPin fun _ => asks_bind (asks_call.2 trivial) fun _ => ?_
  exact asks_bind (asks_call.2 trivial) fun _ => asks_bind (asks_call.2 trivial) fun _ =>
    asks_status

/-- The transaction of an update follows its rules: the phrase key it carries is the one
`phraseKeyAfter` lets stand. -/
theorem asks_update {input : SafetyUpdateInput} :
    (SafetyService.update limits input).Asks Op.Ruled := by
  refine asks_bind (asks_call.2 trivial) fun current => ?_
  dsimp only
  split
  · exact asks_refuse
  -- the write, for each way the key comes to be
  have hwrite : ∀ phraseKey : String,
      (input.toggle.duressEnabled = false → phraseKey = "") →
      (input.phraseChange = .keep → input.toggle.duressEnabled = true →
        phraseKey = current.phraseKey) →
      (do
        let now ← ask .now
        ask (.updateSetting ⟨input, current, phraseKey, now⟩)
        pure
          { duressEnabled := input.toggle.duressEnabled, updatedAt := now
            updatedBy := input.toggle.actorUserId, phraseKey } :
          SafetyTask SafetySetting).Asks Op.Ruled := fun phraseKey hoff hkeep =>
    asks_bind (asks_call.2 trivial) fun now => asks_bind (asks_call.2 ⟨hoff, hkeep⟩) fun _ =>
      asks_pure
  have hkey : (SafetyService.phraseKeyAfter input current >>= fun phraseKey => do
      let now ← ask .now
      ask (.updateSetting ⟨input, current, phraseKey, now⟩)
      pure
        { duressEnabled := input.toggle.duressEnabled, updatedAt := now
          updatedBy := input.toggle.actorUserId, phraseKey } :
        SafetyTask SafetySetting).Asks Op.Ruled := by
    simp only [SafetyService.phraseKeyAfter]
    split
    · rename_i hclear
      refine hwrite "" (fun _ => rfl) fun hkeep hon => ?_
      simp [hkeep, hon] at hclear
    split
    · rename_i hclear hset
      refine asks_bind (asks_bind (asks_call.2 trivial) fun sealed => ?_) fun phraseKey => ?_
      · cases sealed with
        | none => exact asks_refuse
        | some phraseKey => exact asks_pure
      · refine hwrite phraseKey (fun hoff => ?_) fun hkeep => ?_
        · simp [hoff] at hclear
        · simp [hkeep] at hset
    · rename_i hclear hset
      refine hwrite current.phraseKey (fun hoff => ?_) fun _ _ => rfl
      simp [hoff] at hclear
  split
  · exact asks_bind asks_requireCurrentPin fun _ => hkey
  · exact hkey

theorem asks_program (request : Request) : (program limits request).Asks Op.Ruled := by
  cases request with
  | setPin input => exact asks_bind asks_setPin fun _ => asks_pure
  | removePin input => exact asks_bind asks_removePin fun _ => asks_pure
  | forgetUser userId => exact asks_bind (asks_call.2 trivial) fun _ => asks_call.2 trivial
  | update input => exact asks_bind asks_update fun _ => asks_pure
  | toggle input => exact asks_bind asks_update fun _ => asks_pure
  | purgeExpired =>
    exact asks_bind (asks_bind (asks_call.2 trivial) fun _ => asks_call.2 trivial) fun _ =>
      asks_pure

end Asks

/-! ### What one operation does -/

variable {db : Db} {op : Op}

/-- The operations that write the setting or store a PIN. -/
theorem effect_setting (hset : ∀ change, op ≠ .updateSetting change) :
    (effect db op).setting = db.setting := by
  cases op <;> first | rfl | exact absurd rfl (hset _)

theorem consistent_of_pins (hset : ∀ change, op ≠ .updateSetting change)
    (hpin : ∀ pin, op ≠ .upsertPin pin) (h : Consistent db) : Consistent (effect db op) := by
  have hsetting : (effect db op).setting = db.setting := effect_setting hset
  refine ⟨fun hoff => ?_, fun hoff => ?_⟩
  · rw [hsetting] at hoff
    have hnone := Table.eq_empty_of_keys (h.noPin hoff)
    cases op <;> first
      | exact h.noPin hoff
      | exact absurd rfl (hpin _)
      | exact absurd rfl (hset _)
      | simp [effect, Db.deletePin, hnone]
  · rw [hsetting] at hoff ⊢
    exact h.noPhrase hoff

/-- What an update of the settings leaves. -/
theorem update_setting (change : SettingChange) :
    (db.update change).setting.duressEnabled = change.input.toggle.duressEnabled ∧
      (db.update change).setting.phraseKey =
        (if change.phraseKey ≠ change.current.phraseKey then change.phraseKey
          else db.setting.phraseKey) := by
  simp only [Db.update]
  split_ifs <;> exact ⟨rfl, rfl⟩

theorem update_pins (change : SettingChange)
    (hoff : change.input.toggle.duressEnabled = false) : (db.update change).pins.keys = [] := by
  simp only [Db.update, hoff]
  rfl

theorem consistent_effect_iff (h : Consistent db) (hruled : op.Ruled) :
    Consistent (effect db op) ↔ Timely db op = true := by
  by_cases hset : ∀ change, op ≠ .updateSetting change
  · by_cases hpin : ∀ pin, op ≠ .upsertPin pin
    · have htimely : Timely db op = true := by
        cases op <;> first | rfl | exact absurd rfl (hpin _) | exact absurd rfl (hset _)
      simpa [htimely] using consistent_of_pins hset hpin h
    · -- a PIN is stored: duress has to be enabled at that moment
      obtain ⟨pin, rfl⟩ : ∃ pin, op = .upsertPin pin := by simpa using hpin
      change Consistent (db.upsertPin pin) ↔ db.setting.duressEnabled = true
      constructor
      · intro hafter
        by_contra hoff
        have hkeys := hafter.noPin (Bool.not_eq_true _ ▸ hoff)
        have hmem : pin.userId ∈ (db.upsertPin pin).pins := AList.mem_insert _ |>.2 (.inl rfl)
        rw [Table.eq_empty_of_keys hkeys] at hmem
        exact AList.notMem_empty _ hmem
      · intro hon
        exact ⟨fun hoff => absurd (hon.symm.trans hoff) (by simp),
          fun hoff => absurd (hon.symm.trans hoff) (by simp)⟩
  · -- an update: when it disables duress, the phrase key has to go
    obtain ⟨change, rfl⟩ : ∃ change, op = .updateSetting change := by simpa using hset
    obtain ⟨henabled, hkey⟩ : (db.update change).setting.duressEnabled = _ ∧ _ :=
      update_setting change
    change Consistent (db.update change) ↔ _
    cases hoff : change.input.toggle.duressEnabled with
    | true =>
      have hon : (db.update change).setting.duressEnabled = true := henabled.trans hoff
      simp only [Timely, hoff, Bool.true_or, iff_true]
      exact ⟨fun h => absurd (hon.symm.trans h) (by simp),
        fun h => absurd (hon.symm.trans h) (by simp)⟩
    | false =>
      rw [hruled.1 hoff] at hkey
      have hiff : (db.update change).setting.phraseKey = "" ↔
          Timely db (.updateSetting change) = true := by
        by_cases hread : change.current.phraseKey = ""
        · simp [hkey, Timely, hoff, hread]
        · simp [hkey, Timely, hoff, hread, Ne.symm hread]
      rw [← hiff]
      exact ⟨fun hafter => hafter.noPhrase (henabled.trans hoff),
        fun hphrase => ⟨fun _ => update_pins change hoff, fun _ => hphrase⟩⟩

/-- Only a set, a clear and an update that disables duress touch the phrase key. -/
theorem effect_phrase (hruled : op.Ruled) (hop : ¬op.ChangesPhrase) :
    (effect db op).setting.phraseKey = db.setting.phraseKey := by
  by_cases hset : ∀ change, op ≠ .updateSetting change
  · rw [effect_setting hset]
  · obtain ⟨change, rfl⟩ : ∃ change, op = .updateSetting change := by simpa using hset
    simp only [Op.ChangesPhrase, not_or, not_not, Bool.not_eq_false] at hop
    refine (update_setting change).2.trans ?_
    simp [hruled.2 hop.1 hop.2]

/-! ### Runs -/

/-- **The duress settings over every run.**  Every state that the operations of a run leave is
consistent exactly if each operation was timely, and then the state reached is; and the phrase key
changes only by an update that sets it, clears it or disables duress. -/
theorem duress_settings_consistent {limits : Limits} {db₀ : Db} {h : List Note}
    {p : Pool Db Op Op.Ans} (hrun : Run (Step limits) (start db₀) h p) (hstart : Consistent db₀) :
    ((∀ n ∈ h, Timely n.before n.op = true) ↔ ∀ n ∈ h, Consistent n.after) ∧
      ((∀ n ∈ h, Timely n.before n.op = true) → Consistent p.shared) ∧
      ∀ n ∈ h, ¬n.op.ChangesPhrase → n.after.setting.phraseKey = n.before.setting.phraseKey := by
  have hphrase : ∀ n ∈ h, ¬n.op.ChangesPhrase →
      n.after.setting.phraseKey = n.before.setting.phraseKey := by
    refine Pool.invariant_of_asks (J := fun h _ => ∀ n ∈ h,
      ¬n.op.ChangesPhrase → n.after.setting.phraseKey = n.before.setting.phraseKey) hrun
      (by simp [start]) (by simp) asks_program ?_
    intro h db env op hkeep hruled n hn hchanges
    rcases List.mem_append.1 hn with hn | hn
    · exact hkeep n hn hchanges
    · obtain rfl := List.mem_singleton.1 hn
      exact effect_phrase hruled hchanges
  -- as long as the operations are timely the state stays consistent, and the first one that is
  -- not leaves a state that is not
  have hiff : ((∀ n ∈ h, Timely n.before n.op = true) → Consistent p.shared) ∧
      ((∀ n ∈ h, Timely n.before n.op = true) ↔ ∀ n ∈ h, Consistent n.after) := by
    refine Pool.invariant_of_asks (J := fun h db =>
      ((∀ n ∈ h, Timely n.before n.op = true) → Consistent db) ∧
        ((∀ n ∈ h, Timely n.before n.op = true) ↔ ∀ n ∈ h, Consistent n.after)) hrun
      (by simp [start]) ⟨fun _ => hstart, by simp⟩ asks_program ?_
    rintro h db env op ⟨hdb, hiff⟩ hruled
    have hstep := fun hall => consistent_effect_iff (hdb hall) hruled
    simp only [exec, List.mem_append, List.mem_singleton, or_imp, forall_and, forall_eq]
    exact ⟨fun ⟨hall, hop⟩ => (hstep hall).2 hop,
      fun ⟨hall, hop⟩ => ⟨hiff.1 hall, (hstep hall).2 hop⟩,
      fun ⟨hall, hop⟩ => ⟨hiff.2 hall, (hstep (hiff.2 hall)).1 hop⟩⟩
  exact ⟨hiff.2, hiff.1, hphrase⟩

section Examples

/-- Duress is enabled and nobody has a PIN. -/
def enabled : Db := { setting := { duressEnabled := true } }

theorem consistent_enabled : Consistent enabled := ⟨(nomatch ·), (nomatch ·)⟩

/-- Duress is turned off. -/
def turnOff : Request :=
  .toggle { duressEnabled := false, actorUserId := 1, actorName := "Ana", currentPin := none }

/-- The user 7 sets their PINs. -/
def choosePin : Request :=
  .setPin { userId := 7, userName := "Leo", disarmPin := "2580", duressPin := "1397"
            currentPin := none }

/-- A PIN is set, and after that duress is turned off. -/
def inTurn : List (Event Outside Request) :=
  .spawn choosePin :: List.replicate 7 (.run 0 {}) ++
    .spawn turnOff :: List.replicate 4 (.run 1 {})

/-- Duress is turned off while the PIN of a user is being hashed. -/
def meanwhile : List (Event Outside Request) :=
  .spawn choosePin :: List.replicate 4 (.run 0 {}) ++
    .spawn turnOff :: List.replicate 4 (.run 1 {}) ++ [.run 0 {}]

theorem duress_settings_consistent_inTurn : ∃ h p, Run (Step {}) (start enabled) h p ∧
    Consistent p.shared ∧ p.shared.setting.duressEnabled = false := by
  obtain ⟨⟨p, h⟩, hplay, hfacts⟩ := Option.any_eq_true _ _ |>.1
    (show ((Pool.replay exec (program {}) (start enabled) [] inTurn).any fun r =>
      r.1.shared.setting.duressEnabled = false && r.2.all fun n => Timely n.before n.op) = true
      from by decide)
  simp only [Bool.and_eq_true, decide_eq_true_eq, List.all_eq_true] at hfacts
  have hrun := Pool.run_of_replay .start hplay
  exact ⟨h, p, hrun, (duress_settings_consistent hrun consistent_enabled).2.1 hfacts.2, hfacts.1⟩

/-- A PIN outlives the duress setting it was set under. -/
theorem pin_outlives_duress : ¬∀ (limits : Limits) (db₀ : Db) (h : List Note)
    (p : Pool Db Op Op.Ans), Consistent db₀ → Run (Step limits) (start db₀) h p →
      Consistent p.shared := by
  intro hall
  obtain ⟨⟨p, h⟩, hplay, hfacts⟩ := Option.any_eq_true _ _ |>.1
    (show ((Pool.replay exec (program {}) (start enabled) [] meanwhile).any fun r =>
      r.1.shared.setting.duressEnabled = false && decide (r.1.shared.pins.keys ≠ [])) = true
      from by decide)
  simp only [Bool.and_eq_true, decide_eq_true_eq] at hfacts
  exact hfacts.2 ((hall {} enabled h p consistent_enabled
    (Pool.run_of_replay .start hplay)).noPin hfacts.1)

end Examples

end Safety

end ArgusBackend
