import ArgusBackend.Response.Wire
import Mathlib.Data.Int.Interval

/-!
# Whether a plan survives the wire

* `Orderly` : the steps of a plan, who is in it, and in which order;
* `Survives` : `parsePlan` reads from the JSON of a plan what the plan says;
* `Crowded` : somebody is at home, and those who are not use every step there is;
* `plan_survives_iff` : a plan built of members is orderly, and survives unless it is crowded.
-/

namespace ArgusBackend

namespace Response

/-! ### Members -/

section Members

variable {rows : List ResponseRecipientRow} {users : List ResponseUser} {n : ℤ}

theorem step_memberOf {user : ResponseUser} (hn : 0 ≤ n) :
    0 ≤ (memberOf rows user n).step ∧ (memberOf rows user n).step ≤ kMaxStep := by
  simp only [memberOf, kMaxStep]
  split
  · omega
  · split_ifs <;> omega

theorem mem_membersFrom {m : ResponseMember} (hn : 0 ≤ n) (hm : m ∈ membersFrom rows users n) :
    0 < m.userId ∧ 0 ≤ m.step ∧ m.step ≤ kMaxStep := by
  induction users generalizing n with
  | nil => cases hm
  | cons user users ih =>
    simp only [membersFrom] at hm
    split at hm
    · exact ih hn hm
    · rename_i hactive
      rcases List.mem_cons.1 hm with rfl | hm
      · simp only [Bool.or_eq_true, decide_eq_true_eq, not_or, not_le] at hactive
        exact ⟨hactive.2, step_memberOf hn⟩
      · exact ih (by split_ifs <;> omega) hm

theorem ids_membersFrom :
    ((membersFrom rows users n).map (·.userId)).Sublist (users.map (·.userId)) := by
  induction users generalizing n with
  | nil => exact .slnil
  | cons user users ih =>
    simp only [membersFrom]
    split
    · exact .cons _ ih
    · exact .cons_cons _ ih

theorem le_foldl_max {l : List ℤ} {a : ℤ} : a ≤ l.foldl max a := by
  induction l generalizing a with
  | nil => exact le_rfl
  | cons b l ih => exact (le_max_left a b).trans ih

variable {input : ResponseMembersInput}

theorem mem_members {m : ResponseMember} (hm : m ∈ members input) :
    0 < m.userId ∧ 0 ≤ m.step ∧ m.step ≤ kMaxStep := by
  refine mem_membersFrom ?_ ((List.mem_insertionSort _).1 hm)
  have := le_foldl_max (l := input.rows.filterMap (·.step)) (a := 0)
  omega

theorem nodup_members (hids : (input.users.map (·.userId)).Nodup) :
    ((members input).map (·.userId)).Nodup := by
  have hperm := (List.perm_insertionSort before (membersFrom input.rows input.users
    ((input.rows.filterMap (·.step)).foldl max 0 + 1))).map (·.userId)
  exact hperm.nodup_iff.2 (ids_membersFrom.nodup hids)

end Members

/-! ### The entries of a plan -/

namespace ResponsePlanInput

variable (input : ResponsePlanInput)

/-- The steps in use before they are compacted. -/
def rawSteps : List ℤ := input.placedEntries.map (·.step)

/-- The step of a member after the strategy. -/
def rawStep (m : ResponseMember) : ℤ := (input.placed (input.entryOf m)).step

/-- The entry of a member in the plan. -/
def finalEntry (m : ResponseMember) : ResponsePlanEntry :=
  { input.placed (input.entryOf m) with step := Ranks.rank input.rawSteps (input.rawStep m) }

variable {input} {m m' : ResponseMember} {e : ResponsePlanEntry}

theorem rawStep_mem (hm : m ∈ input.included) : input.rawStep m ∈ input.rawSteps := by
  simp only [rawSteps, placedEntries, List.map_map]
  exact List.mem_map_of_mem (f := input.rawStep) hm

theorem exists_of_rawSteps {v : ℤ} (hv : v ∈ input.rawSteps) :
    ∃ m ∈ input.included, input.rawStep m = v := by
  simp only [rawSteps, placedEntries, List.map_map] at hv
  exact List.mem_map.1 hv

theorem mem_included : m ∈ input.included ↔
    m ∈ input.members ∧ m.mode ≠ .off ∧ m.userId ∉ input.excluded := by
  simp [included]

theorem placed_userId {e : ResponsePlanEntry} : (input.placed e).userId = e.userId := by
  unfold placed
  split <;> try rfl
  split_ifs <;> rfl

theorem finalEntry_userId : (input.finalEntry m).userId = m.userId :=
  placed_userId

theorem placed_mandatory {e : ResponsePlanEntry} :
    (input.placed e).mandatory = e.mandatory ∧
      (e.mandatory = true → e.mode = .call → (input.placed e).mode = .call) ∧
        (e.mode ≠ .off → (input.placed e).mode ≠ .off) := by
  unfold placed
  split
  · exact ⟨rfl, fun _ h => h, fun h => h⟩
  · refine ⟨rfl, fun hm h => by simp [hm, h], fun h => ?_⟩
    dsimp only
    split_ifs
    · exact h
    · simp
  · split_ifs <;> exact ⟨rfl, fun _ h => h, fun h => h⟩
  · exact ⟨rfl, fun _ h => h, fun h => h⟩

/-- The entries of the plan, in the order of their steps. -/
theorem perm_entries : (build input).entries.Perm (input.included.map input.finalEntry) := by
  refine (List.perm_insertionSort _ _).trans (List.Perm.of_eq ?_)
  exact List.map_map (f := fun m => input.placed (input.entryOf m)) (l := input.included)

theorem mem_entries : e ∈ (build input).entries ↔ ∃ m ∈ input.included, input.finalEntry m = e := by
  rw [perm_entries.mem_iff, List.mem_map]

theorem sorted_entries : (build input).entries.Pairwise fun e e' => e.step ≤ e'.step :=
  List.pairwise_insertionSort (fun e e' : ResponsePlanEntry => e.step ≤ e'.step) _

theorem nodup_entries (hids : (input.members.map (·.userId)).Nodup) :
    ((build input).entries.map (·.userId)).Nodup := by
  refine (perm_entries.map (·.userId)).nodup_iff.2 ?_
  rw [List.map_map]
  have hsame : (fun e : ResponsePlanEntry => e.userId) ∘ input.finalEntry = (·.userId) :=
    funext fun m => finalEntry_userId
  rw [hsame]
  exact (List.filter_sublist.map _).nodup hids

/-! ### Steps -/

/-- How many steps are in use. -/
def steps (input : ResponsePlanInput) : ℕ := (Ranks.distinct input.rawSteps).length

theorem step_finalEntry (hm : m ∈ input.included) :
    0 ≤ (input.finalEntry m).step ∧ (input.finalEntry m).step < input.steps :=
  ⟨Int.natCast_nonneg _, Int.ofNat_lt.2 (Ranks.rank_lt_length (rawStep_mem hm))⟩

theorem exists_step {k : ℕ} (hk : k < input.steps) :
    ∃ e ∈ (build input).entries, e.step = k := by
  obtain ⟨v, hv, hrank⟩ := Ranks.exists_rank hk
  obtain ⟨m, hm, rfl⟩ := exists_of_rawSteps hv
  exact ⟨_, mem_entries.2 ⟨m, hm, rfl⟩, congrArg _ hrank⟩

theorem step_bounds (he : e ∈ (build input).entries) : 0 ≤ e.step ∧ e.step < input.steps := by
  obtain ⟨m, hm, rfl⟩ := mem_entries.1 he
  exact step_finalEntry hm

theorem steps_eq_zero (h : (build input).entries = []) : input.steps = 0 := by
  by_contra hne
  obtain ⟨e, he, -⟩ := exists_step (Nat.pos_of_ne_zero hne)
  rw [h] at he
  cases he

/-- The last entry is of the last step. -/
theorem stepCount_build : (build input).stepCount = input.steps := by
  change ((build input).entries.getLast?.elim 0 fun e => e.step + 1) = _
  rcases hlast : (build input).entries.getLast? with _ | e
  · rw [Option.elim_none, steps_eq_zero (List.getLast?_eq_none_iff.1 hlast)]
    rfl
  · have he : e ∈ (build input).entries := List.mem_of_getLast? hlast
    obtain ⟨hnonneg, hlt⟩ := step_bounds he
    obtain ⟨e', he', hstep⟩ := exists_step (show input.steps - 1 < input.steps by omega)
    have hle : e'.step ≤ e.step := by
      obtain ⟨front, hfront⟩ := List.getLast?_eq_some_iff.1 hlast
      have hsorted : (build input).entries.Pairwise fun e e' => e.step ≤ e'.step :=
        sorted_entries
      rw [hfront] at hsorted he'
      rcases List.mem_append.1 he' with hmem | hmem
      · exact (List.pairwise_append.1 hsorted).2.2 e' hmem e (by simp)
      · rw [List.mem_singleton.1 hmem]
    simp only [Option.elim_some]
    omega

/-! ### Crowded plans -/

/-- Somebody is at home, and those of the members an alarm goes to who are not use every step. -/
def Crowded (input : ResponsePlanInput) : Prop :=
  input.strategy = .insideFirst ∧ ∀ k : ℤ, 0 ≤ k → k ≤ kMaxStep →
    ∃ m ∈ input.included, isHome input.presence m.userId = false ∧ m.step = k

/-- The strategy looks at the same presence as `isHome`. -/
theorem exists_home (h : input.strategy = .insideFirst) :
    ∃ m ∈ input.included, isHome input.presence m.userId = true := by
  have hany : input.summary.anyHome = true := by
    unfold strategy strategyFor at h
    split at h <;> first
      | cases h
      | (by_contra hno
         simp [hno] at h
         split_ifs at h)
  simp only [summary, summarize, List.any_eq_true, List.mem_map, decide_eq_true_eq] at hany
  obtain ⟨_, ⟨m, hm, rfl⟩, hhome⟩ := hany
  refine ⟨m, hm, ?_⟩
  unfold isHome
  cases hrow : presenceOf input.presence m.userId with
  | none => simp [hrow] at hhome
  | some row => simpa [hrow] using hhome

theorem rawStep_insideFirst (h : input.strategy = .insideFirst) :
    input.rawStep m = if isHome input.presence m.userId then 0 else m.step + 1 := by
  by_cases hhome : isHome input.presence m.userId <;> simp [rawStep, placed, h, entryOf, hhome]

theorem rawStep_ordered (h : input.strategy = .ordered) : input.rawStep m = m.step := by
  simp only [rawStep, placed, h, entryOf]

theorem rawStep_zero (h : input.strategy = .everyone ∨ input.strategy = .nightQuiet) :
    input.rawStep m = 0 := by
  rcases h with h | h <;> simp only [rawStep, placed, h]

theorem card_rawSteps : input.steps = input.rawSteps.toFinset.card := Ranks.length_distinct _

theorem steps_le_of_subset {l : Finset ℤ} (h : ∀ m ∈ input.included, input.rawStep m ∈ l) :
    input.steps ≤ l.card := by
  rw [card_rawSteps]
  refine Finset.card_le_card fun v hv => ?_
  obtain ⟨m, hm, rfl⟩ := exists_of_rawSteps (List.mem_toFinset.1 hv)
  exact h m hm

/-- There are more steps than the notification service reads exactly if the plan is crowded. -/
theorem steps_le_iff (hmembers : ∀ m ∈ input.members, 0 ≤ m.step ∧ m.step ≤ kMaxStep) :
    (input.steps : ℤ) ≤ kMaxSteps ↔ ¬input.Crowded := by
  have hrange : ∀ m ∈ input.included, 0 ≤ m.step ∧ m.step ≤ 32 := fun m hm =>
    hmembers m (mem_included.1 hm).1
  have hsmall : ∀ l : Finset ℤ, l.card ≤ 33 → (∀ m ∈ input.included, input.rawStep m ∈ l) →
      (input.steps : ℤ) ≤ kMaxSteps := fun l hl h => by
    have := steps_le_of_subset h
    simp only [kMaxSteps]
    omega
  cases hstrategy : input.strategy with
  | ordered =>
    refine iff_of_true (hsmall (Finset.Icc 0 32) (by simp) fun m hm => ?_)
      fun h => by cases hstrategy.symm.trans h.1
    rw [rawStep_ordered hstrategy]
    exact Finset.mem_Icc.2 (hrange m hm)
  | everyone =>
    refine iff_of_true (hsmall {0} (by simp) fun m _ => ?_) fun h => by cases hstrategy.symm.trans h.1
    simp [rawStep_zero (.inl hstrategy)]
  | nightQuiet =>
    refine iff_of_true (hsmall {0} (by simp) fun m _ => ?_) fun h => by cases hstrategy.symm.trans h.1
    simp [rawStep_zero (.inr hstrategy)]
  | insideFirst =>
    constructor
    · -- the home member has step 0, and the others fill the steps from 1 to 33
      rintro hle ⟨-, hall⟩
      have hsub : Finset.Icc (0 : ℤ) 33 ⊆ input.rawSteps.toFinset := by
        intro k hk
        rw [Finset.mem_Icc] at hk
        rw [List.mem_toFinset]
        rcases eq_or_lt_of_le hk.1 with rfl | hpos
        · obtain ⟨m, hm, hhome⟩ := exists_home hstrategy
          have hraw := rawStep_mem hm
          rwa [rawStep_insideFirst hstrategy, if_pos hhome] at hraw
        · obtain ⟨m, hm, haway, hstep⟩ := hall (k - 1) (by omega) (by simp only [kMaxStep]; omega)
          have hraw := rawStep_mem hm
          rw [rawStep_insideFirst hstrategy, haway, hstep] at hraw
          simpa using hraw
      have hcard := Finset.card_le_card hsub
      rw [← card_rawSteps] at hcard
      simp only [kMaxSteps] at hle
      simp at hcard
      omega
    · intro hnot
      -- a step that no member away from home uses leaves its place free
      obtain ⟨k, hk₀, hk, hfree⟩ : ∃ k : ℤ, 0 ≤ k ∧ k ≤ kMaxStep ∧ ∀ m ∈ input.included,
          isHome input.presence m.userId = false → m.step ≠ k := by
        by_contra hno
        push Not at hno
        exact hnot ⟨hstrategy, hno⟩
      simp only [kMaxStep] at hk
      refine hsmall ((Finset.Icc 0 33).erase (k + 1)) ?_ fun m hm => ?_
      · rw [Finset.card_erase_of_mem (Finset.mem_Icc.2 ⟨by omega, by omega⟩)]
        simp
      · have hm' := hrange m hm
        rw [rawStep_insideFirst hstrategy, Finset.mem_erase, Finset.mem_Icc]
        cases hhome : isHome input.presence m.userId with
        | true => simp only [if_true]; omega
        | false =>
          have := hfree m hm hhome
          simp only [Bool.false_eq_true, if_false]
          omega

end ResponsePlanInput

/-! ### Reading a plan -/

/-- What the notification service makes of the mode of an entry. -/
def receivedMode : RecipientMode → ResponseMemberMode
  | .notify => .notify
  | _ => .call

/-- An entry as the notification service is to have it. -/
def received (entry : ResponsePlanEntry) : ParsedEntry where
  userId := entry.userId
  step := entry.step
  mode := receivedMode entry.mode
  mandatory := entry.mandatory
  discreet := entry.discreet

/-- A plan as the notification service is to have it: nothing, if nobody is in it. -/
def receivedPlan (plan : ResponsePlan) : Option ParsedResponsePlan :=
  if plan.entries = [] then none else some
    { strategy := responseStrategyToString plan.strategy
      stepCount := plan.stepCount
      stepSeconds := plan.stepSeconds
      entries := plan.entries.map received }

/-- `parsePlan` reads from the JSON of the plan what the plan says. -/
def Survives (plan : ResponsePlan) : Prop := parsePlan (toJson plan) = .ok (receivedPlan plan)

theorem mode_roundtrip (mode : RecipientMode) :
    responseMemberModeFromString (recipientModeToString mode) = receivedMode mode := by
  cases mode <;> decide

theorem knownStrategy_toString (strategy : ResponseStrategy) :
    knownStrategy (responseStrategyToString strategy) = true := by
  cases strategy <;> decide

section Recipient

variable {e : ResponsePlanEntry}

theorem field_recipientJson : (recipientJson e).field "userId" = .int e.userId ∧
    (recipientJson e).field "step" = .int e.step ∧
      text (recipientJson e) "mode" = recipientModeToString e.mode := by
  simp [recipientJson, Json.field, text]

theorem get_recipientJson {fallback : Json} :
    (recipientJson e).get "mandatory" fallback = .bool e.mandatory ∧
      (recipientJson e).get "discreet" fallback = .bool e.discreet := by
  simp [recipientJson, Json.get]

theorem parseRecipient_recipientJson {acc : List ParsedEntry}
    (hid : 0 < e.userId) (hstep : 0 ≤ e.step) (hint : e.step < 2 ^ 31)
    (hnew : e.userId ∉ acc.map (·.userId)) :
    parseRecipient acc (recipientJson e) =
      .ok (if e.step < kMaxSteps then acc ++ [received e] else acc) := by
  have hany : acc.any (·.userId = e.userId) = false := by
    simp only [List.any_eq_false, decide_eq_true_eq]
    exact fun a ha heq => hnew (List.mem_map.2 ⟨a, ha, heq⟩)
  have hrange : -2 ^ 31 ≤ e.step ∧ e.step < 2 ^ 31 := ⟨by omega, hint⟩
  have hobject : (recipientJson e).isObject = true := rfl
  obtain ⟨huser, hstepField, hmode⟩ := @field_recipientJson e
  obtain ⟨hmandatory, hdiscreet⟩ := @get_recipientJson e (.bool false)
  simp only [parseRecipient, hobject, huser, hstepField, hmode, hmandatory, hdiscreet,
    mode_roundtrip, Json.isIntegral, Json.asInt64, Json.asInt, Json.asBool, if_pos hrange,
    Bool.not_true, Bool.or_self, Bool.false_eq_true, if_false, hany, bind, Except.bind]
  have hskip : (e.userId ≤ 0 ∨ e.step < 0 ∨ kMaxSteps ≤ e.step ∨ False) ↔
      ¬e.step < kMaxSteps := by
    simp only [or_false, not_lt]
    exact ⟨fun h => h.elim (fun h => by omega) fun h => h.elim (fun h => by omega) id,
      fun h => .inr (.inr h)⟩
  simp only [hskip]
  split_ifs <;> rfl

end Recipient

/-- The recipients that are read: those of a step below the limit. -/
theorem parse_recipients {entries : List ResponsePlanEntry} {acc : List ParsedEntry}
    (hentries : ∀ e ∈ entries, 0 < e.userId ∧ 0 ≤ e.step ∧ e.step < 2 ^ 31)
    (hids : (entries.map (·.userId)).Nodup)
    (hnew : ∀ e ∈ entries, e.userId ∉ acc.map (·.userId)) :
    (entries.map recipientJson).foldlM parseRecipient acc =
      .ok (acc ++ (entries.filter (·.step < kMaxSteps)).map received) := by
  induction entries generalizing acc with
  | nil => simp [pure, Except.pure]
  | cons e entries ih =>
    obtain ⟨⟨hid, hstep, hint⟩, hrest⟩ := List.forall_mem_cons.1 hentries
    obtain ⟨hfirst, hids'⟩ := List.nodup_cons.1 hids
    obtain ⟨hnewFirst, hnewRest⟩ := List.forall_mem_cons.1 hnew
    rw [List.map_cons, List.foldlM_cons, parseRecipient_recipientJson hid hstep hint hnewFirst]
    change (entries.map recipientJson).foldlM parseRecipient _ = _
    rw [ih hrest hids' fun e' he' => ?_]
    · by_cases hlt : e.step < kMaxSteps <;> simp [hlt]
    · -- the users after this one are others
      have hne : e'.userId ≠ e.userId := fun heq =>
        hfirst (List.mem_map.2 ⟨e', he', heq⟩)
      split_ifs
      · simpa [received, hne] using hnewRest e' he'
      · exact hnewRest e' he'

/-- The count of steps that `parsePlan` makes is the largest step, counted from 1. -/
theorem foldl_max_eq {l : List ℤ} {a b : ℤ} (hle : ∀ v ∈ l, v ≤ b) (ha : a ≤ b)
    (hb : b = a ∨ b ∈ l) : l.foldl max a = b := by
  induction l generalizing a with
  | nil => exact (hb.resolve_right List.not_mem_nil).symm
  | cons c l ih =>
    obtain ⟨hc, hl⟩ := List.forall_mem_cons.1 hle
    refine ih hl (max_le ha hc) ?_
    rcases hb with rfl | hb
    · exact .inl (max_eq_left hc).symm
    · rcases List.mem_cons.1 hb with rfl | hb
      · exact .inl (max_eq_right ha).symm
      · exact .inr hb

section Parse

variable {input : ResponsePlanInput}

theorem parse_build (hmembers : ∀ m ∈ input.members, 0 < m.userId)
    (hids : (input.members.map (·.userId)).Nodup) (hsteps : input.steps < 2 ^ 31)
    (hseconds : kMinStepSeconds ≤ input.stepSeconds ∧ input.stepSeconds ≤ kMaxStepSeconds) :
    parsePlan (toJson (build input)) =
      let kept := (build input).entries.filter (·.step < kMaxSteps)
      .ok (if kept = [] then none else some
        { strategy := responseStrategyToString input.strategy
          stepCount := (kept.map (·.step + 1)).foldl max 0
          stepSeconds := input.stepSeconds
          entries := kept.map received }) := by
  have hentries : ∀ e ∈ (build input).entries, 0 < e.userId ∧ 0 ≤ e.step ∧ e.step < 2 ^ 31 := by
    intro e he
    obtain ⟨hnonneg, hlt⟩ := ResponsePlanInput.step_bounds he
    obtain ⟨m, hm, rfl⟩ := ResponsePlanInput.mem_entries.1 he
    rw [ResponsePlanInput.finalEntry_userId]
    exact ⟨hmembers m (ResponsePlanInput.mem_included.1 hm).1, hnonneg, by omega⟩
  have hread := @parse_recipients _ [] hentries (ResponsePlanInput.nodup_entries hids) (by simp)
  have hobject : (toJson (build input)).isObject = true := rfl
  have hrecipients : (toJson (build input)).field "recipients" =
      .arr ((build input).entries.map recipientJson) := by
    simp [toJson, Json.field]
  have hstrategy : text (toJson (build input)) "strategy" =
      responseStrategyToString input.strategy := by
    simp [text, toJson, Json.field, build]
  have hget : (toJson (build input)).get "stepSeconds" (.int 45) = .int input.stepSeconds := by
    simp [toJson, Json.get, build]
  simp only [kMinStepSeconds, kMaxStepSeconds] at hseconds
  have hint : -2 ^ 31 ≤ input.stepSeconds ∧ input.stepSeconds < 2 ^ 31 := ⟨by omega, by omega⟩
  simp only [parsePlan, hobject, hrecipients, hstrategy, hget, Json.asInt, if_pos hint, hread,
    knownStrategy_toString, if_true, bind, Except.bind, List.nil_append, List.map_eq_nil_iff,
    List.map_map, kMinStepSeconds, kMaxStepSeconds]
  split_ifs
  · rfl
  · have hclamp : max 15 (min input.stepSeconds 300) = input.stepSeconds := by omega
    rw [hclamp]
    rfl

/-- A plan survives exactly if the notification service reads as many steps as it has. -/
theorem survives_iff_steps (hmembers : ∀ m ∈ input.members, 0 < m.userId)
    (hids : (input.members.map (·.userId)).Nodup) (hsteps : input.steps < 2 ^ 31)
    (hseconds : kMinStepSeconds ≤ input.stepSeconds ∧ input.stepSeconds ≤ kMaxStepSeconds) :
    Survives (build input) ↔ (input.steps : ℤ) ≤ kMaxSteps := by
  have hparse := parse_build hmembers hids hsteps hseconds
  constructor
  · -- an entry of a step that is not read is missing from what is read
    intro hsurvives
    by_contra hmany
    obtain ⟨e, he, hstep⟩ := ResponsePlanInput.exists_step
      (show input.steps - 1 < input.steps by simp only [kMaxSteps] at hmany; omega)
    have hnonempty : (build input).entries ≠ [] := List.ne_nil_of_mem he
    rw [Survives, hparse, receivedPlan, if_neg hnonempty] at hsurvives
    have hsame := Except.ok.inj hsurvives
    split_ifs at hsame with hkept
    have hlength := congrArg List.length
      (congrArg ParsedResponsePlan.entries (Option.some.inj hsame))
    rw [List.length_map, List.length_map, List.length_filter_eq_length_iff] at hlength
    have := of_decide_eq_true (hlength e he)
    omega
  · intro hle
    have hkept : (build input).entries.filter (·.step < kMaxSteps) = (build input).entries := by
      refine List.filter_eq_self.2 fun e he => decide_eq_true ?_
      have := (ResponsePlanInput.step_bounds he).2
      omega
    rw [Survives, hparse, receivedPlan]
    simp only [hkept]
    by_cases hempty : (build input).entries = []
    · rw [if_pos hempty, if_pos hempty]
    rw [if_neg hempty, if_neg hempty, ResponsePlanInput.stepCount_build]
    have hcount : (((build input).entries.map (·.step + 1)).foldl max 0 : ℤ) = input.steps := by
      obtain ⟨e, he⟩ := List.exists_mem_of_ne_nil _ hempty
      have hpos := ResponsePlanInput.step_bounds he
      obtain ⟨e', he', hlast⟩ := ResponsePlanInput.exists_step
        (show input.steps - 1 < input.steps by omega)
      refine foldl_max_eq (fun v hv => ?_) (by omega) (.inr (List.mem_map.2 ⟨e', he', by omega⟩))
      obtain ⟨e, he, rfl⟩ := List.mem_map.1 hv
      have := (ResponsePlanInput.step_bounds he).2
      omega
    rw [hcount]
    rfl

end Parse

/-! ### What a plan is like -/

/-- The steps of a plan, who is in it, and in which order. -/
structure Orderly (input : ResponsePlanInput) (plan : ResponsePlan) : Prop where
  steps : ∀ k : ℤ, (∃ e ∈ plan.entries, e.step = k) ↔ 0 ≤ k ∧ k < plan.stepCount
  once : ∀ m ∈ input.members, m.mode ≠ .off → m.userId ∉ input.excluded →
    plan.entries.countP (·.userId = m.userId) = 1
  mandatory : ∀ e ∈ plan.entries, e.mandatory = true → e.mode = .call
  order : plan.strategy = .ordered ∨ plan.strategy = .insideFirst →
    ∀ m ∈ input.members, ∀ m' ∈ input.members, ∀ e ∈ plan.entries, ∀ e' ∈ plan.entries,
      e.userId = m.userId → e'.userId = m'.userId →
        isHome input.presence m.userId = isHome input.presence m'.userId →
          m.step ≤ m'.step → e.step ≤ e'.step
  strict : plan.strategy = .ordered ∨ plan.strategy = .insideFirst →
    ∀ m ∈ input.members, ∀ m' ∈ input.members, ∀ e ∈ plan.entries, ∀ e' ∈ plan.entries,
      e.userId = m.userId → e'.userId = m'.userId →
        (plan.strategy = .insideFirst → isHome input.presence m.userId = false ∧
          isHome input.presence m'.userId = false) → m.step < m'.step → e.step < e'.step

namespace ResponsePlanInput

variable {input : ResponsePlanInput} {m m' : ResponseMember}

/-- The member of an entry is the one with its id. -/
theorem entry_of_member (hids : (input.members.map (·.userId)).Nodup) (hm : m ∈ input.members)
    {e : ResponsePlanEntry} (he : e ∈ (build input).entries) (hid : e.userId = m.userId) :
    m ∈ input.included ∧ input.finalEntry m = e := by
  obtain ⟨m₀, hm₀, rfl⟩ := mem_entries.1 he
  rw [finalEntry_userId] at hid
  obtain rfl := List.inj_on_of_nodup_map hids (mem_included.1 hm₀).1 hm hid
  exact ⟨hm₀, rfl⟩

theorem mandatory_finalEntry (h : (input.finalEntry m).mandatory = true) :
    (input.finalEntry m).mode = .call := by
  have hentry : (input.entryOf m).mandatory = true :=
    (@placed_mandatory input _).1.symm.trans h
  have hguard : input.mandatory m = true := hentry
  exact (@placed_mandatory input _).2.1 hentry (by simp [entryOf, hguard])

theorem rawStep_le (h : input.strategy = .ordered ∨ input.strategy = .insideFirst)
    (hhome : isHome input.presence m.userId = isHome input.presence m'.userId)
    (hle : m.step ≤ m'.step) : input.rawStep m ≤ input.rawStep m' := by
  rcases h with h | h
  · rwa [rawStep_ordered h, rawStep_ordered h]
  · rw [rawStep_insideFirst h, rawStep_insideFirst h, hhome]
    split_ifs <;> omega

theorem rawStep_lt (h : input.strategy = .ordered ∨ input.strategy = .insideFirst)
    (haway : input.strategy = .insideFirst → isHome input.presence m.userId = false ∧
      isHome input.presence m'.userId = false) (hlt : m.step < m'.step) :
    input.rawStep m < input.rawStep m' := by
  rcases h with h | h
  · rwa [rawStep_ordered h, rawStep_ordered h]
  · rw [rawStep_insideFirst h, rawStep_insideFirst h, (haway h).1, (haway h).2]
    simpa using hlt

theorem orderly_build (hids : (input.members.map (·.userId)).Nodup) :
    Orderly input (build input) where
  steps k := by
    rw [stepCount_build]
    constructor
    · rintro ⟨e, he, rfl⟩
      exact step_bounds he
    · rintro ⟨hnonneg, hlt⟩
      obtain ⟨n, rfl⟩ := Int.eq_ofNat_of_zero_le hnonneg
      exact exists_step (by omega)
  once m hm hmode hexcluded := by
    have hincluded := mem_included.2 ⟨hm, hmode, hexcluded⟩
    have hcount : ((build input).entries.map (·.userId)).count m.userId = 1 := by
      refine List.count_eq_one_of_mem (nodup_entries hids) (List.mem_map.2 ?_)
      exact ⟨_, mem_entries.2 ⟨m, hincluded, rfl⟩, finalEntry_userId⟩
    rw [← hcount, List.count, List.countP_map]
    exact List.countP_congr fun e _ => by simp
  mandatory e he hmandatory := by
    obtain ⟨m, -, rfl⟩ := mem_entries.1 he
    exact mandatory_finalEntry hmandatory
  order hstrategy m hm m' hm' e he e' he' hid hid' hhome hle := by
    obtain ⟨hincluded, rfl⟩ := entry_of_member hids hm he hid
    obtain ⟨hincluded', rfl⟩ := entry_of_member hids hm' he' hid'
    exact Int.ofNat_le.2 ((Ranks.rank_le_rank (rawStep_mem hincluded)
      (rawStep_mem hincluded')).2 (rawStep_le hstrategy hhome hle))
  strict hstrategy m hm m' hm' e he e' he' hid hid' haway hlt := by
    obtain ⟨hincluded, rfl⟩ := entry_of_member hids hm he hid
    obtain ⟨hincluded', rfl⟩ := entry_of_member hids hm' he' hid'
    exact Int.ofNat_lt.2 ((Ranks.rank_lt_rank (rawStep_mem hincluded)
      (rawStep_mem hincluded')).2 (rawStep_lt hstrategy haway hlt))

/-- There are no more steps than places for them. -/
theorem steps_lt (hmembers : ∀ m ∈ input.members, 0 ≤ m.step ∧ m.step ≤ kMaxStep) :
    input.steps < 2 ^ 31 := by
  have hle : input.steps ≤ (Finset.Icc (0 : ℤ) 33).card := by
    refine steps_le_of_subset fun m hm => Finset.mem_Icc.2 ?_
    have hm' := hmembers m (mem_included.1 hm).1
    simp only [kMaxStep] at hm'
    cases hstrategy : input.strategy with
    | ordered => rw [rawStep_ordered hstrategy]; omega
    | everyone => rw [rawStep_zero (.inl hstrategy)]; omega
    | nightQuiet => rw [rawStep_zero (.inr hstrategy)]; omega
    | insideFirst => rw [rawStep_insideFirst hstrategy]; split_ifs <;> omega
  have hcard : (Finset.Icc (0 : ℤ) 33).card = 34 := by simp
  omega

end ResponsePlanInput

section Members

variable {people : ResponseMembersInput} {input : ResponsePlanInput}

theorem nodup_of_members (hids : (people.users.map (·.userId)).Nodup)
    (hmembers : input.members = members people) : (input.members.map (·.userId)).Nodup :=
  hmembers ▸ nodup_members hids

theorem survives_iff_not_crowded (hids : (people.users.map (·.userId)).Nodup)
    (hmembers : input.members = members people)
    (hseconds : kMinStepSeconds ≤ input.stepSeconds ∧ input.stepSeconds ≤ kMaxStepSeconds) :
    Survives (build input) ↔ ¬input.Crowded := by
  have hall : ∀ m ∈ input.members, 0 < m.userId ∧ 0 ≤ m.step ∧ m.step ≤ kMaxStep :=
    fun m hm => mem_members (hmembers ▸ hm)
  rw [survives_iff_steps (fun m hm => (hall m hm).1) (nodup_of_members hids hmembers)
    (ResponsePlanInput.steps_lt fun m hm => (hall m hm).2) hseconds,
    ResponsePlanInput.steps_le_iff fun m hm => (hall m hm).2]

end Members

/-- **A plan from its members to the notification service**: it is orderly, and what is read from
its JSON is the plan, unless it is crowded. -/
theorem plan_survives_iff {people : ResponseMembersInput} {input : ResponsePlanInput}
    (hids : (people.users.map (·.userId)).Nodup) (hmembers : input.members = members people)
    (hseconds : kMinStepSeconds ≤ input.stepSeconds ∧ input.stepSeconds ≤ kMaxStepSeconds) :
    (Survives (build input) ↔ ¬input.Crowded) ∧ Orderly input (build input) :=
  ⟨survives_iff_not_crowded hids hmembers hseconds,
    ResponsePlanInput.orderly_build (nodup_of_members hids hmembers)⟩

section Examples

/-- A household with the ids from 1 on, the last of which is at home and has no step; the others
have the steps from 0 on. -/
def household (n : ℕ) : ResponseMembersInput where
  users := (List.range n).map fun i => { userId := i + 1, role := .owner }
  rows := (List.range (n - 1)).map fun i => { userId := i + 1, step := some (i : ℤ) }

/-- The input of a household of which only the last member is at home. -/
def alarm (n : ℕ) : ResponsePlanInput where
  members := members (household n)
  presence := [{ userId := n, state := .home }]

theorem plan_survives_three : Survives (build (alarm 3)) ∧ Orderly (alarm 3) (build (alarm 3)) := by
  obtain ⟨hiff, horderly⟩ := @plan_survives_iff (household 3) (alarm 3)
    (by decide) rfl (by decide)
  refine ⟨hiff.2 fun hcrowded => ?_, horderly⟩
  obtain ⟨m, hm, -, hstep⟩ := hcrowded.2 20 (by decide) (by decide)
  revert m
  decide

/-- One at home and 33 away, each in a step of their own: the last one is dropped. -/
theorem last_step_dropped : ¬∀ (people : ResponseMembersInput) (input : ResponsePlanInput),
    (people.users.map (·.userId)).Nodup → input.members = members people →
      kMinStepSeconds ≤ input.stepSeconds ∧ input.stepSeconds ≤ kMaxStepSeconds →
        Survives (build input) := by
  intro hall
  have hids : ((household 34).users.map (·.userId)).Nodup := by decide
  refine (survives_iff_not_crowded hids rfl (by decide)).1
    (hall (household 34) (alarm 34) hids rfl (by decide)) ⟨by decide, fun k hk₀ hk => ?_⟩
  have huses : ∀ n ∈ List.range 33, ∃ m ∈ (alarm 34).included,
      isHome (alarm 34).presence m.userId = false ∧ m.step = (n : ℤ) := by decide
  obtain ⟨n, rfl⟩ := Int.eq_ofNat_of_zero_le hk₀
  exact huses n (List.mem_range.2 (by simp only [kMaxStep] at hk; omega))

end Examples

end Response

end ArgusBackend
