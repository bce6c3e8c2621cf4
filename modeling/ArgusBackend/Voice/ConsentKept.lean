import ArgusBackend.Voice.ConsentAnswers
import Mathlib.Data.List.Chain

/-!
# Consent over a conversation

Every turn of a visitor goes through `consentHolds`.  Here a run of turns is kept with what each of
them did to the consent.

* `Conversation.Hears` : the runs from the question on;
* `Kept` : what holds of the turns of a run, whatever the answers are;
* `consent_heard_and_kept` : the consent is kept in every run, and heard exactly under `PlainAnswer`.
-/

namespace ArgusBackend

namespace Voice

namespace Consent

/-- A turn, with the consent before and after it. -/
structure Turn where
  before : VisitorConsent
  text : List UInt8
  beforeQuestion : Bool
  after : VisitorConsent
  toAssistant : Bool

namespace Conversation

variable (config : WatchConfig)

/-- The turn that a text makes. -/
def heard (s : Conversation) (text : List UInt8) : Turn where
  before := s.consent
  text := text
  beforeQuestion := (s.turn config text).beforeQuestion
  after := (s.consentHolds config text).2.consent
  toAssistant := (s.consentHolds config text).1

/-- The turns of a conversation from the question on. -/
abbrev Hears (wakeTurnPending : Bool) : List Turn → Conversation → Prop :=
  Run (fun s notes s' => ∃ text, notes = [s.heard config text] ∧
    s' = (s.consentHolds config text).2) (started config wakeTurnPending)

end Conversation

lemma consentTurn_minor (input : ConsentTurnInput) (h : minorStatement input.text = true) :
    (consentTurn input).consent = .declined := by
  rw [consentTurn, if_pos h]

lemma consentTurn_declined (input : ConsentTurnInput) (h : input.consent = .declined) :
    (consentTurn input).consent = .declined := by
  unfold consentTurn
  split_ifs with hminor hgranted
  · rfl
  · exact absurd (h.symm.trans hgranted) (by decide)
  · rfl

/-- Consent is granted by a clear yes to the question, and by nothing else. -/
lemma consentTurn_granted (input : ConsentTurnInput) (h : (consentTurn input).consent = .granted)
    (hbefore : input.consent ≠ .granted) :
    minorStatement input.text = false ∧ input.beforeQuestion = false ∧
      consentAnswer input.text input.maxWords input.wakeMaxDistance = .yes := by
  unfold consentTurn at h
  split at h
  · cases h
  · next hminor =>
    split at h
    · cases h
    · split at h
      · exact absurd h hbefore
      · next hquestion =>
        split at h
        · next hyes => exact ⟨by simpa using hminor, by simpa using hquestion, hyes⟩
        · cases h
        · split at h <;> exact absurd h hbefore

lemma consentTurn_toAssistant (input : ConsentTurnInput) (h : (consentTurn input).toAssistant = true) :
    input.consent = .granted ∧ minorStatement input.text = false := by
  unfold consentTurn at h
  split at h
  · cases h
  · next hminor =>
    split at h
    · next hgranted => exact ⟨hgranted, by simpa using hminor⟩
    · split at h
      · cases h
      · split at h
        · cases h
        · split at h
          · cases h
          · cases h
          · split at h <;> cases h

variable (config : WatchConfig)

/-- What a single turn may do. -/
structure Turn.Proper (t : Turn) : Prop where
  granted : t.after = .granted → t.before ≠ .granted → minorStatement t.text = false ∧
    t.beforeQuestion = false ∧
    consentAnswer t.text config.visitorConsentMaxWords config.wakeMaxDistance = .yes
  declined : t.before = .declined → t.after = .declined
  minor : minorStatement t.text = true → t.after = .declined
  passed : t.toAssistant = true → t.before = .granted ∧ minorStatement t.text = false

lemma proper_heard (s : Conversation) (text : List UInt8) :
    (s.heard config text).Proper config where
  granted := consentTurn_granted (s.turn config text)
  declined := consentTurn_declined (s.turn config text)
  minor := consentTurn_minor (s.turn config text)
  passed := consentTurn_toAssistant (s.turn config text)

/-- Every turn is proper and begins with the consent that the one before it left; after a refusal
or a minor's statement the consent stays declined. -/
structure Kept (h : List Turn) (s : Conversation) : Prop where
  proper : ∀ t ∈ h, t.Proper config
  linked : h.IsChain fun t t' => t'.before = t.after
  current : ∀ t ∈ h.getLast?, s.consent = t.after
  last : ∀ t ∈ h, t.after = .declined → s.consent = .declined
  stays : h.Pairwise fun t t' => t.after = .declined → t'.after = .declined

variable {config} {wakeTurnPending : Bool} {h : List Turn} {s : Conversation}

theorem kept_of_run (hrun : Conversation.Hears config wakeTurnPending h s) : Kept config h s := by
  refine hrun.invariant (J := Kept config) ⟨by simp, .nil, by simp, by simp, .nil⟩ ?_
  rintro h s _ s' hkept ⟨text, rfl, rfl⟩
  have hproper := proper_heard config s text
  have hstays : ∀ t ∈ h, t.after = .declined → (s.heard config text).after = .declined :=
    fun t ht hdeclined => hproper.declined (hkept.last t ht hdeclined)
  refine ⟨?_, ?_, by simp [Conversation.heard], ?_, ?_⟩
  · exact List.forall_mem_append.mpr ⟨hkept.proper, by simpa using hproper⟩
  · refine List.isChain_append.mpr ⟨hkept.linked, .singleton _, fun t ht t' ht' => ?_⟩
    obtain rfl : s.heard config text = t' := by simpa using ht'
    exact hkept.current t ht
  · refine List.forall_mem_append.mpr ⟨hstays, ?_⟩
    simp only [List.mem_singleton, forall_eq]
    exact id
  · rw [List.pairwise_append]
    refine ⟨hkept.stays, List.pairwise_singleton _ _, ?_⟩
    rintro t ht t' ht' hdeclined
    rw [List.mem_singleton.mp ht']
    exact hstays t ht hdeclined

/-- In every run of turns the consent is kept, and every replacement loop ends; an answer is heard as
the grammar has it exactly when no phrase of it is broken and the deletions join no others. -/
theorem consent_heard_and_kept (hrun : Conversation.Hears config wakeTurnPending h s) :
    Kept config h s ∧ LoopsEnd ∧
      ∀ text maxWords wakeMaxDistance, Heard text maxWords wakeMaxDistance ↔
        PlainAnswer text maxWords wakeMaxDistance :=
  ⟨kept_of_run hrun, loops_end, heard_iff⟩

/-! ### Four answers -/

/-- `si` -/
def plainYes : List UInt8 := [0x73, 0x69]

/-- `ok then` -/
def okThen : List UInt8 := [0x6f, 0x6b, 0x20, 0x74, 0x68, 0x65, 0x6e]

/-- `por si supuesto` -/
def porSiSupuesto : List UInt8 :=
  [0x70, 0x6f, 0x72, 0x20, 0x73, 0x69, 0x20, 0x73, 0x75, 0x70, 0x75, 0x65, 0x73, 0x74, 0x6f]

/-- `no por si supuesto` -/
def noPorSiSupuesto : List UInt8 := [0x6e, 0x6f, 0x20] ++ porSiSupuesto

/-- The first turn is no answer, the second grants and the third is passed to the assistant; a refusal
is heard with an interrupted phrase behind it too. -/
theorem consent_heard_and_kept_yes :
    (∃ h s, Conversation.Hears {} false h s ∧ Kept {} h s ∧
      h.map (fun t => (t.after, t.toAssistant)) =
        [(.asked, false), (.granted, false), (.granted, true)]) ∧
    Heard plainYes 6 2 ∧ Heard noPorSiSupuesto 6 2 := by
  have hrun : Conversation.Hears {} false _ _ :=
    ((Run.start.next ⟨okThen, rfl, rfl⟩).next ⟨plainYes, rfl, rfl⟩).next ⟨noPorSiSupuesto, rfl, rfl⟩
  have hall := consent_heard_and_kept hrun
  refine ⟨⟨_, _, hrun, hall.1, by decide +kernel⟩, (hall.2.2 plainYes 6 2).mpr ?_,
    (hall.2.2 noPorSiSupuesto 6 2).mpr ?_⟩
  · have hread : readIdioms (answerWords plainYes 2) = ["si".toList] := by decide +kernel
    have hconsents : Consents ["si".toList] :=
      ⟨[["si".toList]], by decide +kernel, by decide +kernel, rfl⟩
    intro _ _ _
    rw [hread]
    exact ⟨fun _ => by decide +kernel, fun hnot => absurd hconsents hnot⟩
  · have hno : ∃ phrase ∈ kNo,
        wordsOf phrase <:+: readIdioms (answerWords noPorSiSupuesto 2) := by decide +kernel
    exact fun _ hnone _ => absurd hno hnone

/-- A clear yes is missed, and words that are none are taken for one. -/
theorem answers_misheard : ¬Heard okThen 6 2 ∧ ¬Heard porSiSupuesto 6 2 := by
  constructor
  · intro hheard
    have hwords : answerWords okThen 2 = ["ok".toList, "then".toList] := by decide +kernel
    have hread : readIdioms (answerWords okThen 2) = ["ok".toList, "then".toList] := by
      decide +kernel
    have hnone : consentAnswer okThen 6 2 = .none := by decide +kernel
    have hyes : consentAnswer okThen 6 2 = .yes := by
      refine hheard.yes.mpr ⟨?_, ?_, ?_⟩
      · rw [hwords]
        exact ⟨by simp, by decide⟩
      · rw [hread]
        decide +kernel
      · rw [hread]
        exact ⟨[["ok".toList, "then".toList]], by decide +kernel, by decide +kernel, rfl⟩
    exact absurd (hnone.symm.trans hyes) (by decide)
  · intro hheard
    have hread : readIdioms (answerWords porSiSupuesto 2) =
        ["por".toList, "si".toList, "supuesto".toList] := by decide +kernel
    have hyes : consentAnswer porSiSupuesto 6 2 = .yes := by decide +kernel
    obtain ⟨segs, hsegs, -, hflat⟩ := (hheard.yes.mp hyes).2.2
    rw [hread] at hflat
    -- no phrase starts with the words that are there
    have hstart : ∀ seg ∈ phrases,
        ¬seg <+: ["por".toList, "si".toList, "supuesto".toList] := by decide +kernel
    cases segs with
    | nil => cases hflat
    | cons seg segs =>
      exact hstart seg (hsegs seg (List.mem_cons_self ..)) ⟨segs.flatten, hflat⟩

end Consent

end Voice

end ArgusBackend
